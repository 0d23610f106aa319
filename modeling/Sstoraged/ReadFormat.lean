import Sstoraged.ReadReply

namespace Sstoraged.ReadFormat

open ReadHandler ReadTiling ReadPlan ReadReply

variable {B : Type} {ix : LbaIndex}

def isData : Task B → Bool
  | .sendfile _ => true
  | .sendCache _ => true
  | _ => false

def wordPad (n : Nat) : Nat := (n + 3) / padWordLen * padWordLen

def lbaOf (bhs : Header) : Nat := (Cdb10.mk (Parser.mk bhs).getSCB).getLBA

def lengthOf (bhs : Header) : Nat := (Cdb10.mk (Parser.mk bhs).getSCB).getTransferLength

/-- A READ that passes the checks of the handler, on a LUN that has its cache. -/
structure Accepted (s : Session B ix) (bhs : Header) (lv : LogicalVolume) (wc : WriteCache B ix) :
    Prop where
  valid : ReadHandler.valid bhs = true
  final : (Parser.mk bhs).isFinal = true
  lun : s.getLUN (Parser.mk bhs).getLUN = some lv
  cache : s.wcaches[(Parser.mk bhs).getLUN]? = some wc
  lba : lbaOf bhs < lv.getTotalSize
  positive : 0 < lengthOf bhs
  inside : lbaOf bhs + lengthOf bhs ≤ lv.getTotalSize

def cacheOf (wc : WriteCache B ix) (bhs : Header) : List (WriteSegment B) :=
  (wc.search (lbaOf bhs) (lengthOf bhs)).map wc.ws

/-- What a reply in the queue has to look like. -/
structure Format (h : ReadHandler) (lba tl : Nat) (s : Session B ix) (body : List (Task B))
    (hs : List DataInHeader) : Prop where
  lead : (group body).1 = []
  headers : (group body).2.map (fun q => dataInHeader s q.1) = hs.map some
  size : ∀ q ∈ (group body).2, q.1.totalRemain = sizeofHeader ∧ q.1.offered s.bufs = sizeofHeader
  tasks : ∀ q ∈ (group body).2, ∀ t ∈ q.2, isData t = true
  lengths : (group body).2.map (fun q => (q.2.map Task.dataLength).sum) =
    hs.map fun hd => wordPad hd.dlength
  limit : ∀ hd ∈ hs, hd.dlength ≤ h.byteMrds
  datasn : hs.map DataInHeader.datasn = List.range hs.length
  offset : ∀ i hd, hs[i]? = some hd → hd.offset = ((hs.take i).map DataInHeader.dlength).sum
  final : ∀ i hd, hs[i]? = some hd →
    hd.flags &&& finalFlags = if i + 1 = hs.length then finalFlags else 0
  blocks : (group body).2.flatMap (fun q => blocksOf q.2) = List.range' lba tl

/-- The handler accepts the READ and queues a reply of the right format
between a cork and an uncork. -/
def Formatted (h : ReadHandler) (s : Session B ix) (bhs : Header) : Prop :=
  ∃ s' body hs, h.handle s bhs = some (true, s') ∧
    s'.sendtask = s.sendtask ++ .cork :: (body ++ [.uncork]) ∧
    Format h (lbaOf bhs) (lengthOf bhs) s' body hs

/-- The limit that the initiator declared is exact: one PDU is enough, or a
PDU that is full has no bytes beyond its last block. -/
def Exact (h : ReadHandler) (tl : Nat) : Prop := tl ≤ h.transferMrds ∨ 512 ∣ h.byteMrds

section Data

variable (lv : LogicalVolume)

def DataTask (t : Task B) : Prop := isData t = true ∧ t.dataLength = 512 * t.blocks.length

theorem dataTask_sendfile (lba length : Nat) :
    DataTask (.sendfile (SendfileTask.new lv lba length) : Task B) :=
  ⟨rfl, by rw [blocks_sendfile, List.length_range']; simp [Task.dataLength, SendfileTask.new]⟩

theorem dataTask_sendCache (ws : WriteSegment B) (lba length : Nat) :
    DataTask (.sendCache (SendCacheTask.new ws lba length)) :=
  ⟨rfl, by rw [blocks_sendCache, List.length_range', Task.dataLength, SendCache.totalRemain_new]⟩

theorem dataTask_of_sendCache (hits : List (WriteSegment B)) (rlba tl : Nat) :
    ∀ t ∈ (sendCache lv hits rlba tl).1, DataTask t := by
  induction hits generalizing rlba tl with
  | nil =>
    rw [sendCache]
    split
    · simpa using dataTask_sendfile lv rlba tl
    · simp
  | cons ws hits ih =>
    rw [sendCache]
    split
    · simp
    dsimp only
    split
    · exact List.forall_mem_cons.mpr ⟨dataTask_sendCache _ _ _, ih _ _⟩
    split
    · simpa using ⟨dataTask_sendfile lv _ _, dataTask_sendCache ws _ _⟩
    · exact List.forall_mem_cons.mpr ⟨dataTask_sendfile lv _ _,
        List.forall_mem_cons.mpr ⟨dataTask_sendCache _ _ _, ih _ _⟩⟩

theorem dataTask_missData {a len b : Nat} {ts : List (Task B)}
    (h : missData lv a len = some (ts, b)) : ∀ t ∈ ts, DataTask t := by
  cases h
  simpa using dataTask_sendfile lv a len

theorem dataTask_hitData {cache : List (WriteSegment B)} {a len b : Nat} {ts : List (Task B)}
    (h : hitData lv cache a len = some (ts, b)) : ∀ t ∈ ts, DataTask t := by
  simp only [hitData] at h
  split at h
  · cases h
  · simp only [Option.some.injEq] at h
    have hts : (sendCache lv (getHitSegments cache a len) a len).1 = ts := by rw [h]
    rw [← hts]
    exact dataTask_of_sendCache lv _ a len

theorem sum_dataLength (ts : List (Task B)) (h : ∀ t ∈ ts, DataTask t) :
    (ts.map Task.dataLength).sum = 512 * (blocksOf ts).length := by
  induction ts with
  | nil => rfl
  | cons t ts ih =>
    obtain ⟨ht, hts⟩ := List.forall_mem_cons.mp h
    rw [List.map_cons, List.sum_cons, ih hts, ht.2, blocksOf_cons, List.length_append, Nat.mul_add]

theorem plan_dataTask {data : Nat → Nat → Option (List (Task B) × Nat)} (m : Nat)
    (hdata : ∀ a len ts b, data a len = some (ts, b) → ∀ t ∈ ts, DataTask t) (fuel lba tl : Nat) :
    ∀ ts ∈ (plan m data fuel lba tl).2, ∀ t ∈ ts, DataTask t := by
  induction fuel generalizing lba tl with
  | zero => simp [plan]
  | succ fuel ih =>
    rw [plan]
    split
    · simp
    · rename_i ts b hd
      split
      · simpa using hdata _ _ _ _ hd
      · exact List.forall_mem_cons.mpr ⟨hdata _ _ _ _ hd, ih _ _⟩

theorem plan_length {data : Nat → Nat → Option (List (Task B) × Nat)} (m fuel lba tl : Nat)
    (h : (plan m data fuel lba tl).1 = true) :
    (plan m data fuel lba tl).2.length = (lengths m fuel tl).length := by
  induction fuel generalizing lba tl with
  | zero => rfl
  | succ fuel ih =>
    rw [plan] at h ⊢
    rw [lengths]
    split
    · rename_i hd
      simp [hd] at h
    · rename_i ts b hd
      simp only [hd] at h
      split
      · rfl
      · rename_i hlast
        rw [if_neg hlast] at h
        simp [ih _ _ h]

theorem plan_miss (m fuel lba tl : Nat) (hm : 0 < m) (hf : tl ≤ fuel) (htl : 0 < tl) :
    (plan m (missData lv : Nat → Nat → Option (List (Task B) × Nat)) fuel lba tl).1 = true ∧
      (plan m (missData lv : Nat → Nat → Option (List (Task B) × Nat)) fuel lba tl).2.map
        (fun ts => (blocksOf ts).length) =
        lengths m fuel tl ∧
      (plan m (missData lv : Nat → Nat → Option (List (Task B) × Nat)) fuel lba tl).2.flatMap
        blocksOf = List.range' lba tl := by
  induction fuel generalizing lba tl with
  | zero => omega
  | succ fuel ih =>
    by_cases hlast : tl ≤ m
    · simp [plan, lengths, missData, hlast]
    · obtain ⟨hok, hlens, hflat⟩ := ih (lba + m) (tl - m) (by omega) (by omega)
      have hmin : min tl m = m := by omega
      have hsum : m + (tl - m) = tl := by omega
      refine ⟨?_, ?_, ?_⟩
      · simpa [plan, missData, hlast, hmin] using hok
      · simpa [plan, lengths, missData, hlast, hmin] using hlens
      · simp only [plan, missData, if_neg hlast, hmin, List.flatMap_cons, hflat]
        rw [blocksOf_cons, blocksOf_nil, List.append_nil, blocks_sendfile, List.range'_append_1, hsum]

end Data

section Headers

variable (h : ReadHandler) (base : DataInHeader)

theorem headersFrom_length (fuel d o tl : Nat) :
    (headersFrom h base fuel d o tl).length = (lengths h.transferMrds fuel tl).length := by
  induction fuel generalizing d o tl with
  | zero => rfl
  | succ fuel ih =>
    rw [headersFrom, lengths]
    split
    · rfl
    · simp [ih]

theorem headersFrom_limit (fuel d o tl : Nat) :
    ∀ hd ∈ headersFrom h base fuel d o tl, hd.dlength ≤ h.byteMrds := by
  have hm : h.transferMrds = h.byteMrds / 512 := offset2Lba_eq _
  induction fuel generalizing d o tl with
  | zero => simp [headersFrom]
  | succ fuel ih =>
    rw [headersFrom]
    split
    · simp only [List.mem_singleton, forall_eq]
      omega
    · exact List.forall_mem_cons.mpr ⟨le_rfl, ih _ _ _⟩

theorem headersFrom_datasn (fuel d o tl : Nat) :
    (headersFrom h base fuel d o tl).map DataInHeader.datasn =
      List.range' d (headersFrom h base fuel d o tl).length := by
  induction fuel generalizing d o tl with
  | zero => rfl
  | succ fuel ih =>
    rw [headersFrom]
    split
    · rfl
    · simp [ih, List.range'_succ]

variable {h base}

theorem headersFrom_dlength {fuel d o tl : Nat} (he : Exact h tl) :
    (headersFrom h base fuel d o tl).map DataInHeader.dlength =
      (lengths h.transferMrds fuel tl).map (512 * ·) := by
  have hm : h.transferMrds = h.byteMrds / 512 := offset2Lba_eq _
  induction fuel generalizing d o tl with
  | zero => rfl
  | succ fuel ih =>
    rw [headersFrom, lengths]
    split
    · rfl
    · rename_i hlast
      have hd : 512 ∣ h.byteMrds := he.resolve_left hlast
      simp only [List.map_cons, ih (.inr hd), List.cons.injEq, and_true]
      omega

theorem headersFrom_offset {fuel d o tl : Nat} (he : Exact h tl) (i : Nat) {hd' : DataInHeader}
    (hi : (headersFrom h base fuel d o tl)[i]? = some hd') :
    hd'.offset = o + (((headersFrom h base fuel d o tl).take i).map DataInHeader.dlength).sum := by
  have hm : h.transferMrds = h.byteMrds / 512 := offset2Lba_eq _
  induction fuel generalizing d o tl i with
  | zero => simp [headersFrom] at hi
  | succ fuel ih =>
    rw [headersFrom] at hi ⊢
    split at hi
    · rename_i hlast
      rw [if_pos hlast]
      cases i with
      | zero =>
        simp only [List.getElem?_cons_zero, Option.some.injEq] at hi
        simp [← hi]
      | succ i => simp at hi
    · rename_i hlast
      rw [if_neg hlast]
      have hd : 512 ∣ h.byteMrds := he.resolve_left hlast
      cases i with
      | zero =>
        simp only [List.getElem?_cons_zero, Option.some.injEq] at hi
        simp [← hi]
      | succ i =>
        rw [List.getElem?_cons_succ] at hi
        have hih := ih (.inr hd) i hi
        rw [List.take_succ_cons, List.map_cons, List.sum_cons]
        show hd'.offset = o + (h.byteMrds + _)
        omega

theorem headersFrom_final (hbase : base.flags = 0) {fuel d o tl : Nat} (hm : 0 < h.transferMrds)
    (htl : 0 < tl) (hf : tl ≤ fuel) (i : Nat) {hd : DataInHeader}
    (hi : (headersFrom h base fuel d o tl)[i]? = some hd) :
    hd.flags &&& finalFlags =
      if i + 1 = (headersFrom h base fuel d o tl).length then finalFlags else 0 := by
  induction fuel generalizing d o tl i with
  | zero => omega
  | succ fuel ih =>
    rw [headersFrom] at hi ⊢
    split at hi
    · rename_i hlast
      rw [if_pos hlast]
      cases i with
      | zero =>
        simp only [List.getElem?_cons_zero, Option.some.injEq] at hi
        rw [← hi, hbase]
        show (0 ||| finalFlags) &&& finalFlags = finalFlags
        decide
      | succ i => simp at hi
    · rename_i hlast
      rw [if_neg hlast, List.length_cons]
      cases i with
      | zero =>
        simp only [List.getElem?_cons_zero, Option.some.injEq] at hi
        have hne : 0 < (headersFrom h base fuel (d + 1) (o + 512 * h.transferMrds)
            (tl - h.transferMrds)).length := by
          obtain ⟨fuel, rfl⟩ := Nat.exists_eq_add_of_lt (show 0 < fuel by omega)
          rw [Nat.zero_add, headersFrom]
          split <;> simp
        rw [← hi, if_neg (by omega), hbase]
        show (0 : UInt8) &&& finalFlags = 0
        decide
      | succ i =>
        rw [List.getElem?_cons_succ] at hi
        rw [ih (by omega) (by omega) i hi]
        congr 1
        rw [Nat.add_right_cancel_iff]

end Headers

/-- The data of the PDUs, by whether anything was cached. -/
def dataOf (lv : LogicalVolume) (cache : List (WriteSegment B)) :
    Nat → Nat → Option (List (Task B) × Nat) :=
  if cache.isEmpty then missData lv else hitData lv cache

theorem dataTask_dataOf (lv : LogicalVolume) (cache : List (WriteSegment B)) (a len : Nat)
    (ts : List (Task B)) (b : Nat) (h : dataOf lv cache a len = some (ts, b)) :
    ∀ t ∈ ts, DataTask t := by
  unfold dataOf at h
  split at h
  · exact dataTask_missData lv h
  · exact dataTask_hitData lv h

theorem dataInLoop_miss (h : ReadHandler) (lv : LogicalVolume) (fuel : Nat) (reply : DataInGenerator)
    (lba tl : Nat) (s : Session B ix) (r : Bool × Session B ix)
    (hr : h.dataInLoop (missData lv) fuel reply lba tl s = some r) : r.1 = true := by
  induction fuel generalizing reply lba tl s with
  | zero => cases hr
  | succ fuel ih =>
    rw [dataInLoop_succ h _ fuel reply lba tl s rfl] at hr
    simp only [missData] at hr
    split at hr
    · cases hr
      rfl
    · exact ih _ _ _ _ hr

theorem ite_map_loops (c : Bool) (x y : Option (Bool × Session B ix))
    (hx : ∀ r, x = some r → r.1 = true) :
    (if c = true then x.map fun r => (true, r.2.push .uncork)
      else y.map fun r => if r.1 = true then (true, r.2.push .uncork) else (false, r.2)) =
    (if c = true then x else y).map fun r =>
      if r.1 = true then (true, r.2.push .uncork) else (false, r.2) := by
  cases c with
  | true =>
    cases x with
    | none => rfl
    | some r => simp [hx r rfl]
  | false => rfl

theorem handle_start (h : ReadHandler) {s : Session B ix} {bhs : Header} {lv : LogicalVolume}
    {wc : WriteCache B ix} (ha : Accepted s bhs lv wc) :
    ∃ base reply s₀, (base.flags = 0 ∧ base.statsn = s.statsn) ∧ Ready base 0 0 reply s₀ ∧
      (s₀.sendtask = s.sendtask ++ [.cork] ∧ s₀.statsn = advanceSn s.statsn) ∧
      s₀.bufs reply.cbuf = ⟨0, 48⟩ ∧
      h.handle s bhs = (h.dataInLoop (dataOf lv (cacheOf wc bhs)) (lengthOf bhs) reply (lbaOf bhs)
        (lengthOf bhs) s₀).map fun (ok, s) => if ok then (true, s.push .uncork) else (false, s) := by
  obtain ⟨hv, hf, hl, hc, hlba, hp, hin⟩ := ha
  let base : DataInHeader :=
    { itt := (Parser.mk bhs).getITT, ttt := iscsiRsvdTaskTag, statsn := s.statsn
      expcmdsn := s.expcmdsn, maxcmdsn := s.maxcmdsn }
  let s₁ := putHeader (DataInGenerator.new s).2.advanceSTATSN s.next base
  have hset : (DataInGenerator.new s).1.set (fun b => { b with
      itt := (Parser.mk bhs).getITT, ttt := iscsiRsvdTaskTag, statsn := (DataInGenerator.new s).2.statsn
      expcmdsn := (DataInGenerator.new s).2.expcmdsn, maxcmdsn := (DataInGenerator.new s).2.maxcmdsn })
      (DataInGenerator.new s).2.advanceSTATSN = s₁ := by
    have hnew : (DataInGenerator.new s).2.advanceSTATSN.headers (DataInGenerator.new s).1.cbuf =
        .dataIn {} := Function.update_self _ _ _
    rw [set_dataIn _ hnew]
    rfl
  have hready : Ready base 0 0 (DataInGenerator.new s).1 (s₁.push .cork) :=
    ⟨rfl, rfl, 0, putHeader_self _ _ _⟩
  have hlen : lengthOf bhs < 2 ^ 16 := Cdb10.getTransferLength_lt _
  refine ⟨base, (DataInGenerator.new s).1, s₁.push .cork, ⟨rfl, rfl⟩, hready, ⟨rfl, rfl⟩, ?_, ?_⟩
  · simp [s₁, putHeader, DataInGenerator.new, Session.alloc, Session.advanceSTATSN]
    decide
  · have hrange : ¬(lv.getTotalSize ≤ lbaOf bhs ∨ lengthOf bhs = 0 ∨
        lv.getTotalSize < lbaOf bhs + lengthOf bhs) := by omega
    have hwc : s₁.wcaches[(Parser.mk bhs).getLUN]? = some wc := hc
    unfold lbaOf lengthOf at hrange
    simp only [handle, hv, hf, hl, Bool.true_eq_false, if_false, if_neg hrange, hset, hwc]
    rw [dataOf]
    have hl := ite_map_loops (cacheOf wc bhs).isEmpty
      (h.dataInLoop (missData lv) (lengthOf bhs) (DataInGenerator.new s).1 (lbaOf bhs)
        (lengthOf bhs) (s₁.push .cork))
      (h.dataInLoop (hitData lv (cacheOf wc bhs)) (lengthOf bhs) (DataInGenerator.new s).1
        (lbaOf bhs) (lengthOf bhs) (s₁.push .cork))
      fun r hr => dataInLoop_miss h lv _ _ _ _ _ r hr
    refine Eq.trans ?_ (hl.trans ?_)
    · rfl
    · by_cases hc : (cacheOf wc bhs).isEmpty = true <;>
        simp only [hc, Bool.false_eq_true, if_true, if_false]

theorem not_send {t : Task B} (h : DataTask t) (u : SendTask) : t ≠ .send u := by
  rintro rfl
  cases h.1

theorem handle_replied {h : ReadHandler} {s : Session B ix} {bhs : Header} {lv : LogicalVolume}
    {wc : WriteCache B ix} (ha : Accepted s bhs lv wc) (hb : h.byteMrds < 2 ^ 24)
    (hm : 0 < h.transferMrds) :
    ∃ base p s₀ s' body pdus, base.flags = 0 ∧ s₀.sendtask = s.sendtask ++ [.cork] ∧
      s₀.bufs p = ⟨0, 48⟩ ∧
      Replied h base (lengthOf bhs) 0 0 (lengthOf bhs) p
        (plan h.transferMrds (dataOf lv (cacheOf wc bhs)) (lengthOf bhs) (lbaOf bhs) (lengthOf bhs)).2
        s₀ s' body pdus ∧
      h.handle s bhs = some (if (plan h.transferMrds (dataOf lv (cacheOf wc bhs)) (lengthOf bhs)
        (lbaOf bhs) (lengthOf bhs)).1 then (true, s'.push .uncork) else (false, s')) := by
  obtain ⟨base, reply, s₀, ⟨hflags, -⟩, hready, ⟨hst, -⟩, hbuf, heq⟩ := handle_start h ha
  have hlen : lengthOf bhs < 2 ^ 16 := Cdb10.getTransferLength_lt _
  obtain ⟨s', body, pdus, hloop, hr⟩ := dataInLoop_replied hb hm
    (fun a len ts b hd t ht => not_send (dataTask_dataOf lv (cacheOf wc bhs) a len ts b hd t ht))
    (lengthOf bhs) (lbaOf bhs) ha.positive le_rfl hready (by omega) (by omega)
  refine ⟨base, reply.cbuf, s₀, s', body, pdus, hflags, hst, hbuf, hr, ?_⟩
  rw [heq, hloop]
  rfl

theorem dataOf_length {lv : LogicalVolume} {cache : List (WriteSegment B)} (hc : Cached cache)
    {a len : Nat} (hl : 0 < len) (hlen : len < 2 ^ 17) {ts : List (Task B)} {b : Nat}
    (h : dataOf lv cache a len = some (ts, b)) :
    (blocksOf ts).length = len ∨ 2 ^ 31 ≤ (blocksOf ts).length := by
  unfold dataOf at h
  split at h
  · cases h
    simp
  · obtain ⟨-, ⟨h₁, -⟩ | ⟨-, h₁⟩⟩ := hitData_length hc hl hlen h
    · exact .inl h₁
    · exact .inr h₁

theorem headersFrom_lengths {h : ReadHandler} {base : DataInHeader} {tl : Nat} (he : Exact h tl) :
    (headersFrom h base tl 0 0 tl).map (fun hd => wordPad hd.dlength) =
      (lengths h.transferMrds tl tl).map (512 * ·) := by
  have hw : ∀ n, wordPad (512 * n) = 512 * n := fun n => by
    unfold wordPad padWordLen
    omega
  have hmap := congrArg (List.map wordPad) (@headersFrom_dlength h base tl 0 0 tl he)
  simpa only [List.map_map, Function.comp_def, hw] using hmap

/-- The data of the PDUs is as long as announced only if the limit is exact,
and then each PDU is as long as the plan says. -/
theorem plan_lengths {h : ReadHandler} (hb : h.byteMrds < 2 ^ 24) (hm : 0 < h.transferMrds)
    (lv : LogicalVolume) {cache : List (WriteSegment B)} (hc : Cached cache) (base : DataInHeader)
    {lba tl : Nat} (htl : 0 < tl)
    (hlen : (plan h.transferMrds (dataOf lv cache) tl lba tl).2.map
        (fun ts => (ts.map Task.dataLength).sum) =
      (headersFrom h base tl 0 0 tl).map fun hd => wordPad hd.dlength) :
    Exact h tl ∧ (plan h.transferMrds (dataOf lv cache) tl lba tl).2.map
      (fun ts => (blocksOf ts).length) = lengths h.transferMrds tl tl := by
  have hbm : h.transferMrds = h.byteMrds / 512 := offset2Lba_eq _
  have hsum : (plan h.transferMrds (dataOf lv cache) tl lba tl).2.map
      (fun ts => (ts.map Task.dataLength).sum) =
      (plan h.transferMrds (dataOf lv cache) tl lba tl).2.map
        (fun ts => 512 * (blocksOf ts).length) :=
    List.map_congr_left fun ts hts =>
      sum_dataLength ts (plan_dataTask _ (dataTask_dataOf lv cache) _ _ _ ts hts)
  have hexact : Exact h tl := by
    by_cases hlast : tl ≤ h.transferMrds
    · exact .inl hlast
    · obtain ⟨n, rfl⟩ := Nat.exists_eq_add_of_lt htl
      have hmin : min (0 + n + 1) h.transferMrds = h.transferMrds := by omega
      rw [hsum] at hlen
      simp only [plan, headersFrom, if_neg hlast, hmin] at hlen
      have hword : h.byteMrds ≤ wordPad h.byteMrds ∧ wordPad h.byteMrds ≤ h.byteMrds + 3 := by
        unfold wordPad padWordLen
        omega
      cases hd : dataOf lv cache lba h.transferMrds with
      | none =>
        simp [hd] at hlen
        omega
      | some r =>
        obtain ⟨ts, b⟩ := r
        simp only [hd, List.map_cons, List.cons.injEq] at hlen
        rcases dataOf_length hc hm (by omega) hd with hl | hl
        · right
          omega
        · omega
  refine ⟨hexact, ?_⟩
  rw [hsum, headersFrom_lengths hexact] at hlen
  have hinj := congrArg (List.map (· / 512)) hlen
  simpa [List.map_map, Function.comp_def] using hinj

theorem plan_blocks_iff {h : ReadHandler} (hb : h.byteMrds < 2 ^ 24) (hm : 0 < h.transferMrds)
    (lv : LogicalVolume) {cache : List (WriteSegment B)} (hc : Cached cache) {lba tl : Nat}
    (htl : 0 < tl) :
    ((plan h.transferMrds (dataOf lv cache) tl lba tl).1 = true ∧
      (plan h.transferMrds (dataOf lv cache) tl lba tl).2.map (fun ts => (blocksOf ts).length) =
        lengths h.transferMrds tl tl ∧
      (plan h.transferMrds (dataOf lv cache) tl lba tl).2.flatMap blocksOf = List.range' lba tl) ↔
    cache = [] ∨ AllServed cache h.transferMrds lba tl := by
  have hbm : h.transferMrds = h.byteMrds / 512 := offset2Lba_eq _
  by_cases he : cache.isEmpty = true
  · have hn : cache = [] := List.isEmpty_iff.mp he
    simp only [dataOf, hn, List.isEmpty_nil, if_true, true_or, iff_true]
    exact plan_miss lv _ _ _ _ hm le_rfl htl
  · have hn : cache ≠ [] := fun hn => he (List.isEmpty_iff.mpr hn)
    simp only [dataOf, if_neg he, hn, false_or]
    exact plan_iff hc hm (by omega) tl lba tl htl le_rfl

theorem formatted_exact {h : ReadHandler} {s : Session B ix} {bhs : Header} {lv : LogicalVolume}
    {wc : WriteCache B ix} (ha : Accepted s bhs lv wc) (hb : h.byteMrds < 2 ^ 24)
    (hm : 0 < h.transferMrds) (hc : Cached (cacheOf wc bhs)) (hf : Formatted h s bhs) :
    Exact h (lengthOf bhs) ∧ (cacheOf wc bhs = [] ∨
      AllServed (cacheOf wc bhs) h.transferMrds (lbaOf bhs) (lengthOf bhs)) := by
  obtain ⟨base, p, s₀, s', body, pdus, -, hst, -, hr, heq⟩ := handle_replied ha hb hm
  obtain ⟨s'', body', hs, heq', hst', hfmt⟩ := hf
  rw [heq, Option.some.injEq] at heq'
  split at heq'
  swap
  · cases heq'
  rename_i hok
  cases heq'
  have hbody : body' = body := by
    rw [Session.push_sendtask, hr.sendtask, hst] at hst'
    simpa using hst'.symm
  subst hbody
  have hg := hr.group
  have hn : pdus.length = (headersFrom h base (lengthOf bhs) 0 0 (lengthOf bhs)).length := by
    rw [headersFrom_length, ← plan_length _ _ _ _ hok, ← hr.data, List.length_map]
  have hhs : hs = headersFrom h base (lengthOf bhs) 0 0 (lengthOf bhs) := by
    have hh := hfmt.headers
    have hh' := hr.headers
    rw [hn, List.take_length] at hh'
    rw [hg] at hh
    have : (hs.map some : List (Option DataInHeader)) =
        (headersFrom h base (lengthOf bhs) 0 0 (lengthOf bhs)).map some := hh.symm.trans hh'
    exact (List.map_inj_right fun _ _ => Option.some.inj).mp this
  have hlen := hfmt.lengths
  rw [hg, hhs] at hlen
  rw [show (fun q : SendTask × List (Task B) => (q.2.map Task.dataLength).sum) =
    (fun ts : List (Task B) => (ts.map Task.dataLength).sum) ∘ Prod.snd from rfl, ← List.map_map,
    hr.data] at hlen
  obtain ⟨hexact, hcount⟩ := plan_lengths hb hm lv hc base ha.positive hlen
  refine ⟨hexact, (plan_blocks_iff hb hm lv hc ha.positive).mp ⟨hok, hcount, ?_⟩⟩
  have hbl := hfmt.blocks
  rw [hg] at hbl
  rw [← hr.data, List.flatMap_map]
  exact hbl

theorem formatted_of_served {h : ReadHandler} {s : Session B ix} {bhs : Header} {lv : LogicalVolume}
    {wc : WriteCache B ix} (ha : Accepted s bhs lv wc) (hb : h.byteMrds < 2 ^ 24)
    (hm : 0 < h.transferMrds) (hc : Cached (cacheOf wc bhs)) (he : Exact h (lengthOf bhs))
    (hserved : cacheOf wc bhs = [] ∨
      AllServed (cacheOf wc bhs) h.transferMrds (lbaOf bhs) (lengthOf bhs)) : Formatted h s bhs := by
  obtain ⟨base, p, s₀, s', body, pdus, hflags, hst, hbuf, hr, heq⟩ := handle_replied ha hb hm
  obtain ⟨hok, hlens, hblocks⟩ := (plan_blocks_iff hb hm lv hc ha.positive).mpr hserved
  have hg := hr.group
  have hn : pdus.length = (headersFrom h base (lengthOf bhs) 0 0 (lengthOf bhs)).length := by
    rw [headersFrom_length, ← plan_length _ _ _ _ hok, ← hr.data, List.length_map]
  have htask : ∀ q ∈ pdus, ∀ t ∈ q.2, DataTask t := fun q hq =>
    plan_dataTask _ (dataTask_dataOf lv (cacheOf wc bhs)) _ _ _ q.2 (hr.data ▸ List.mem_map_of_mem hq)
  have hword : lengthOf bhs ≤ h.transferMrds ∨ h.byteMrds % 4 = 0 :=
    he.imp_right fun hd => by omega
  rw [hok, if_pos rfl] at heq
  refine ⟨s'.push .uncork, body, headersFrom h base (lengthOf bhs) 0 0 (lengthOf bhs), heq, ?_, ?_⟩
  · rw [Session.push_sendtask, hr.sendtask, hst]
    simp
  refine ⟨by rw [hg], ?_, ?_, ?_, ?_, headersFrom_limit h base _ _ _ _, ?_, fun i hd hi => ?_,
    fun i hd hi => ?_, ?_⟩
  · have hh := hr.headers
    rw [hn, List.take_length] at hh
    rw [hg]
    exact hh
  · rw [hg]
    exact hr.size hword hbuf
  · rw [hg]
    exact fun q hq t ht => (htask q hq t ht).1
  · rw [hg, headersFrom_lengths he, ← hlens, ← hr.data, List.map_map, List.map_map]
    exact List.map_congr_left fun q hq => sum_dataLength q.2 (htask q hq)
  · rw [headersFrom_datasn, List.range_eq_range']
  · rw [headersFrom_offset he i hi, Nat.zero_add]
  · exact headersFrom_final hflags hm ha.positive le_rfl i hi
  · rw [hg, ← hblocks, ← hr.data, List.flatMap_map]

/-- The lengths of the segments fit the 32-bit lengths that they were built from. -/
def Bounded (wc : WriteCache B ix) : Prop := ∀ p ∈ ix.toList wc.byLba, (wc.ws p).rlength < 2 ^ 32

instance (wc : WriteCache B ix) : Decidable (Bounded wc) :=
  inferInstanceAs (Decidable (∀ p ∈ ix.toList wc.byLba, _))

theorem cached_search {wc : WriteCache B ix} (hw : Bounded wc) (lba length : Nat) :
    Cached ((wc.search lba length).map wc.ws) := by
  intro ws hws
  obtain ⟨p, hp, rfl⟩ := List.mem_map.mp hws
  obtain ⟨hm, hpos, -⟩ := WriteCache.mem_search hp
  exact ⟨hpos, hw p hm⟩

/-- The reply is well formed exactly if the limit of the initiator is exact and
every PDU of a reply from cached data is served in place. -/
theorem formatted_iff (h : ReadHandler) (s : Session B ix) (bhs : Header) (lv : LogicalVolume)
    (wc : WriteCache B ix) (ha : Accepted s bhs lv wc)
    (hmrds : 512 ≤ h.byteMrds ∧ h.byteMrds < 2 ^ 24) (hw : Bounded wc) :
    Formatted h s bhs ↔ Exact h (lengthOf bhs) ∧ (cacheOf wc bhs = [] ∨
      AllServed (cacheOf wc bhs) h.transferMrds (lbaOf bhs) (lengthOf bhs)) := by
  have hbm : h.transferMrds = h.byteMrds / 512 := offset2Lba_eq _
  have hm : 0 < h.transferMrds := by omega
  have hc : Cached (cacheOf wc bhs) := cached_search hw _ _
  constructor
  · exact formatted_exact ha hmrds.2 hm hc
  · rintro ⟨he, hserved⟩
    exact formatted_of_served ha hmrds.2 hm hc he hserved

section Sample

/-- A READ(10) of LUN 0. -/
def sampleRead (lba length : UInt8) : Header
  | 1 => 0xC0
  | 32 => 0x28
  | 37 => lba
  | 40 => length
  | _ => 0

def sampleVolume : LogicalVolume := ⟨[⟨"volume", 0, 16⟩]⟩

def sampleSession (wc : WriteCache Unit LbaIndex.ofList) : Session Unit LbaIndex.ofList where
  lvs := [sampleVolume]
  wcaches := [wc]
  statsn := 0
  expcmdsn := 0
  maxcmdsn := 0
  recvinfo _ := none
  sendtask := []
  bufs _ := .new
  headers _ := .dataIn {}
  next := 0

theorem lbaOf_sampleRead (lba length : UInt8) : lbaOf (sampleRead lba length) = lba.toNat := by
  simp [lbaOf, Cdb10.getLBA, Header.ntohl, Header.ntohs, Parser.getSCB, sampleRead]

theorem lengthOf_sampleRead (lba length : UInt8) : lengthOf (sampleRead lba length) = length.toNat := by
  simp [lengthOf, Cdb10.getTransferLength, Header.ntohs, Parser.getSCB, sampleRead]

theorem accepted_sampleRead (wc : WriteCache Unit LbaIndex.ofList) {lba length : UInt8}
    (hl : 0 < length.toNat) (hr : lba.toNat + length.toNat ≤ 16) :
    Accepted (sampleSession wc) (sampleRead lba length) sampleVolume wc := by
  have hsize : sampleVolume.getTotalSize = 16 := rfl
  have hlba := lbaOf_sampleRead lba length
  have hlen := lengthOf_sampleRead lba length
  have hlun : (Parser.mk (sampleRead lba length)).getLUN = 0 := by
    simp [Parser.getLUN, Header.host32, sampleRead]
  refine ⟨?_, ?_, by rw [hlun]; rfl, by rw [hlun]; rfl, by omega, by omega, by omega⟩
  · show (decide ((0xC0 : UInt8) &&& commandFlagRead ≠ 0) &&
      decide ((0xC0 : UInt8) &&& commandFlagWrite = 0) &&
      decide ((0x28 : UInt8) = read10 ∧ (0 : UInt8) &&& 0xE0 = 0 ∧
        decide ((0 : UInt8) &&& 0x10 ≠ 0) = false)) = true
    decide
  · show decide ((0xC0 : UInt8) &&& iscsiFlagFinal ≠ 0) = true
    decide

/-- One block is cached, and each PDU has room for all three. -/
theorem formatted_one_block : Formatted ⟨8192⟩
    (sampleSession (WriteCache.init.push (sampleSegment 2 1 0))) (sampleRead 0 3) := by
  refine (formatted_iff ⟨8192⟩ _ _ _ _ (accepted_sampleRead _ (by decide) (by decide))
    (by decide) ?_).mpr
    ⟨.inl (by decide), .inr ((allServed_last (by decide) (by decide)).mpr ⟨?_, ?_, ?_⟩)⟩
  · decide
  · decide
  · decide
  · simp

/-- With one block to a PDU, nothing is cached in the first one. -/
theorem not_formatted_one_block :
    let wc : WriteCache Unit LbaIndex.ofList := WriteCache.init.push (sampleSegment 2 1 0)
    Accepted (sampleSession wc) (sampleRead 0 3) sampleVolume wc ∧ Bounded wc ∧
      ¬ Formatted ⟨512⟩ (sampleSession wc) (sampleRead 0 3) := by
  have hw : Bounded (WriteCache.init.push (sampleSegment 2 1 0) : WriteCache Unit LbaIndex.ofList) := by
    decide
  refine ⟨accepted_sampleRead _ (by decide) (by decide), hw, fun hf => ?_⟩
  obtain ⟨-, hnil | hserved⟩ :=
    formatted_exact (accepted_sampleRead _ (by decide) (by decide)) (by decide) (by decide)
      (cached_search hw _ _) hf
  · exact absurd hnil (by decide)
  · exact ((allServed_succ (by decide)).mp hserved).1.some_hit (by decide)

end Sample

end Sstoraged.ReadFormat
