import Sstoraged.ReadPlan

namespace Sstoraged.ReadReply

open ReadHandler ReadTiling ReadPlan

variable {B : Type} {ix : LbaIndex}

/-- The Data-In header that a task of the queue sends. -/
def dataInHeader (s : Session B ix) (t : SendTask) : Option DataInHeader :=
  match t.cbufs with
  | [p] =>
    match s.headers p with
    | .dataIn h => some h
    | _ => none
  | _ => none

def finalFlags : UInt8 := iscsiFlagFinal ||| DataInGenerator.datainFlagStatus

/-- The headers of a reply from the given sequence number, offset and rest on. -/
def headersFrom (h : ReadHandler) (base : DataInHeader) : Nat → Nat → Nat → Nat → List DataInHeader
  | 0, _, _, _ => []
  | fuel + 1, datasn, offset, tl =>
    if tl ≤ h.transferMrds then
      [{ base with
        flags := base.flags ||| finalFlags, cmdStatus := good
        dlength := 512 * tl, datasn, offset }]
    else
      { base with dlength := h.byteMrds, datasn, offset } ::
        headersFrom h base fuel (datasn + 1) (offset + 512 * h.transferMrds) (tl - h.transferMrds)

/-- The generator before a PDU: its buffer is the newest one. -/
structure Ready (base : DataInHeader) (datasn offset : Nat) (reply : DataInGenerator)
    (s : Session B ix) : Prop where
  next : s.next = reply.cbuf + 1
  gen : reply.datasnGen = datasn + 1
  header : ∃ dlength, s.headers reply.cbuf = .dataIn { base with dlength, datasn, offset }

/-- A PDU whose header stands in the buffer `p` was queued. -/
structure Pushed (p : Nat) (hd : DataInHeader) (s s' : Session B ix) : Prop where
  sendtask : s'.sendtask = s.sendtask ++ [.send ⟨[p], (s'.bufs p).getRemain⟩]
  headers : s'.headers = Function.update s.headers p (.dataIn hd)
  next : s'.next = s.next
  bufs : ∀ q, q ≠ p → s'.bufs q = s.bufs q
  unpadded : hd.dlength % 4 = 0 → s'.bufs p = s.bufs p

def putHeader (s : Session B ix) (p : Nat) (hd : DataInHeader) : Session B ix :=
  { s with headers := Function.update s.headers p (.dataIn hd) }

theorem set_dataIn (g : DataInGenerator) {s : Session B ix} {hd : DataInHeader}
    (h : s.headers g.cbuf = .dataIn hd) (f : DataInHeader → DataInHeader) :
    g.set f s = putHeader s g.cbuf (f hd) := by
  simp only [DataInGenerator.set, h, putHeader]

theorem putHeader_putHeader (s : Session B ix) (p : Nat) (hd hd' : DataInHeader) :
    putHeader (putHeader s p hd) p hd' = putHeader s p hd' := by
  simp [putHeader]

theorem putHeader_self (s : Session B ix) (p : Nat) (hd : DataInHeader) :
    (putHeader s p hd).headers p = .dataIn hd := by
  simp [putHeader]

/-- Padding a buffer again changes nothing else, and nothing at all if its PDU
needs no padding. -/
theorem serialize_spec {g : DataInGenerator} {s : Session B ix} {hd : DataInHeader}
    (h : s.headers g.cbuf = .dataIn hd) :
    ∃ bufs, g.serialize s = { s with bufs } ∧ (∀ q, q ≠ g.cbuf → bufs q = s.bufs q) ∧
      (hd.dlength % 4 = 0 → bufs g.cbuf = s.bufs g.cbuf) := by
  have hl : g.getDlength s = hd.dlength := by
    simp [DataInGenerator.getDlength, h]
  unfold DataInGenerator.serialize padWordLen
  rw [hl]
  split
  · rename_i hp
    exact ⟨_, rfl, fun q hq => by simp [hq], fun hz => absurd hz hp⟩
  · exact ⟨s.bufs, rfl, fun _ _ => rfl, fun _ => rfl⟩

theorem serialize_pushed (g : DataInGenerator) (s : Session B ix) (hd : DataInHeader) :
    Pushed g.cbuf hd s ((g.serialize (putHeader s g.cbuf hd)).pushSend g.cbuf) := by
  obtain ⟨bufs, hb, hne, hpad⟩ := serialize_spec (putHeader_self s g.cbuf hd)
  rw [hb]
  exact ⟨rfl, rfl, rfl, hne, hpad⟩

theorem pushHeader_more {h : ReadHandler} (hb : h.byteMrds < 2 ^ 24) {base : DataInHeader}
    {d o tl : Nat} {reply : DataInGenerator} {s : Session B ix} (hs : Ready base d o reply s)
    (htl : h.transferMrds < tl) :
    ∃ s', h.pushHeader reply tl s = (h.transferMrds, false, s') ∧
      Pushed reply.cbuf { base with dlength := h.byteMrds, datasn := d, offset := o } s s' := by
  obtain ⟨dl, hd⟩ := hs.header
  refine ⟨_, ?_, serialize_pushed reply s _⟩
  simp only [pushHeader, if_pos htl, DataInGenerator.setDlength, set_dataIn _ hd, Nat.mod_eq_of_lt hb]

theorem pushHeader_last {h : ReadHandler} {base : DataInHeader} {d o tl : Nat}
    {reply : DataInGenerator} {s : Session B ix} (hs : Ready base d o reply s)
    (htl : tl ≤ h.transferMrds) (hlt : 512 * tl < 2 ^ 24) :
    ∃ s', h.pushHeader reply tl s = (tl, true, s') ∧
      Pushed reply.cbuf { base with
        flags := base.flags ||| finalFlags, cmdStatus := good
        dlength := 512 * tl, datasn := d, offset := o } s s' := by
  obtain ⟨dl, hd⟩ := hs.header
  refine ⟨_, ?_, serialize_pushed reply s _⟩
  simp only [pushHeader, if_neg (Nat.not_lt.mpr htl), DataInGenerator.setCmdStatus, set_dataIn _ hd,
    DataInGenerator.setDlength, set_dataIn _ (putHeader_self _ _ _), putHeader_putHeader,
    lba2Offset_eq, Nat.mod_eq_of_lt hlt, finalFlags]

/-- The generator and the session after the header of the next PDU is made. -/
def nextHeader (reply : DataInGenerator) (length : Nat) (s : Session B ix) :
    DataInGenerator × Session B ix :=
  let (reply, s) := reply.replica s
  let (reply, s) := reply.advanceDataSN s
  (reply, reply.addOffset (lba2Offset length) s)

theorem nextHeader_spec {base : DataInHeader} {d o length : Nat} {reply : DataInGenerator}
    {s : Session B ix} (hn : s.next = reply.cbuf + 1) (hg : reply.datasnGen = d + 1)
    {dlength : Nat} (hh : s.headers reply.cbuf = .dataIn { base with dlength, datasn := d, offset := o })
    (hd : d + 1 < 2 ^ 32 - 1) (ho : o + 512 * length < 2 ^ 32) :
    ∃ reply' s', nextHeader reply length s = (reply', s') ∧ reply'.cbuf = reply.cbuf + 1 ∧
      Ready base (d + 1) (o + 512 * length) reply' s' ∧ s'.sendtask = s.sendtask ∧
      (∀ q, q ≤ reply.cbuf → s'.headers q = s.headers q) ∧
      (∀ q, q < reply.cbuf → s'.bufs q = s.bufs q) ∧
      (dlength % 4 = 0 → s.bufs reply.cbuf = ⟨0, 48⟩ →
        s'.bufs reply.cbuf = ⟨0, 48⟩ ∧ s'.bufs reply'.cbuf = ⟨0, 48⟩) := by
  obtain ⟨bufs, hb, hne, hpad⟩ := serialize_spec hh
  have hadv : advanceSn (d + 1) = d + 2 := by
    unfold advanceSn
    rw [if_neg (by omega)]
  have hoff : u32 ((o : Int) + ((512 * length : Nat) : Int)) = o + 512 * length := by
    unfold u32
    omega
  let s₁ : Session B ix := { s with bufs }
  let b := CommonBuf.new.stepForwardTail (bufs reply.cbuf).getRemain
  let s₂ := s₁.alloc b (s.headers reply.cbuf)
  have hrep : reply.replica s = (⟨reply.cbuf + 1, d + 1⟩, s₂) := by
    simp only [DataInGenerator.replica, hb, hg, hn, s₁, s₂, b]
  have hs₂ : s₂.headers (reply.cbuf + 1) = .dataIn { base with dlength, datasn := d, offset := o } := by
    simp [s₂, Session.alloc, s₁, hn, hh]
  let s₃ := putHeader s₂ (reply.cbuf + 1)
    { base with dlength, datasn := d + 1, offset := o + 512 * length }
  have hnx : nextHeader reply length s = (⟨reply.cbuf + 1, d + 2⟩, s₃) := by
    simp only [nextHeader, hrep, DataInGenerator.advanceDataSN, hadv, DataInGenerator.addOffset,
      set_dataIn ⟨reply.cbuf + 1, d + 1⟩ hs₂, set_dataIn ⟨reply.cbuf + 1, d + 2⟩ (putHeader_self _ _ _),
      putHeader_putHeader, lba2Offset_eq, hoff, s₃]
  refine ⟨_, s₃, hnx, rfl, ⟨?_, rfl, dlength, ?_⟩, rfl, fun q hq => ?_, fun q hq => ?_, fun hz hp => ?_⟩
  · simp [s₃, putHeader, s₂, Session.alloc, s₁, hn]
  · exact putHeader_self _ _ _
  · have hq' : q ≠ reply.cbuf + 1 := by omega
    simp [s₃, putHeader, s₂, Session.alloc, s₁, hn, hq']
  · have hq' : q ≠ reply.cbuf + 1 := by omega
    have hq'' : q ≠ reply.cbuf := by omega
    simpa [s₃, putHeader, s₂, Session.alloc, s₁, hn, hq'] using hne q hq''
  · have hbp : bufs reply.cbuf = ⟨0, 48⟩ := by rw [hpad hz, hp]
    refine ⟨?_, ?_⟩
    · simpa [s₃, putHeader, s₂, Session.alloc, s₁, hn] using hbp
    · simp [s₃, putHeader, s₂, Session.alloc, s₁, hn, b, hbp]
      decide

theorem dataInLoop_succ (h : ReadHandler) (data : Nat → Nat → Option (List (Task B) × Nat))
    (fuel : Nat) (reply : DataInGenerator) (lba tl : Nat) (s : Session B ix) {length : Nat}
    {last : Bool} {s₁ : Session B ix} (hp : h.pushHeader reply tl s = (length, last, s₁)) :
    h.dataInLoop data (fuel + 1) reply lba tl s =
      match data lba length with
      | none => some (false, s₁)
      | some (tasks, lba) =>
        let s := { s₁ with sendtask := s₁.sendtask ++ tasks }
        if last then some (true, s)
        else h.dataInLoop data fuel (nextHeader reply length s).1 lba (tl - length)
          (nextHeader reply length s).2 := by
  cases hd : data lba length <;> simp [dataInLoop, hp, hd, nextHeader]

/-- What the loop over the PDUs queues: the data tasks of the plan, each PDU
under its header. -/
structure Replied (h : ReadHandler) (base : DataInHeader) (fuel d o tl p : Nat)
    (dss : List (List (Task B))) (s s' : Session B ix) (body : List (Task B))
    (pdus : List (SendTask × List (Task B))) : Prop where
  sendtask : s'.sendtask = s.sendtask ++ body
  group : group body = ([], pdus)
  data : pdus.map Prod.snd = dss
  headers : pdus.map (fun q => dataInHeader s' q.1) =
    ((headersFrom h base fuel d o tl).take pdus.length).map some
  frame : ∀ q, q < p → s'.headers q = s.headers q ∧ s'.bufs q = s.bufs q
  size : (tl ≤ h.transferMrds ∨ h.byteMrds % 4 = 0) → s.bufs p = ⟨0, 48⟩ →
    ∀ q ∈ pdus, q.1.totalRemain = 48 ∧ q.1.offered s'.bufs = 48

theorem dataInLoop_replied {h : ReadHandler} (hb : h.byteMrds < 2 ^ 24) {base : DataInHeader}
    (hm : 0 < h.transferMrds) {data : Nat → Nat → Option (List (Task B) × Nat)}
    (hdata : ∀ a len ts b, data a len = some (ts, b) → ∀ t ∈ ts, ∀ u, t ≠ .send u)
    (fuel lba : Nat) {reply : DataInGenerator} {tl d o : Nat} {s : Session B ix}
    (htl : 0 < tl) (hf : tl ≤ fuel) (hs : Ready base d o reply s) (hd : d + tl < 2 ^ 32 - 1)
    (ho : o + 512 * tl < 2 ^ 32) :
    ∃ s' body pdus, h.dataInLoop data fuel reply lba tl s =
        some ((plan h.transferMrds data fuel lba tl).1, s') ∧
      Replied h base fuel d o tl reply.cbuf (plan h.transferMrds data fuel lba tl).2 s s' body pdus := by
  have hbm : h.transferMrds = h.byteMrds / 512 := offset2Lba_eq _
  induction fuel generalizing reply lba tl d o s with
  | zero => omega
  | succ fuel ih =>
    by_cases hlast : tl ≤ h.transferMrds
    · have hmin : min tl h.transferMrds = tl := by omega
      obtain ⟨s₁, hp, hpushed⟩ := pushHeader_last hs hlast (by omega)
      have hsize : s.bufs reply.cbuf = ⟨0, 48⟩ → (s₁.bufs reply.cbuf).getRemain = 48 := fun hz => by
        rw [hpushed.unpadded (by simp only; omega), hz]
        rfl
      rw [dataInLoop_succ h data fuel reply lba tl s hp]
      simp only [plan, hmin, if_pos hlast]
      cases hdt : data lba tl with
      | none =>
        refine ⟨s₁, _, [(⟨[reply.cbuf], (s₁.bufs reply.cbuf).getRemain⟩, [])], rfl,
          ⟨hpushed.sendtask, rfl, rfl, ?_, fun q hq => ?_, fun _ hz q hq => ?_⟩⟩
        · simp [headersFrom, hlast, dataInHeader, hpushed.headers]
        · exact ⟨by simp [hpushed.headers, hq.ne], hpushed.bufs q hq.ne⟩
        · rw [List.mem_singleton.mp hq]
          simp [SendTask.offered, hsize hz]
      | some r =>
        obtain ⟨ts, lba'⟩ := r
        have hg : group ((Task.send ⟨[reply.cbuf], (s₁.bufs reply.cbuf).getRemain⟩) :: ts) =
            ([], [(⟨[reply.cbuf], (s₁.bufs reply.cbuf).getRemain⟩, ts)]) := by
          have ht := group_data ts [] (hdata _ _ _ _ hdt)
          rw [List.append_nil] at ht
          simp [group, ht]
        refine ⟨{ s₁ with sendtask := s₁.sendtask ++ ts }, _, _, rfl,
          ⟨?_, hg, rfl, ?_, fun q hq => ?_, fun _ hz q hq => ?_⟩⟩
        · simp [hpushed.sendtask]
        · simp [headersFrom, hlast, dataInHeader, hpushed.headers]
        · exact ⟨by simp [hpushed.headers, hq.ne], hpushed.bufs q hq.ne⟩
        · rw [List.mem_singleton.mp hq]
          simp [SendTask.offered, hsize hz]
    · have hmin : min tl h.transferMrds = h.transferMrds := by omega
      obtain ⟨s₁, hp, hpushed⟩ := pushHeader_more hb hs (show h.transferMrds < tl by omega)
      have hsize : h.byteMrds % 4 = 0 → s.bufs reply.cbuf = ⟨0, 48⟩ → s₁.bufs reply.cbuf = ⟨0, 48⟩ :=
        fun h4 hz => by rw [hpushed.unpadded h4, hz]
      rw [dataInLoop_succ h data fuel reply lba tl s hp]
      simp only [plan, hmin, if_neg hlast]
      cases hdt : data lba h.transferMrds with
      | none =>
        refine ⟨s₁, _, [(⟨[reply.cbuf], (s₁.bufs reply.cbuf).getRemain⟩, [])], rfl,
          ⟨hpushed.sendtask, rfl, rfl, ?_, fun q hq => ?_, fun h4 hz q hq => ?_⟩⟩
        · simp [headersFrom, hlast, dataInHeader, hpushed.headers]
        · exact ⟨by simp [hpushed.headers, hq.ne], hpushed.bufs q hq.ne⟩
        · rw [List.mem_singleton.mp hq]
          simp [SendTask.offered, hsize (h4.resolve_left hlast) hz, CommonBuf.getRemain]
      | some r =>
        obtain ⟨ts, lba'⟩ := r
        let s₂ : Session B ix := { s₁ with sendtask := s₁.sendtask ++ ts }
        have hh₂ : s₂.headers reply.cbuf =
            .dataIn { base with dlength := h.byteMrds, datasn := d, offset := o } := by
          simp [s₂, hpushed.headers]
        have hn₂ : s₂.next = reply.cbuf + 1 := by
          rw [← hs.next]
          exact hpushed.next
        obtain ⟨reply', s₃, hnx, hp', hready, hst, hhd, hbf, hpad⟩ :=
          nextHeader_spec hn₂ hs.gen hh₂ (by omega) (show o + 512 * h.transferMrds < 2 ^ 32 by omega)
        obtain ⟨s', body, pdus, hloop, hr⟩ := @ih lba' reply' (tl - h.transferMrds) _ _ s₃
          (by omega) (by omega) hready (by omega) (by omega)
        have hg : group ((Task.send ⟨[reply.cbuf], (s₁.bufs reply.cbuf).getRemain⟩) :: (ts ++ body)) =
            ([], (⟨[reply.cbuf], (s₁.bufs reply.cbuf).getRemain⟩, ts) :: pdus) := by
          have ht := group_data ts body (hdata _ _ _ _ hdt)
          rw [hr.group, List.append_nil] at ht
          simp [group, ht]
        simp only [Bool.false_eq_true, if_false]
        rw [show nextHeader reply h.transferMrds { s₁ with sendtask := s₁.sendtask ++ ts } =
          (reply', s₃) from hnx]
        have hframe : ∀ q, q ≤ reply.cbuf → s'.headers q = s₁.headers q := fun q hq => by
          rw [(hr.frame q (by omega)).1, hhd q hq]
        refine ⟨s', _, _, hloop, ⟨?_, hg, ?_, ?_, fun q hq => ?_, fun h4 hz q hq => ?_⟩⟩
        · rw [hr.sendtask, hst]
          simp [s₂, hpushed.sendtask]
        · simp [hr.data]
        · simp only [List.map_cons, hr.headers, List.length_cons, headersFrom, if_neg hlast,
            List.take_succ_cons, List.cons.injEq, and_true]
          simp [dataInHeader, hframe _ (Nat.le_refl _), hpushed.headers]
        · refine ⟨?_, ?_⟩
          · rw [hframe q (by omega), hpushed.headers, Function.update_of_ne hq.ne]
          · rw [(hr.frame q (by omega)).2, hbf q hq]
            exact hpushed.bufs q hq.ne
        · have h4' := h4.resolve_left hlast
          obtain ⟨hold, hnew⟩ := hpad h4' (hsize h4' hz)
          rcases List.mem_cons.mp hq with rfl | hq
          · have hb' : s'.bufs reply.cbuf = ⟨0, 48⟩ := by
              rw [(hr.frame _ (by omega)).2, hold]
            simp [SendTask.offered, hb', hsize h4' hz, CommonBuf.getRemain]
          · exact hr.size (.inr h4') hnew q hq

end Sstoraged.ReadReply
