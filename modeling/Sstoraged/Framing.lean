import Sstoraged.Receiver

namespace Sstoraged.Framing

open IovecContainer TokenStream TokenData TokenWindow TokenRuns Receiver Runs

/-- The length of a PDU by the protocol: the header, additional header segments
counted in words of four bytes, and the data padded to whole words. -/
def rfcLength (hdr : Header) : Nat :=
  let d := (Parser.mk hdr).getDlength
  sizeofHeader + 4 * (Parser.mk hdr).getHlength + d + (padWordLen - d % padWordLen) % padWordLen

def rfcStart (hdrs : List Header) (k : Nat) : Nat := ((hdrs.take k).map rfcLength).sum

def rfcTotal (hdrs : List Header) : Nat := (hdrs.map rfcLength).sum

/-- The stream is a sequence of PDUs with these headers, and any bytes in their
additional header segments, data and padding. -/
def Carries (hdrs : List Header) (stream : Nat → UInt8) : Prop :=
  ∀ j hdr, hdrs[j]? = some hdr → ∀ i, i < sizeofHeader → stream (rfcStart hdrs j + i) = hdr i

/-- The place of a cell in the chain of buffers. -/
def position (b i : Nat) : Nat := commonBufSize * b + i

/-- A token is the PDU at `start`, and the segment made from it is its data. -/
structure IsPdu (stream : Nat → UInt8) (mem : Nat → Nat → UInt8) (hdr : Header) (start : Nat)
    (t : ISCSIToken) : Prop where
  header : position t.cbuf t.offset = start ∧ ∀ i, i < sizeofHeader →
    headerAt mem t.cbuf t.offset i = hdr i
  cbufs : t.cbufs = List.range' (start / commonBufSize)
    ((start + rfcLength hdr - 1) / commonBufSize - start / commonBufSize + 1)
  data : ∀ lba transferLength, 0 < transferLength → (Parser.mk hdr).getDlength = 512 * transferLength →
    ∃ ws, (t.view mem).frontDataSegment lba transferLength = some ws ∧
      dataSegment position ws = List.range' (start + sizeofHeader + 4 * (Parser.mk hdr).getHlength)
        (512 * transferLength) ∧
      dataSegment mem ws = (List.range' (start + sizeofHeader + 4 * (Parser.mk hdr).getHlength)
        (512 * transferLength)).map stream

/-- The tokens are the first `k` PDUs, which are the ones received in full, and
the tokenizer waits for the bytes behind them. -/
structure Framed (hdrs : List Header) (stream : Nat → UInt8) (r : Receiver) (k : Nat) : Prop where
  le : k ≤ hdrs.length
  whole : rfcStart hdrs k ≤ r.read
  rest : k < hdrs.length → r.read < rfcStart hdrs (k + 1)
  length : r.tok.bhss.length = k
  offset : r.tok.offset = r.read - rfcStart hdrs k
  tokens : ∀ j hdr t, hdrs[j]? = some hdr → r.tok.bhss[j]? = some t →
    IsPdu stream r.buf.mem hdr (rfcStart hdrs j) t

/-- The headers that both computations get right: without additional header
segments, or with one word of them and data that is not for the disk and not padded. -/
def Good (hdr : Header) : Prop :=
  (Parser.mk hdr).getHlength = 0 ∨ (Parser.mk hdr).getHlength = 1 ∧
    (Parser.mk hdr).getDlength % padWordLen = 0 ∧
    ¬ (0 < (Parser.mk hdr).getDlength ∧ (Parser.mk hdr).getDlength % 512 = 0)

variable {hdrs : List Header} {stream : Nat → UInt8}

theorem getPDUlength_le (hdr : Header) : (Parser.mk hdr).getPDUlength ≤ rfcLength hdr := by
  rw [Parser.getPDUlength, rfcLength]
  split <;> simp only [sizeofHeader, padWordLen] at * <;> omega

theorem getPDUlength_eq_iff (hdr : Header) : (Parser.mk hdr).getPDUlength = rfcLength hdr ↔
    (Parser.mk hdr).getHlength = 0 ∨
      (Parser.mk hdr).getHlength = 1 ∧ (Parser.mk hdr).getDlength % padWordLen = 0 := by
  rw [Parser.getPDUlength, rfcLength]
  split <;> simp only [sizeofHeader, padWordLen] at * <;> omega

theorem rfcStart_succ {j : Nat} {hdr : Header} (h : hdrs[j]? = some hdr) :
    rfcStart hdrs (j + 1) = rfcStart hdrs j + rfcLength hdr := by
  rw [rfcStart, rfcStart, List.take_add_one, h, List.map_append, List.sum_append]
  simp

theorem rfcStart_mono {j k : Nat} (h : j ≤ k) : rfcStart hdrs j ≤ rfcStart hdrs k := by
  induction h with
  | refl => exact Nat.le_refl _
  | @step m _ ih =>
    apply Nat.le_trans ih
    cases hm : hdrs[m]? with
    | none =>
      rw [List.getElem?_eq_none_iff] at hm
      rw [rfcStart, rfcStart, List.take_of_length_le hm, List.take_of_length_le (Nat.le_succ_of_le hm)]
    | some hdr =>
      rw [rfcStart_succ hm]
      exact Nat.le_add_right _ _

theorem rfcStart_length : rfcStart hdrs hdrs.length = rfcTotal hdrs := by
  rw [rfcStart, List.take_length, rfcTotal]

theorem Carries.header {j : Nat} {hdr : Header} (hc : Carries hdrs stream) (h : hdrs[j]? = some hdr)
    (hpos : pduStart stream j = rfcStart hdrs j) :
    ∀ i, i < sizeofHeader → headerOf stream (pduStart stream j) i = hdr i := by
  intro i hi
  rw [headerOf, hpos]
  exact hc j hdr h i hi

theorem Carries.pduStart_succ {j : Nat} {hdr : Header} (hc : Carries hdrs stream)
    (h : hdrs[j]? = some hdr)
    (hpos : pduStart stream j = rfcStart hdrs j) :
    pduStart stream (j + 1) = rfcStart hdrs j + (Parser.mk hdr).getPDUlength := by
  rw [TokenStream.pduStart_succ, pduLength, getPDUlength_congr (hc.header h hpos), hpos]

theorem position_layout (read : Nat) : Layout id position read := fun _ _ _ _ => rfl

theorem dataSegment_position {k lba tl : Nat} {ws : WriteSegment Nat}
    (h : (wireToken stream k).frontDataSegment lba tl = some ws) :
    dataSegment position ws =
      List.range' (dataStart stream k) (Parser.mk (wireToken stream k).bhs).getDlength := by
  by_cases hin : Inside (wireToken stream k)
  · rw [dataSegment_stream (position_layout (pduStart stream (k + 1))) (Nat.le_refl _) hin h,
      List.map_id]
  · obtain ⟨hedge, hlen⟩ := not_or.mp hin
    have hmod : (wireToken stream k).offset < commonBufSize := Nat.mod_lt _ (by decide)
    have hplace : commonBufSize * (pduStart stream k / commonBufSize) + (wireToken stream k).offset =
        pduStart stream k := Nat.div_add_mod _ _
    have hh := Parser.getHlength_lt ⟨(wireToken stream k).bhs⟩
    have hd := Parser.getDlength_lt ⟨(wireToken stream k).bhs⟩
    obtain ⟨tail, hcbufs⟩ : ∃ tail, (wireToken stream k).cbufs =
      pduStart stream k / commonBufSize :: tail :=
      ⟨_, List.range'_succ⟩
    rw [Token.frontDataSegment] at h
    split at h
    · cases h
    rename_i hds
    have hds' : (Parser.mk (wireToken stream k).bhs).getDataSegmentOffset =
        sizeofHeader + (Parser.mk (wireToken stream k).bhs).getHlength := by
      rw [Parser.getDataSegmentOffset] at hds ⊢
      split
      · rename_i hz
        exact absurd (if_pos hz) hds
      · rfl
    rw [hds', hcbufs] at h
    obtain ⟨-, -, htl⟩ := Token.storeDataSegment_some h
    rw [dataStart, if_neg hedge]
    obtain ⟨d, hdef⟩ : ∃ d, d = (Parser.mk (wireToken stream k).bhs).getDlength := ⟨_, rfl⟩
    obtain ⟨ds, hdsdef⟩ : ∃ ds, ds = sizeofHeader + (Parser.mk (wireToken stream k).bhs).getHlength +
      (wireToken stream k).offset := ⟨_, rfl⟩
    rw [← hdef] at h hd htl ⊢
    rw [← hdsdef] at h
    have hmin : min d (u64 (commonBufSize - ds)) = d := by
      rw [TokenCursors.commonBufSize_eq, sizeofHeader, u64] at *
      omega
    have hset : (WriteSegment.new lba tl).set1stDataSegment (pduStart stream k / commonBufSize) d ds =
        some (Token.segment lba tl [pduStart stream k / commonBufSize] ds d) := by
      simp [WriteSegment.set1stDataSegment, WriteSegment.new, Token.segment, htl]
    rw [Token.storeDataSegment] at h
    rw [hmin, hset, Option.bind_some, Nat.sub_self] at h
    have hws : ws = Token.segment lba tl [pduStart stream k / commonBufSize] ds d := by
      cases tail <;> exact (Option.some.inj h).symm
    have hstart : pduStart stream k + sizeofHeader + (Parser.mk (wireToken stream k).bhs).getHlength =
        commonBufSize * (pduStart stream k / commonBufSize) + ds := by omega
    rw [hws, dataSegment]
    change BufferChain.cells position _ ds (min d (u64 (commonBufSize - ds))) ++
      List.take (d - min d (u64 (commonBufSize - ds))) [] = _
    rw [hmin, List.take_nil, List.append_nil, hstart]
    exact List.map_add_range' _ _ _

theorem pduStart_eq {k read : Nat} (hc : Carries hdrs stream) (hread : read ≤ rfcTotal hdrs)
    (hgood : ∀ j hdr, hdrs[j]? = some hdr → rfcStart hdrs j + (Parser.mk hdr).getPDUlength ≤ read →
      (Parser.mk hdr).getPDUlength = rfcLength hdr)
    (hk : pduStart stream k ≤ read) : k ≤ hdrs.length ∧ pduStart stream k = rfcStart hdrs k := by
  induction k with
  | zero => exact ⟨Nat.zero_le _, rfl⟩
  | succ k ih =>
    have hlt := @pduStart_lt stream k
    rw [sizeofHeader] at hlt
    obtain ⟨hle, hpos⟩ := ih (by omega)
    cases hhdr : hdrs[k]? with
    | none =>
      rw [List.getElem?_eq_none_iff] at hhdr
      obtain rfl : k = hdrs.length := Nat.le_antisymm hle hhdr
      rw [rfcStart_length] at hpos
      omega
    | some hdr =>
      have hsucc := hc.pduStart_succ hhdr hpos
      refine ⟨Nat.succ_le_of_lt (List.getElem?_eq_some_iff.mp hhdr).1, ?_⟩
      rw [hsucc, rfcStart_succ hhdr, hgood k hdr hhdr (by omega)]

theorem wire_whole {j : Nat} (hh : (Parser.mk (wireToken stream j).bhs).getHlength = 0) :
    (wireToken stream j).Whole := by
  obtain ⟨pos, hpos⟩ : ∃ pos, pos = pduStart stream j := ⟨_, rfl⟩
  obtain ⟨len, hlen⟩ : ∃ len, len = pduLength stream pos := ⟨_, rfl⟩
  have hcbufs : (wireToken stream j).cbufs = List.range' (pos / commonBufSize)
      ((pos + len - 1) / commonBufSize - pos / commonBufSize + 1) := by rw [hlen, hpos]; rfl
  have hoff : (wireToken stream j).offset = pos % commonBufSize := by rw [hpos]; rfl
  have hge : sizeofHeader + (Parser.mk (wireToken stream j).bhs).getDlength ≤ len := by
    have hl : len = (Parser.mk (wireToken stream j).bhs).getPDUlength := by
      rw [hlen, hpos]
      exact (getPDUlength_congr (onWire_header j)).symm
    rw [hl, Parser.getPDUlength, hh]
    split <;> omega
  refine ⟨hh, Nat.mod_lt _ (by decide), ?_⟩
  rw [hcbufs, hoff, List.range'_succ, BufferChain.capacity, BufferChain.capacity_zero,
    List.length_range']
  rw [TokenCursors.commonBufSize_eq, sizeofHeader] at *
  omega

theorem isPdu_of_good {read j : Nat} {hdr : Header} {mem : Nat → Nat → UInt8} (hc : Carries hdrs stream)
    (hhdr : hdrs[j]? = some hdr) (hpos : pduStart stream j = rfcStart hdrs j) (hgood : Good hdr)
    (hlen : (Parser.mk hdr).getPDUlength = rfcLength hdr) (hl : Layout stream mem read)
    (hread : pduStart stream (j + 1) ≤ read) (hm : HeaderAt stream mem (pduStart stream j)) :
    IsPdu stream mem hdr (rfcStart hdrs j) (tokenAt stream j) := by
  have hheader := hc.header hhdr hpos
  have hwire : ∀ i, i < sizeofHeader → (wireToken stream j).bhs i = hdr i := fun i hi =>
    (onWire_header j i hi).trans (hheader i hi)
  refine ⟨⟨?_, fun i hi => (hm i hi).trans (hheader i hi)⟩, ?_, fun lba tl htl hd => ?_⟩
  · rw [← hpos]
    exact Nat.div_add_mod _ _
  · have hsucc := hc.pduStart_succ hhdr hpos
    have hplen : pduLength stream (pduStart stream j) = rfcLength hdr := by
      rw [← hlen]
      exact getPDUlength_congr hheader
    rw [← hpos, ← hplen]
    rfl
  · have hh : (Parser.mk hdr).getHlength = 0 := by
      rcases hgood with hh | ⟨-, -, hn⟩
      · exact hh
      · exact absurd (by omega) hn
    have hd' := getDlength_congr hwire
    have hh' := getHlength_congr hwire
    have hinside : Inside (wireToken stream j) := by
      by_cases he : (wireToken stream j).isEdge = true
      · exact .inl he
      · rw [Token.isEdge, decide_eq_true_eq] at he
        rw [sizeofHeader] at he
        right
        rw [hh', hh, sizeofHeader]
        omega
    have hstart : dataStart stream j = rfcStart hdrs j + sizeofHeader +
        4 * (Parser.mk hdr).getHlength := by
      rw [dataStart, hh', hh, hpos]
      split <;> rfl
    have hview : ∀ i, i < sizeofHeader → ((tokenAt stream j).view mem).bhs i =
      (wireToken stream j).bhs i :=
      fun i hi => (hm i hi).trans (onWire_header j i hi).symm
    have hfront : ((tokenAt stream j).view mem).frontDataSegment lba tl =
        (wireToken stream j).frontDataSegment lba tl := frontDataSegment_congr hview rfl rfl lba tl
    obtain ⟨cbufs, ds, hsome, -⟩ := Token.frontDataSegment_whole (wire_whole (hh'.trans hh))
      (by rw [hd', hd]; omega) lba tl (by rw [hd', hd])
    refine ⟨_, hfront.trans hsome, ?_, ?_⟩
    · rw [dataSegment_position hsome, hstart, hd', hd]
    · rw [dataSegment_stream hl hread hinside hsome, hstart, hd', hd]

/-- A read of bytes of the PDUs into the free space of the chain of buffers. -/
structure PlacedRead (hdrs : List Header) (r : Receiver) (n : Nat) : Prop where
  placed : TokenWindow.Placed r.buf.vec r.read n
  room : r.read + n ≤ commonBufSize * r.buf.next
  le : r.read + n ≤ rfcTotal hdrs

theorem range'_inj {a b n : Nat} (hn : 0 < n) (h : List.range' a n = List.range' b n) : a = b := by
  obtain ⟨m, rfl⟩ : ∃ m, n = m + 1 := ⟨n - 1, by omega⟩
  rw [List.range'_succ, List.range'_succ] at h
  exact (List.cons.inj h).1

theorem getElem?_bhss {k j : Nat} {r : Receiver} (h : Tokenized stream r k) (hj : j < k) :
    r.tok.bhss[j]? = some (tokenAt stream j) := by
  rw [h.bhss, List.getElem?_map, List.getElem?_range' hj, Option.map_some]
  congr 2
  omega

theorem Framed.pduStart_eq {k j : Nat} {r : Receiver} (h : Framed hdrs stream r k)
    (ht : Tokenized stream r k) (hj : j ≤ k) : pduStart stream j = rfcStart hdrs j := by
  rcases Nat.eq_or_lt_of_le hj with rfl | hlt
  · have hoff := h.offset
    have hoff' := ht.pending.offset
    have hle := h.whole
    have hle' := ht.held.received.cursors.done_le
    omega
  · obtain ⟨hdr, hhdr⟩ : ∃ hdr, hdrs[j]? = some hdr :=
      ⟨_, List.getElem?_eq_getElem (Nat.lt_of_lt_of_le hlt h.le)⟩
    have hpos := (h.tokens j hdr _ hhdr (getElem?_bhss ht hlt)).header.1
    rw [← hpos]
    exact (Nat.div_add_mod _ _).symm

theorem Framed.good {k j : Nat} {r : Receiver} {hdr : Header} (hc : Carries hdrs stream)
    (h : Framed hdrs stream r k) (ht : Tokenized stream r k) (hhdr : hdrs[j]? = some hdr)
    (hread : rfcStart hdrs j + (Parser.mk hdr).getPDUlength ≤ r.read) : Good hdr := by
  have hjk : j < k := by
    apply Nat.lt_of_not_le
    intro hkj
    rcases Nat.eq_or_lt_of_le hkj with rfl | hlt
    · have hsucc := hc.pduStart_succ hhdr (h.pduStart_eq ht (Nat.le_refl k))
      have hrest := ht.held.rest
      omega
    · have hmono := @rfcStart_mono hdrs _ _ (Nat.succ_le_of_lt hlt)
      have hj := (List.getElem?_eq_some_iff.mp hhdr).1
      have hrest := h.rest (by omega)
      have hmono' : rfcStart hdrs (k + 1) ≤ rfcStart hdrs j := hmono
      omega
  have hpos := h.pduStart_eq ht (Nat.le_of_lt hjk)
  have hsucc := hc.pduStart_succ hhdr hpos
  rw [h.pduStart_eq ht (Nat.succ_le_of_lt hjk), rfcStart_succ hhdr, Nat.add_right_inj] at hsucc
  rcases (getPDUlength_eq_iff hdr).mp hsucc.symm with hh | ⟨hh, hd⟩
  · exact .inl hh
  · refine .inr ⟨hh, hd, fun ⟨hpos', h512⟩ => ?_⟩
    have htoken := getElem?_bhss ht hjk
    obtain ⟨ws, hfront, hcells, -⟩ := (h.tokens j hdr _ hhdr htoken).data 0
      ((Parser.mk hdr).getDlength / 512) (by omega) (by omega)
    have hheader := hc.header hhdr hpos
    have hwire : ∀ i, i < sizeofHeader → (wireToken stream j).bhs i = hdr i := fun i hi =>
      (onWire_header j i hi).trans (hheader i hi)
    have hview : ∀ i, i < sizeofHeader →
        ((tokenAt stream j).view r.buf.mem).bhs i = (wireToken stream j).bhs i :=
      fun i hi => (ht.held.headers j hjk i hi).trans (onWire_header j i hi).symm
    have hcongr : ((tokenAt stream j).view r.buf.mem).frontDataSegment 0
      ((Parser.mk hdr).getDlength / 512) =
        (wireToken stream j).frontDataSegment 0 ((Parser.mk hdr).getDlength / 512) :=
      frontDataSegment_congr hview rfl rfl _ _
    have hlen : 512 * ((Parser.mk hdr).getDlength / 512) = (Parser.mk hdr).getDlength := by omega
    rw [hcongr] at hfront
    rw [dataSegment_position hfront, hlen, getDlength_congr hwire] at hcells
    have hstart := range'_inj hpos' hcells
    rw [dataStart, getHlength_congr hwire, hpos] at hstart
    split at hstart <;> omega

theorem framed_of_good {k : Nat} {r : Receiver} (hc : Carries hdrs stream) (ht : Tokenized stream r k)
    (hread : r.read ≤ rfcTotal hdrs)
    (hgood : ∀ j hdr, hdrs[j]? = some hdr → rfcStart hdrs j + (Parser.mk hdr).getPDUlength ≤ r.read →
      Good hdr) : Framed hdrs stream r k := by
  have hlen : ∀ j hdr, hdrs[j]? = some hdr → rfcStart hdrs j + (Parser.mk hdr).getPDUlength ≤ r.read →
      (Parser.mk hdr).getPDUlength = rfcLength hdr := by
    intro j hdr hhdr hle
    rw [getPDUlength_eq_iff]
    rcases hgood j hdr hhdr hle with hh | ⟨hh, hd, -⟩
    · exact .inl hh
    · exact .inr ⟨hh, hd⟩
  have hdone := ht.held.received.cursors.done_le
  obtain ⟨hk, hpos⟩ := pduStart_eq hc hread hlen hdone
  refine ⟨hk, hpos ▸ hdone, fun hlt => ?_, ?_, hpos ▸ ht.pending.offset, fun j hdr t hhdr htj => ?_⟩
  · obtain ⟨hdr, hhdr⟩ : ∃ hdr, hdrs[k]? = some hdr := ⟨_, List.getElem?_eq_getElem hlt⟩
    have hrest := ht.held.rest
    have hle := getPDUlength_le hdr
    rw [hc.pduStart_succ hhdr hpos] at hrest
    rw [rfcStart_succ hhdr]
    omega
  · rw [ht.bhss, List.length_map, List.length_range']
  · have hjk : j < k := by
      have hl := (List.getElem?_eq_some_iff.mp htj).1
      rwa [ht.bhss, List.length_map, List.length_range'] at hl
    have hle : pduStart stream (j + 1) ≤ r.read :=
      Nat.le_trans (pduStart_mono (Nat.succ_le_of_lt hjk)) hdone
    obtain ⟨-, hposj⟩ := pduStart_eq hc hread hlen
      (Nat.le_trans (pduStart_mono (Nat.le_of_lt hjk)) hdone)
    have hcode : rfcStart hdrs j + (Parser.mk hdr).getPDUlength ≤ r.read := by
      rwa [← hc.pduStart_succ hhdr hposj]
    rw [getElem?_bhss ht hjk] at htj
    obtain rfl := Option.some.inj htj
    exact isPdu_of_good hc hhdr hposj (hgood j hdr hhdr hcode) (hlen j hdr hhdr hcode)
      ht.held.received.layout hle (ht.held.headers j hjk)

/-- The code follows the protocol exactly for the PDUs whose headers are good. -/
theorem framed_iff (hdrs : List Header) (stream : Nat → UInt8) (hc : Carries hdrs stream)
    (mrdsLength : Nat) (mem : Nat → Nat → UInt8) {r : Receiver}
    (h : Reachable (start mrdsLength mem) (step stream) (PlacedRead hdrs) r) :
    (∃ k, Framed hdrs stream r k) ↔ ∀ j hdr, hdrs[j]? = some hdr →
      rfcStart hdrs j + (Parser.mk hdr).getPDUlength ≤ r.read → Good hdr := by
  have hinv : r.read ≤ rfcTotal hdrs ∧ ∃ k, Tokenized stream r k := by
    apply h.invariant (fun r => r.read ≤ rfcTotal hdrs ∧ ∃ k, Tokenized stream r k)
      ⟨Nat.zero_le _, 0, tokenized_start mrdsLength mem⟩
    intro s n s' ⟨_, k, hk⟩ hplaced hstep
    rw [step] at hstep
    split at hstep
    · obtain ⟨hread, k', hk'⟩ := hk.receive hplaced.placed hplaced.room hstep
      exact ⟨hread ▸ hplaced.le, k', hk'⟩
    · cases hstep
  obtain ⟨hread, k₀, ht⟩ := hinv
  constructor
  · rintro ⟨k, hf⟩ j hdr hhdr hle
    have hk : k = k₀ := by
      rw [← hf.length, ht.bhss, List.length_map, List.length_range']
    subst hk
    exact hf.good hc ht hhdr hle
  · exact fun hgood => ⟨k₀, framed_of_good hc ht hread hgood⟩

theorem carries_singleton {hdr : Header} (h : ∀ i, i < sizeofHeader → stream i = hdr i) :
    Carries [hdr] stream := by
  intro j hdr' hj i hi
  cases j with
  | zero =>
    obtain rfl := Option.some.inj hj
    rw [← h i hi]
    exact congrArg stream (Nat.zero_add i)
  | succ j => cases hj

theorem placedRead_start {n mrdsLength : Nat} (mem : Nat → Nat → UInt8)
    (hn : n ≤ space (start mrdsLength mem).buf.vec) (hle : n ≤ rfcTotal hdrs) :
    PlacedRead hdrs (start mrdsLength mem) n := by
  have hw := (@placed_reserve (fun _ => 0) mrdsLength mem).window
  have hread : (start mrdsLength mem).read = 0 := rfl
  refine ⟨hw.placed hn, hw.room (by omega) hn, ?_⟩
  rw [hread, Nat.zero_add]
  exact hle

/-- A PDU with 512 bytes of data. -/
theorem framed_one_pdu : ∃ r, Reachable (start 512 fun _ _ => 0) (step sampleStream)
    (PlacedRead [sampleStream]) r ∧ r.read = 560 ∧ ∃ k, Framed [sampleStream] sampleStream r k := by
  have hc : Carries [sampleStream] sampleStream := carries_singleton fun _ _ => rfl
  have hsome : (step sampleStream (start 512 fun _ _ => 0) 560).isSome = true := by decide +kernel
  obtain ⟨r, hr⟩ := Option.isSome_iff_exists.mp hsome
  have hreach : Reachable (start 512 fun _ _ => 0) (step sampleStream) (PlacedRead [sampleStream]) r :=
    .step .start (placedRead_start _ (by decide +kernel) (by decide +kernel)) hr
  refine ⟨r, hreach, (read_of_step hr).trans (Nat.zero_add _), ?_⟩
  apply (framed_iff [sampleStream] sampleStream hc 512 _ hreach).mpr
  intro j hdr hhdr _
  cases j with
  | zero =>
    obtain rfl := Option.some.inj hhdr
    exact .inl (by decide)
  | succ j => cases hhdr

/-- A PDU with two words of additional header segments and no data. -/
def ahsStream (i : Nat) : UInt8 := if i = 4 then 2 else 0

/-- The PDU is 56 bytes long, and the tokenizer takes 52 of them. -/
theorem not_framed_ahs : Carries [ahsStream] ahsStream ∧ ∃ r, Reachable (start 512 fun _ _ => 0)
    (step ahsStream) (PlacedRead [ahsStream]) r ∧ r.read = 56 ∧
      ¬ ∃ k, Framed [ahsStream] ahsStream r k := by
  have hrun : (step ahsStream (start 512 fun _ _ => 0) 56).map
    (fun r => (r.tok.bhss.length, r.tok.offset)) =
      some (1, 4) := by decide +kernel
  obtain ⟨r, hr, heq⟩ := Option.map_eq_some_iff.mp hrun
  have hread : r.read = 56 := (read_of_step hr).trans (Nat.zero_add _)
  refine ⟨carries_singleton fun _ _ => rfl, r,
    .step .start (placedRead_start _ (by decide +kernel) (by decide +kernel)) hr, hread,
      fun ⟨k, hf⟩ => ?_⟩
  have hk : k = 1 := hf.length.symm.trans (Prod.mk.inj heq).1
  have hoff := hf.offset
  have hstart : rfcStart [ahsStream] 1 = 56 := by decide +kernel
  rw [(Prod.mk.inj heq).2, hk, hstart, hread] at hoff
  exact absurd hoff (by decide)

end Sstoraged.Framing
