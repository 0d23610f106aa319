import Sstoraged.Iscsi
import Sstoraged.WriteSegment

namespace Sstoraged

/-- The token in front, as the handlers see it: the header, its place in the
first receive buffer, and the buffers that the PDU is spread over. -/
structure Token (B : Type) where
  bhs : Header
  offset : Nat
  cbufs : List B

namespace Token

variable {B : Type}

/-- The header is on the edge of the first buffer. -/
def isEdge (t : Token B) : Bool := decide (commonBufSize - t.offset < sizeofHeader)

/-- The data behind a header without additional header segments. -/
def data {V : Type} (mem : B → Nat → V) (t : Token B) : List V :=
  ((BufferChain.contents commonBufSize mem t.cbufs t.offset).drop sizeofHeader).take
    (Parser.mk t.bhs).getDlength

/-- The buffers hold the header and all the data. -/
structure Whole (t : Token B) : Prop where
  hlength : (Parser.mk t.bhs).getHlength = 0
  offset_lt : t.offset < commonBufSize
  enough : sizeofHeader + (Parser.mk t.bhs).getDlength ≤
    BufferChain.capacity commonBufSize t.cbufs t.offset

/-- Store the rest of the data, which begins at the head of the next buffer. -/
def addDataSegments (ws : WriteSegment B) : List B → Nat → Option (WriteSegment B)
  | _, 0 => some ws
  | [], _ + 1 => none
  | cbuf :: cbufs, remain + 1 =>
    let size := min (remain + 1) commonBufSize
    (ws.addDataSegment cbuf size).bind fun ws => addDataSegments ws cbufs (remain + 1 - size)

/-- Store the data that begins at `dsOffset` of the first of the given buffers. -/
def storeDataSegment (lba transferLength dlength dsOffset : Nat) :
    List B → Option (WriteSegment B)
  | [] => none
  | cbuf :: cbufs =>
    let stored := min dlength (u64 (commonBufSize - dsOffset))
    ((WriteSegment.new lba transferLength).set1stDataSegment cbuf stored dsOffset).bind fun ws =>
      addDataSegments ws cbufs (dlength - stored)

def frontDataSegment (t : Token B) (lba transferLength : Nat) : Option (WriteSegment B) :=
  let p : Parser := ⟨t.bhs⟩
  if p.getDataSegmentOffset = 0 then none
  else if t.isEdge then
    if commonBufSize < t.offset then none
    else storeDataSegment lba transferLength p.getDlength
      (sizeofHeader - (commonBufSize - t.offset)) t.cbufs.tail
  else storeDataSegment lba transferLength p.getDlength (p.getDataSegmentOffset + t.offset) t.cbufs

theorem addDataSegments_eq (cbufs : List B) (n : Nat) (ws : WriteSegment B)
    (hne : ws.cbufs ≠ []) (hn : n ≤ commonBufSize * cbufs.length)
    (htl : ws.stored + n ≤ 512 * ws.transferLength) :
    addDataSegments ws cbufs n = some { ws with
      cbufs := ws.cbufs ++ cbufs.take ((n + commonBufSize - 1) / commonBufSize)
      stored := ws.stored + n } := by
  have hsize : commonBufSize = 131072 := rfl
  induction cbufs generalizing n ws with
  | nil =>
    obtain rfl : n = 0 := by simpa using hn
    simp [addDataSegments]
  | cons cbuf cbufs ih =>
    cases n with
    | zero =>
      have hz : (0 + commonBufSize - 1) / commonBufSize = 0 := by decide
      rw [addDataSegments, hz, List.take_zero, List.append_nil, Nat.add_zero]
    | succ m =>
      obtain ⟨k, hk⟩ : ∃ k, k = min (m + 1) commonBufSize := ⟨_, rfl⟩
      rw [List.length_cons] at hn
      have hadd : ws.addDataSegment cbuf k = some { ws with
          stored := ws.stored + k, cbufs := ws.cbufs ++ [cbuf] } := by
        rw [WriteSegment.addDataSegment, if_neg (by simpa using hne), lba2Offset_eq,
          if_neg (by omega)]
      have hdiv : (m + 1 + commonBufSize - 1) / commonBufSize =
          (m + 1 - k + commonBufSize - 1) / commonBufSize + 1 := by
        rw [hsize] at hk ⊢
        omega
      have hle : m + 1 - k ≤ commonBufSize * cbufs.length := by
        rw [hsize] at hk hn ⊢
        omega
      have hsum : ws.stored + k + (m + 1 - k) = ws.stored + (m + 1) := by omega
      simp only [addDataSegments]
      rw [← hk, hadd, Option.bind_some, ih _ _ (by simp) hle
        (by dsimp only; omega), hdiv, List.take_succ_cons]
      simp [hsum]

theorem addDataSegments_some {cbufs : List B} {n : Nat} {ws ws' : WriteSegment B}
    (h : addDataSegments ws cbufs n = some ws') :
    ws'.lba = ws.lba ∧ ws'.transferLength = ws.transferLength ∧ ws'.stored = ws.stored + n ∧
      (ws.stored ≤ 512 * ws.transferLength → ws'.stored ≤ 512 * ws'.transferLength) := by
  induction cbufs generalizing n ws with
  | nil =>
    cases n with
    | zero =>
      simp only [addDataSegments, Option.some.injEq] at h
      subst h
      exact ⟨rfl, rfl, rfl, id⟩
    | succ m => simp [addDataSegments] at h
  | cons cbuf cbufs ih =>
    cases n with
    | zero =>
      simp only [addDataSegments, Option.some.injEq] at h
      subst h
      exact ⟨rfl, rfl, rfl, id⟩
    | succ m =>
      simp only [addDataSegments, Option.bind_eq_some_iff] at h
      obtain ⟨ws₁, h₁, h₂⟩ := h
      simp only [WriteSegment.addDataSegment, lba2Offset_eq] at h₁
      split at h₁
      · cases h₁
      split at h₁
      · cases h₁
      simp only [Option.some.injEq] at h₁
      subst h₁
      obtain ⟨hlba, htl, hst, hle⟩ := ih h₂
      refine ⟨hlba, htl, ?_, fun _ => hle (by dsimp only; omega)⟩
      rw [hst]
      dsimp only
      omega

/-- A segment with all its data stored. -/
def segment (lba transferLength : Nat) (cbufs : List B) (dsOffset stored : Nat) : WriteSegment B :=
  { (WriteSegment.new lba transferLength : WriteSegment B) with cbufs, dsOffset, stored }

theorem storeDataSegment_eq (lba tl d ds : Nat) (cbuf : B) (cbufs : List B)
    (hds : ds ≤ commonBufSize) (hd : d ≤ BufferChain.capacity commonBufSize (cbuf :: cbufs) ds)
    (htl : d ≤ 512 * tl) :
    storeDataSegment lba tl d ds (cbuf :: cbufs) = some (segment lba tl
      (cbuf :: cbufs.take ((d - (commonBufSize - ds) + commonBufSize - 1) / commonBufSize)) ds d) := by
  have hu : u64 (commonBufSize - ds) = commonBufSize - ds :=
    u64_sub hds (Nat.lt_of_le_of_lt (Nat.sub_le _ _) (by decide))
  have hmin : d - min d (commonBufSize - ds) = d - (commonBufSize - ds) := by omega
  have hsum : min d (commonBufSize - ds) + (d - (commonBufSize - ds)) = d := by omega
  have h₁ : (WriteSegment.new lba tl).set1stDataSegment cbuf (min d (commonBufSize - ds)) ds =
      some (segment lba tl [cbuf] ds (min d (commonBufSize - ds))) := by
    have hle : min d (commonBufSize - ds) ≤ 512 * tl := by omega
    generalize min d (commonBufSize - ds) = first at hle ⊢
    simp [WriteSegment.set1stDataSegment, WriteSegment.new, segment, hle]
  rw [BufferChain.capacity, BufferChain.capacity_zero] at hd
  simp only [storeDataSegment, hu, hmin]
  rw [h₁, Option.bind_some, addDataSegments_eq _ _ _ (by simp [segment]) (by omega) (by
    simp only [segment, WriteSegment.new]
    omega)]
  simp [segment, WriteSegment.new, hsum]

theorem capacity_take (cbuf : B) (cbufs : List B) (d ds : Nat)
    (hd : d ≤ BufferChain.capacity commonBufSize (cbuf :: cbufs) ds) :
    d ≤ BufferChain.capacity commonBufSize
      (cbuf :: cbufs.take ((d - (commonBufSize - ds) + commonBufSize - 1) / commonBufSize)) ds := by
  have hsize : commonBufSize = 131072 := rfl
  rw [BufferChain.capacity, BufferChain.capacity_zero] at hd
  rw [BufferChain.capacity, BufferChain.capacity_zero, List.length_take]
  rw [hsize] at hd ⊢
  rcases Nat.le_total ((d - (131072 - ds) + 131072 - 1) / 131072) cbufs.length with hle | hle
  · rw [Nat.min_eq_left hle]
    omega
  · rwa [Nat.min_eq_right hle]

theorem storeDataSegment_some {lba tl d ds : Nat} {cbufs : List B} {ws : WriteSegment B}
    (h : storeDataSegment lba tl d ds cbufs = some ws) :
    ws.lba = lba ∧ ws.transferLength = tl ∧ d ≤ 512 * tl := by
  cases cbufs with
  | nil => cases h
  | cons cbuf cbufs =>
    simp only [storeDataSegment, Option.bind_eq_some_iff] at h
    obtain ⟨ws₁, h₁, h₂⟩ := h
    obtain ⟨hlba, htl, hst, hle⟩ := addDataSegments_some h₂
    simp only [WriteSegment.set1stDataSegment, WriteSegment.new, List.isEmpty_nil, if_true,
      lba2Offset_eq] at h₁
    split at h₁
    · cases h₁
    · simp only [Option.some.injEq] at h₁
      subst h₁
      dsimp only at hlba htl hst hle
      have hfin := hle (by omega)
      exact ⟨hlba, htl, by omega⟩

theorem frontDataSegment_some {t : Token B} {lba tl : Nat} {ws : WriteSegment B}
    (h : t.frontDataSegment lba tl = some ws) :
    ws.lba = lba ∧ ws.transferLength = tl ∧ 0 < (Parser.mk t.bhs).getDlength ∧
      (Parser.mk t.bhs).getDlength ≤ 512 * tl := by
  simp only [frontDataSegment] at h
  split at h
  · cases h
  rename_i hds
  have hd : 0 < (Parser.mk t.bhs).getDlength := by
    apply Nat.pos_of_ne_zero
    intro hz
    exact hds (by rw [Parser.getDataSegmentOffset, if_pos hz])
  split at h
  · split at h
    · cases h
    · obtain ⟨h₁, h₂, h₃⟩ := storeDataSegment_some h
      exact ⟨h₁, h₂, hd, h₃⟩
  · obtain ⟨h₁, h₂, h₃⟩ := storeDataSegment_some h
    exact ⟨h₁, h₂, hd, h₃⟩

theorem exists_data {t : Token B} (h : t.Whole) (hd : 0 < (Parser.mk t.bhs).getDlength) :
    ∃ cbuf cbufs ds, ds ≤ commonBufSize ∧
      (Parser.mk t.bhs).getDlength ≤ BufferChain.capacity commonBufSize (cbuf :: cbufs) ds ∧
      (∀ lba tl, t.frontDataSegment lba tl =
        storeDataSegment lba tl (Parser.mk t.bhs).getDlength ds (cbuf :: cbufs)) ∧
      ∀ (V : Type) (mem : B → Nat → V),
        (BufferChain.contents commonBufSize mem t.cbufs t.offset).drop sizeofHeader =
          BufferChain.contents commonBufSize mem (cbuf :: cbufs) ds := by
  obtain ⟨hh, hoff, hcap⟩ := h
  have hsize : commonBufSize = 131072 := rfl
  have h48 : sizeofHeader = 48 := rfl
  have hds : (Parser.mk t.bhs).getDataSegmentOffset = sizeofHeader := by
    rw [Parser.getDataSegmentOffset, if_neg (by omega), hh, Nat.add_zero]
  have hne : ¬ (Parser.mk t.bhs).getDataSegmentOffset = 0 := by omega
  cases hc : t.cbufs with
  | nil =>
    rw [hc, BufferChain.capacity] at hcap
    omega
  | cons cbuf cbufs =>
    rw [hc, BufferChain.capacity] at hcap
    by_cases he : commonBufSize - t.offset < sizeofHeader
    · cases hc' : cbufs with
      | nil =>
        rw [hc', BufferChain.capacity] at hcap
        omega
      | cons cbuf' cbufs' =>
        rw [hc', BufferChain.capacity] at hcap
        refine ⟨cbuf', cbufs', sizeofHeader - (commonBufSize - t.offset), by omega, ?_,
          fun lba tl => ?_, fun V mem => ?_⟩
        · rw [BufferChain.capacity]
          omega
        · have hedge : t.isEdge = true := decide_eq_true he
          have hle : ¬ commonBufSize < t.offset := by omega
          simp only [frontDataSegment, if_neg hne, if_pos hedge, if_neg hle, hc, hc', List.tail_cons]
        · rw [BufferChain.drop_contents_beyond _ _ _ _ _ _ (by omega),
            BufferChain.drop_contents_inside _ _ _ _ _ _ (by omega), Nat.zero_add]
    · refine ⟨cbuf, cbufs, t.offset + sizeofHeader, by omega, ?_, fun lba tl => ?_, fun V mem => ?_⟩
      · rw [BufferChain.capacity]
        omega
      · have hedge : ¬ t.isEdge = true := by simpa [isEdge] using he
        simp only [frontDataSegment, if_neg hne, if_neg hedge]
        rw [hds, hc, Nat.add_comm sizeofHeader]
      · rw [BufferChain.drop_contents_inside _ _ _ _ _ _ (by omega)]

theorem frontDataSegment_whole {t : Token B} (h : t.Whole)
    (hd : 0 < (Parser.mk t.bhs).getDlength) (lba tl : Nat)
    (htl : (Parser.mk t.bhs).getDlength ≤ 512 * tl) :
    ∃ cbufs ds, t.frontDataSegment lba tl =
        some (segment lba tl cbufs ds (Parser.mk t.bhs).getDlength) ∧ ds ≤ commonBufSize ∧
      (Parser.mk t.bhs).getDlength ≤ BufferChain.capacity commonBufSize cbufs ds ∧
      ∀ (V : Type) (mem : B → Nat → V), (BufferChain.contents commonBufSize mem cbufs ds).take
        (Parser.mk t.bhs).getDlength = t.data mem := by
  obtain ⟨cbuf, cbufs, ds, hds, hcap, hfront, hcont⟩ := exists_data h hd
  obtain ⟨d, hdef⟩ : ∃ d, d = (Parser.mk t.bhs).getDlength := ⟨_, rfl⟩
  obtain ⟨n, hn⟩ : ∃ n, n = (d - (commonBufSize - ds) + commonBufSize - 1) / commonBufSize := ⟨_, rfl⟩
  have hcap' : d ≤ BufferChain.capacity commonBufSize (cbuf :: cbufs.take n) ds :=
    hn ▸ capacity_take cbuf cbufs d ds (hdef ▸ hcap)
  refine ⟨cbuf :: cbufs.take n, ds, ?_, hds, by rwa [hdef] at hcap', fun V mem => ?_⟩
  · rw [hfront, storeDataSegment_eq _ _ _ _ _ _ hds hcap htl, ← hdef, ← hn]
  · have hsplit : cbuf :: cbufs = cbuf :: cbufs.take n ++ cbufs.drop n := by simp
    rw [← hdef, BufferChain.take_contents_append _ _ _ (cbufs.drop n) _ _ (by simp) hcap',
      ← hsplit, data, hcont, hdef]

end Token

end Sstoraged
