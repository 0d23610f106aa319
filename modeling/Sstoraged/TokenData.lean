import Sstoraged.TokenStream

namespace Sstoraged.TokenData

open BufferChain TokenCursors TokenStream

variable {V : Type} {stream : Nat → UInt8} {vals : Nat → V} {mem : Nat → Nat → V}

/-- The stream in buffers of one size. -/
def onWire (stream : Nat → UInt8) (b i : Nat) : UInt8 := stream (commonBufSize * b + i)

/-- The bytes of a segment as the tasks and the writer take them. The length of
the first piece wraps around when the segment begins behind its buffer. -/
def dataSegment (mem : Nat → Nat → V) (ws : WriteSegment Nat) : List V :=
  match ws.cbufs with
  | [] => []
  | b :: bs =>
    let size := min ws.stored (u64 (commonBufSize - ws.dsOffset))
    cells mem b ws.dsOffset size ++ (contents commonBufSize mem bs 0).take (ws.stored - size)

/-- The data segment begins inside of a buffer: the additional header segments do
not lie across its edge. -/
def Inside (t : Token Nat) : Prop :=
  t.isEdge = true ∨ t.offset + sizeofHeader + (Parser.mk t.bhs).getHlength ≤ commonBufSize

/-- What the handlers see of PDU `k`. -/
def wireToken (stream : Nat → UInt8) (k : Nat) : Token Nat := (tokenAt stream k).view (onWire stream)

theorem dataSegment_eq {ws : WriteSegment Nat} (h : ws.dsOffset ≤ commonBufSize) :
    dataSegment mem ws = (contents commonBufSize mem ws.cbufs ws.dsOffset).take ws.stored := by
  have hu : u64 (commonBufSize - ws.dsOffset) = commonBufSize - ws.dsOffset :=
    u64_sub h (Nat.lt_of_le_of_lt (Nat.sub_le _ _) (by decide))
  rw [dataSegment]
  cases ws.cbufs with
  | nil => exact List.take_nil.symm
  | cons b bs =>
    dsimp only
    have hsub : ws.stored - min ws.stored (commonBufSize - ws.dsOffset) =
        ws.stored - (commonBufSize - ws.dsOffset) := by omega
    rw [hu, contents, List.take_append, length_cells, take_cells, hsub]

theorem contents_stream {read : Nat} (hl : Layout vals mem read) (m : Nat) : ∀ (b ds d : Nat),
    ds ≤ commonBufSize → d ≤ capacity commonBufSize (List.range' b m) ds →
    commonBufSize * b + ds + d ≤ read →
    (contents commonBufSize mem (List.range' b m) ds).take d =
      (List.range' (commonBufSize * b + ds) d).map vals := by
  induction m with
  | zero =>
    intro b ds d hds hd hread
    obtain rfl := Nat.le_zero.mp hd
    rfl
  | succ m ih =>
    intro b ds d hds hd hread
    rw [List.range'_succ, capacity] at hd
    have hcells : cells mem b ds (min d (commonBufSize - ds)) =
        (List.range' (commonBufSize * b + ds) (min d (commonBufSize - ds))).map vals := by
      rw [cells, List.range'_eq_map_range, List.range'_eq_map_range, List.map_map, List.map_map]
      apply List.map_congr_left
      intro i hi
      rw [List.mem_range] at hi
      change mem b (ds + i) = vals (commonBufSize * b + ds + i)
      rw [hl b _ (by omega) (by omega)]
      congr 1
      omega
    rw [List.range'_succ, contents, List.take_append, length_cells, take_cells, hcells]
    by_cases hin : d ≤ commonBufSize - ds
    · rw [Nat.min_eq_left hin, Nat.sub_eq_zero_of_le hin, List.take_zero, List.append_nil]
    · have hnext : commonBufSize * (b + 1) = commonBufSize * b + ds + (commonBufSize - ds) := by
        rw [Nat.mul_succ]
        omega
      have hsplit : d = commonBufSize - ds + (d - (commonBufSize - ds)) := by omega
      rw [ih (b + 1) 0 (d - (commonBufSize - ds)) (Nat.zero_le _) (by omega) (by omega),
        Nat.min_eq_right (by omega), Nat.add_zero, hnext, ← List.map_append, List.range'_append_1,
        ← hsplit]

theorem onWire_layout (read : Nat) : Layout stream (onWire stream) read := fun _ _ _ _ => rfl

theorem onWire_header (k : Nat) : HeaderAt stream (onWire stream) (pduStart stream k) := by
  intro i _
  rw [headerAt, onWire, place]
  rfl

theorem frontDataSegment_congr {B : Type} {t t' : Token B}
    (h : ∀ i, i < sizeofHeader → t.bhs i = t'.bhs i)
    (hoff : t.offset = t'.offset) (hcbufs : t.cbufs = t'.cbufs) (lba tl : Nat) :
    t.frontDataSegment lba tl = t'.frontDataSegment lba tl := by
  have hds : (Parser.mk t.bhs).getDataSegmentOffset = (Parser.mk t'.bhs).getDataSegmentOffset := by
    rw [Parser.getDataSegmentOffset, Parser.getDataSegmentOffset, getDlength_congr h, getHlength_congr h]
  rw [Token.frontDataSegment, Token.frontDataSegment, Token.isEdge, Token.isEdge]
  rw [hds, getDlength_congr h, hoff, hcbufs]

/-- Where the tokens' segments take their bytes from. -/
def dataStart (stream : Nat → UInt8) (k : Nat) : Nat :=
  if (wireToken stream k).isEdge then pduStart stream k + sizeofHeader
  else pduStart stream k + sizeofHeader + (Parser.mk (wireToken stream k).bhs).getHlength

theorem store_stream {read b n ds d lba tl : Nat} {ws : WriteSegment Nat} (hl : Layout vals mem read)
    (hds : ds ≤ commonBufSize) (hd : d ≤ commonBufSize - ds + commonBufSize * n)
    (hread : commonBufSize * b + ds + d ≤ read)
    (h : Token.storeDataSegment lba tl d ds (List.range' b (n + 1)) = some ws) :
    dataSegment mem ws = (List.range' (commonBufSize * b + ds) d).map vals := by
  obtain ⟨-, -, htl⟩ := Token.storeDataSegment_some h
  have hcap : d ≤ capacity commonBufSize (List.range' b (n + 1)) ds := by
    rw [List.range'_succ, capacity, capacity_zero, List.length_range']
    exact hd
  rw [List.range'_succ, Token.storeDataSegment_eq _ _ _ _ _ _ hds hcap htl] at h
  obtain rfl := Option.some.inj h
  rw [dataSegment_eq hds]
  change (contents commonBufSize mem (b :: List.take _ _) ds).take d = _
  rw [take_contents_append commonBufSize mem _
    ((List.range' (b + 1) n).drop ((d - (commonBufSize - ds) + commonBufSize - 1) / commonBufSize)) ds d
    (by simp) (Token.capacity_take b _ d ds hcap), List.cons_append, List.take_append_drop,
    ← List.range'_succ, contents_stream hl (n + 1) b ds d hds hcap hread]

theorem dataSegment_stream {read k lba tl : Nat} {ws : WriteSegment Nat} (hl : Layout vals mem read)
    (hread : pduStart stream (k + 1) ≤ read) (hin : Inside (wireToken stream k))
    (h : (wireToken stream k).frontDataSegment lba tl = some ws) :
    dataSegment mem ws = (List.range' (dataStart stream k)
      (Parser.mk (wireToken stream k).bhs).getDlength).map vals := by
  obtain ⟨pos, hpos⟩ : ∃ pos, pos = pduStart stream k := ⟨_, rfl⟩
  obtain ⟨len, hlen⟩ : ∃ len, len = pduLength stream pos := ⟨_, rfl⟩
  have hmod : pos % commonBufSize < commonBufSize := Nat.mod_lt _ (by decide)
  have hplace := Nat.div_add_mod pos commonBufSize
  have hoff : (wireToken stream k).offset = pos % commonBufSize := by rw [hpos]; rfl
  have hcbufs : (wireToken stream k).cbufs = List.range' (pos / commonBufSize)
      ((pos + len - 1) / commonBufSize - pos / commonBufSize + 1) := by rw [hlen, hpos]; rfl
  have hge : sizeofHeader + (Parser.mk (wireToken stream k).bhs).getHlength +
      (Parser.mk (wireToken stream k).bhs).getDlength ≤ len := by
    have hhead := @onWire_header stream k
    have hl' : len = (Parser.mk (wireToken stream k).bhs).getPDUlength := by
      rw [hlen, hpos]
      exact (getPDUlength_congr hhead).symm
    rw [hl', Parser.getPDUlength]
    split <;> omega
  rw [pduStart_succ, ← hpos, ← hlen] at hread
  rw [Token.frontDataSegment] at h
  rw [dataStart, ← hpos]
  split at h
  · cases h
  rename_i hds
  have hds' : (Parser.mk (wireToken stream k).bhs).getDataSegmentOffset =
      sizeofHeader + (Parser.mk (wireToken stream k).bhs).getHlength := by
    rw [Parser.getDataSegmentOffset] at hds ⊢
    split
    · rename_i hz
      exact absurd (if_pos hz) hds
    · rfl
  by_cases he : (wireToken stream k).isEdge = true
  · have hedge : commonBufSize - pos % commonBufSize < sizeofHeader := by
      rw [Token.isEdge, hoff] at he
      simpa using he
    have htail : (wireToken stream k).cbufs.tail = List.range' (pos / commonBufSize + 1)
        ((pos + len - 1) / commonBufSize - pos / commonBufSize - 1 + 1) := by
      have hn : (pos + len - 1) / commonBufSize - pos / commonBufSize =
          (pos + len - 1) / commonBufSize - pos / commonBufSize - 1 + 1 := by
        rw [commonBufSize_eq, sizeofHeader] at *
        omega
      rw [hcbufs, List.range'_succ, List.tail_cons]
      rw [← hn]
    rw [if_pos he, hoff, if_neg (by omega), htail] at h
    have hstart : commonBufSize * (pos / commonBufSize + 1) +
        (sizeofHeader - (commonBufSize - pos % commonBufSize)) = pos + sizeofHeader := by
      rw [Nat.mul_succ]
      omega
    rw [if_pos he, store_stream hl (by rw [commonBufSize_eq, sizeofHeader] at *; omega)
      (by rw [commonBufSize_eq, sizeofHeader] at *; omega) (by omega) h, hstart]
  · have hin' := hin.resolve_left he
    rw [hoff] at hin'
    rw [if_neg he, hds', hoff, hcbufs] at h
    have hstart : commonBufSize * (pos / commonBufSize) + (sizeofHeader +
        (Parser.mk (wireToken stream k).bhs).getHlength + pos % commonBufSize) =
        pos + sizeofHeader + (Parser.mk (wireToken stream k).bhs).getHlength := by omega
    rw [if_neg he, store_stream hl (by omega)
      (by rw [commonBufSize_eq, sizeofHeader] at *; omega) (by omega) h, hstart]

end Sstoraged.TokenData
