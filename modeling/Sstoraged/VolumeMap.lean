import Mathlib.Algebra.Order.BigOperators.Group.List
import Mathlib.Data.List.Range
import Mathlib.Order.Interval.Set.Defs
import Sstoraged.Volume

namespace Sstoraged.VolumeMap

/-- The piece that a byte lies in, of pieces one behind the other, and where in the piece. -/
def pieceAt {A : Type} (length : A → Nat) : List A → Nat → Option (A × Nat)
  | [], _ => none
  | x :: xs, b => if b < length x then some (x, b) else pieceAt length xs (b - length x)

theorem pieceAt_eq_some_iff {A : Type} {length : A → Nat} {xs : List A} : ∀ {b : Nat} {p : A × Nat},
    pieceAt length xs b = some p ↔
      ∃ l r, xs = l ++ p.1 :: r ∧ b = (l.map length).sum + p.2 ∧ p.2 < length p.1 := by
  induction xs with
  | nil => simp [pieceAt]
  | cons x xs ih =>
    intro b p
    rw [pieceAt]
    constructor
    · intro h
      split at h
      · next hlt =>
        obtain rfl := Option.some.inj h
        exact ⟨[], xs, rfl, (Nat.zero_add b).symm, hlt⟩
      · next hge =>
        obtain ⟨l, r, rfl, hb, hlt⟩ := ih.mp h
        refine ⟨x :: l, r, rfl, ?_, hlt⟩
        rw [List.map_cons, List.sum_cons]
        omega
    · rintro ⟨l, r, hxs, rfl, hlt⟩
      cases l with
      | nil =>
        obtain ⟨rfl, rfl⟩ := List.cons.inj hxs
        rw [List.map_nil, List.sum_nil, Nat.zero_add]
        exact if_pos hlt
      | cons y l =>
        obtain ⟨rfl, rfl⟩ := List.cons.inj hxs
        rw [List.map_cons, List.sum_cons, if_neg (by omega)]
        exact ih.mpr ⟨l, r, rfl, by omega, hlt⟩

theorem pieceAt_isSome_iff {A : Type} {length : A → Nat} {xs : List A} : ∀ {b : Nat},
    (pieceAt length xs b).isSome ↔ b < (xs.map length).sum := by
  induction xs with
  | nil => simp [pieceAt]
  | cons x xs ih =>
    intro b
    rw [pieceAt, List.map_cons, List.sum_cons]
    split
    · simp
      omega
    · rw [ih]
      omega

/-- The part of a volume that a byte lies in, and where in the part. -/
def partAt (volumes : List PhysicalVolume) (b : Nat) : Option (PhysicalVolume × Nat) :=
  pieceAt PhysicalVolume.sector volumes b

def size (volumes : List PhysicalVolume) : Nat := (volumes.map PhysicalVolume.sector).sum

/-- Where the bytes of a handle are in their file, one after the other. -/
def LowHandle.cells (h : LowHandle) : List (String × Int) :=
  (List.range' 0 h.length).map fun i : Nat => (h.path, h.offset + (i : Nat))

def locations (hs : List LowHandle) : List (String × Int) := hs.flatMap LowHandle.cells

/-- Where `getLowHandles` finds the bytes of a part: it counts the start of the part in
bytes. -/
def located (p : PhysicalVolume × Nat) : String × Int := (p.1.path, p.1.start + p.2)

/-- The range lies inside the volume, whose size fits into 64 bits. -/
structure InRange (volumes : List PhysicalVolume) (offset length : Nat) : Prop where
  positive : 0 < length
  inside : offset + length ≤ size volumes
  fits : size volumes < 2 ^ 64

variable {volumes : List PhysicalVolume} {pv : PhysicalVolume} {b offset length : Nat}

theorem size_cons : size (pv :: volumes) = pv.sector + size volumes := List.sum_cons

theorem size_eq_getTotalSize (lv : LogicalVolume) : size lv.volumes = lba2Offset lv.getTotalSize := by
  unfold LogicalVolume.getTotalSize
  induction lv.volumes with
  | nil => rfl
  | cons pv volumes ih =>
    rw [size_cons, List.map_cons, List.sum_cons, ih, PhysicalVolume.sector]
    simp only [lba2Offset_eq, Nat.mul_add]

theorem partAt_lt (h : b < pv.sector) : partAt (pv :: volumes) b = some (pv, b) := if_pos h

theorem partAt_add : partAt (pv :: volumes) (pv.sector + b) = partAt volumes b := by
  rw [partAt, pieceAt, if_neg (Nat.not_lt.mpr (Nat.le_add_right _ _)), Nat.add_sub_cancel_left, partAt]

theorem partAt_isSome (h : b < size volumes) : (partAt volumes b).isSome := pieceAt_isSome_iff.mpr h

theorem mem_of_partAt {p : PhysicalVolume × Nat} (h : partAt volumes b = some p) : p.1 ∈ volumes ∧
    p.2 < p.1.sector := by
  obtain ⟨l, r, rfl, -, hlt⟩ := pieceAt_eq_some_iff.mp h
  exact ⟨List.mem_append_cons_self, hlt⟩

theorem getCoverage_eq (h : offset + length < 2 ^ 64) :
    pv.getCoverage (u64 (offset : Nat)) length = min length (pv.sector - offset) := by
  have hu : u64 (offset : Nat) = offset := by
    unfold u64
    omega
  rw [hu]
  unfold PhysicalVolume.getCoverage
  split
  · omega
  · split <;> omega

theorem getLowHandles_skip (h : offset + length < 2 ^ 64) (hskip : pv.sector ≤ offset) :
    getLowHandles (pv :: volumes) offset length =
      getLowHandles volumes ((offset - pv.sector : Nat) : Int) length := by
  rw [getLowHandles, getCoverage_eq h, Nat.sub_eq_zero_of_le hskip, Nat.min_zero]
  rw [if_neg (Nat.lt_irrefl _), Int.ofNat_sub hskip]

theorem getLowHandles_inside (h : offset + length < 2 ^ 64) (hpos : 0 < length)
    (hlt : offset + length ≤ pv.sector) :
    getLowHandles (pv :: volumes) offset length = [⟨pv.path, pv.start + offset, length⟩] := by
  have hmin : min length (pv.sector - offset) = length := by omega
  rw [getLowHandles, getCoverage_eq h, hmin]
  rw [if_pos hpos, Nat.sub_self, if_pos rfl]

theorem getLowHandles_split (h : offset + length < 2 ^ 64) (hlt : offset < pv.sector)
    (hbeyond : pv.sector < offset + length) : getLowHandles (pv :: volumes) offset length =
      ⟨pv.path, pv.start + offset, pv.sector - offset⟩ ::
        getLowHandles volumes ((0 : Nat) : Int) (length - (pv.sector - offset)) := by
  have hmin : min length (pv.sector - offset) = pv.sector - offset := by omega
  rw [getLowHandles, getCoverage_eq h, hmin]
  rw [if_pos (by omega), if_neg (by omega)]
  rfl

theorem length_cells (h : LowHandle) : (LowHandle.cells h).length = h.length := by
  rw [LowHandle.cells, List.length_map, List.length_range']

theorem length_locations (hs : List LowHandle) : (locations hs).length =
    (hs.map LowHandle.length).sum := by
  rw [locations, List.length_flatMap]
  congr 1
  exact List.map_congr_left fun h _ => length_cells h

theorem map_partAt_add (n m : Nat) : (List.range' (pv.sector + n) m).map (partAt (pv :: volumes)) =
    (List.range' n m).map (partAt volumes) := by
  rw [← List.map_add_range', List.map_map]
  exact List.map_congr_left fun b _ => partAt_add

theorem cells_eq (volumes : List PhysicalVolume) (n m : Nat) (h : n + m ≤ pv.sector) :
    (LowHandle.cells ⟨pv.path, pv.start + (n : Nat), m⟩).map some =
    ((List.range' n m).map (partAt (pv :: volumes))).map (Option.map located) := by
  have hrange : List.range' n m = (List.range' 0 m).map (n + ·) := by
    rw [List.map_add_range', Nat.add_zero]
  rw [hrange, LowHandle.cells, List.map_map, List.map_map, List.map_map]
  apply List.map_congr_left
  intro i hi
  have him : i < 0 + m := (List.mem_range'_1.mp hi).2
  have hlt : n + i < pv.sector := by omega
  simp only [Function.comp_apply, partAt_lt hlt, Option.map_some, located, Int.natCast_add,
    Int.add_assoc]

/-- What `getLowHandles` returns: positive pieces, that together are the bytes of the
range where each part has them. -/
theorem getLowHandles_spec (h : InRange volumes offset length) :
    (∀ lh ∈ getLowHandles volumes offset length, 0 < lh.length) ∧
      (locations (getLowHandles volumes offset length)).map some =
        ((List.range' offset length).map (partAt volumes)).map (Option.map located) := by
  induction volumes generalizing offset length with
  | nil =>
    have hinside := h.inside
    have hpos := h.positive
    have hsize : size [] = 0 := rfl
    omega
  | cons pv volumes ih =>
    obtain ⟨hpos, hinside, hfits⟩ := h
    rw [size_cons] at hinside hfits
    by_cases hskip : pv.sector ≤ offset
    · obtain ⟨n, rfl⟩ := Nat.exists_eq_add_of_le hskip
      rw [getLowHandles_skip (by omega) hskip, Nat.add_sub_cancel_left, map_partAt_add]
      exact ih ⟨hpos, by omega, by omega⟩
    by_cases hwithin : offset + length ≤ pv.sector
    · rw [getLowHandles_inside (by omega) hpos hwithin]
      refine ⟨List.forall_mem_singleton.mpr hpos, ?_⟩
      rw [locations, List.flatMap_singleton]
      exact cells_eq volumes offset length hwithin
    · have hrest : InRange volumes 0 (length - (pv.sector - offset)) := ⟨by omega, by omega, by omega⟩
      obtain ⟨hpositive, hlocations⟩ := ih hrest
      have hsplit : List.range' offset length = List.range' offset (pv.sector - offset) ++
          List.range' pv.sector (length - (pv.sector - offset)) := by
        have hend : offset + (pv.sector - offset) = pv.sector := by omega
        have hsum : pv.sector - offset + (length - (pv.sector - offset)) = length := by omega
        have happ : List.range' offset (pv.sector - offset) ++
          List.range' (offset + (pv.sector - offset))
            (length - (pv.sector - offset)) = _ := List.range'_append_1
        rw [hend, hsum] at happ
        exact happ.symm
      rw [getLowHandles_split (by omega) (by omega) (by omega)]
      refine ⟨List.forall_mem_cons.mpr ⟨?_, hpositive⟩, ?_⟩
      · show 0 < pv.sector - offset
        omega
      · have hadd : (List.range' (pv.sector + 0) (length - (pv.sector - offset))).map
          (partAt (pv :: volumes)) = _ :=
          map_partAt_add 0 (length - (pv.sector - offset))
        rw [Nat.add_zero] at hadd
        rw [locations, List.flatMap_cons, List.map_append, ← locations, hlocations, hsplit,
          List.map_append,
          List.map_append, hadd, cells_eq volumes offset _ (by omega)]

theorem getElem?_of_place {A : Type} {part : Nat → Option A} {f : A → String × Int}
    {cells : List (String × Int)}
    (h : cells.map some = ((List.range' offset length).map part).map (Option.map f)) {i : Nat}
    {p : A} (hi : i < length) (hp : part (offset + i) = some p) :
    cells[i]? = some (f p) := by
  have helem := congrArg (fun l => l[i]?) h
  simp only [List.getElem?_map, List.getElem?_range' hi, Option.map_some, Nat.one_mul, hp] at helem
  obtain ⟨c, hc, hcp⟩ := Option.map_eq_some_iff.mp helem
  rw [hc, ← Option.some.inj hcp]

theorem sum_getLowHandles_le (hpos : 0 < length) (h : offset + length < 2 ^ 64) :
    ((getLowHandles volumes offset length).map LowHandle.length).sum ≤ size volumes - offset := by
  induction volumes generalizing offset length with
  | nil => exact Nat.zero_le _
  | cons pv volumes ih =>
    rw [size_cons]
    by_cases hskip : pv.sector ≤ offset
    · rw [getLowHandles_skip h hskip]
      have hrest := @ih (offset - pv.sector) length hpos (by omega)
      omega
    by_cases hwithin : offset + length ≤ pv.sector
    · rw [getLowHandles_inside h hpos hwithin, List.map_singleton, List.sum_singleton]
      dsimp only
      omega
    · rw [getLowHandles_split h (by omega) (by omega), List.map_cons, List.sum_cons]
      have hrest := @ih 0 (length - (pv.sector - offset)) (by omega) (by omega)
      dsimp only
      omega

section Configured

/-- The configured part that a byte lies in, and where in the part. -/
def configuredAt (parts : List RealVolume) (b : Nat) : Option (RealVolume × Nat) :=
  pieceAt RealVolume.sector parts b

/-- Where the bytes of a part are configured to be, with the start in units of 512. -/
def configured (p : RealVolume × Nat) : String × Int := (p.1.path, lba2Offset p.1.start + p.2)

/-- Where a part begins in the volume, by the configured counts. -/
def base (parts : List RealVolume) : Nat := (parts.map RealVolume.sector).sum

/-- The range lies inside the configured volume, whose size fits into 64 bits. -/
structure Within (parts : List RealVolume) (offset length : Nat) : Prop where
  positive : 0 < length
  inside : offset + length ≤ base parts
  fits : base parts < 2 ^ 64

/-- The handles for a range of the volume that is built of some parts. -/
def handlesOf (parts : List RealVolume) (offset length : Nat) : List LowHandle :=
  getLowHandles (parts.map PhysicalVolume.new) offset length

/-- The two parts are of one path, and configured apart. -/
def Apart (p p' : RealVolume) : Prop :=
  p.path = p'.path ∧ (p.start + p.count ≤ p'.start ∨ p'.start + p'.count ≤ p.start)

/-- A range is mapped as it is configured. -/
structure Mapped (parts : List RealVolume) (offset length : Nat) : Prop where
  positive : ∀ lh ∈ handlesOf parts offset length, 0 < lh.length
  sum : ((handlesOf parts offset length).map LowHandle.length).sum = length
  place : (locations (handlesOf parts offset length)).map some =
    ((List.range' offset length).map (configuredAt parts)).map (Option.map configured)
  apart : ∀ i j, i < length → j < length → ∀ p p', configuredAt parts (offset + i) = some p →
    configuredAt parts (offset + j) = some p' → Apart p.1 p'.1 →
      (locations (handlesOf parts offset length))[i]? ≠ (locations (handlesOf parts offset length))[j]?

/-- The condition: counted with 32 bits the parts still hold the range, and where a byte
of it falls to `p` as configured and to `q` with 32 bits, the paths are the same and the
start of `q` in bytes is as far from its place in the volume as that of `p` in blocks. -/
structure Aligned (parts : List RealVolume) (offset length : Nat) : Prop where
  inside : offset + length ≤ size (parts.map PhysicalVolume.new)
  aligned : ∀ l p r l' q r', parts = l ++ p :: r → parts = l' ++ q :: r' →
    (∃ b ∈ Set.Ico offset (offset + length), b ∈ Set.Ico (base l) (base l + p.sector) ∧
      b ∈ Set.Ico (size (l'.map .new)) (size (l'.map .new) + (PhysicalVolume.new q).sector)) →
    q.path = p.path ∧ q.start + base l = lba2Offset p.start + size (l'.map .new)

/-- The parts that the range meets start at 0. -/
def FromZero (parts : List RealVolume) (offset length : Nat) : Prop :=
  ∀ b ∈ Set.Ico offset (offset + length), ∀ p, configuredAt parts b = some p → p.1.start = 0

variable {parts : List RealVolume}

theorem sector_new_le (p : RealVolume) : (PhysicalVolume.new p).sector ≤ p.sector := by
  rw [PhysicalVolume.sector, RealVolume.sector, lba2Offset_eq, lba2Offset_eq]
  exact Nat.mul_le_mul_left _ ((UInt32.toNat_ofNat' ..).trans_le (Nat.mod_le _ _))

theorem sector_new_eq {p : RealVolume} (h : p.count < 2 ^ 32) :
    (PhysicalVolume.new p).sector = p.sector := by
  rw [PhysicalVolume.sector, RealVolume.sector]
  exact congrArg lba2Offset ((UInt32.toNat_ofNat' ..).trans (Nat.mod_eq_of_lt h))

theorem size_new_le (parts : List RealVolume) : size (parts.map .new) ≤ base parts := by
  rw [size, base, List.map_map]
  exact List.sum_le_sum fun p _ => sector_new_le p

theorem size_new_eq {parts : List RealVolume} (h : ∀ p ∈ parts, p.count < 2 ^ 32) :
    size (parts.map .new) = base parts := by
  rw [size, base, List.map_map]
  exact congrArg List.sum (List.map_congr_left fun p hp => sector_new_eq (h p hp))

theorem configured_ne {p p' : RealVolume × Nat} (h : p.2 < p.1.sector) (h' : p'.2 < p'.1.sector)
    (hapart : Apart p.1 p'.1) : configured p ≠ configured p' := by
  intro heq
  have hoffset := congrArg Prod.snd heq
  have hdisjoint := hapart.2
  unfold RealVolume.sector at h h'
  unfold configured at hoffset
  rw [lba2Offset_eq] at h h'
  dsimp only at hoffset
  rw [lba2Offset_eq, lba2Offset_eq] at hoffset
  omega

theorem inRange_of_place (h : Within parts offset length) {f : RealVolume × Nat → String × Int}
    (hplace : (locations (handlesOf parts offset length)).map some =
      ((List.range' offset length).map (configuredAt parts)).map (Option.map f)) :
    InRange (parts.map .new) offset length := by
  have hpos := h.positive
  have hinside := h.inside
  have hfits := h.fits
  have hsize := size_new_le parts
  have hsum : ((handlesOf parts offset length).map LowHandle.length).sum = length := by
    have hlength := congrArg List.length hplace
    rw [List.length_map, List.length_map, List.length_map, List.length_range', length_locations]
      at hlength
    exact hlength
  have hle : _ ≤ _ := @sum_getLowHandles_le (parts.map .new) offset length hpos (by omega)
  rw [← handlesOf, hsum] at hle
  exact ⟨hpos, by omega, by omega⟩

theorem mapped_iff_place (h : Within parts offset length) : Mapped parts offset length ↔
    (locations (handlesOf parts offset length)).map some =
      ((List.range' offset length).map (configuredAt parts)).map (Option.map configured) := by
  refine ⟨Mapped.place, fun hplace => ?_⟩
  obtain ⟨hpositive, hlocations⟩ := getLowHandles_spec (inRange_of_place h hplace)
  have hsum : (locations (handlesOf parts offset length)).length = length := by
    have hlength := congrArg List.length hplace
    simpa only [List.length_map, List.length_range'] using hlength
  refine ⟨hpositive, (length_locations _).symm.trans hsum, hplace,
    fun i j hi hj p p' hp hp' hapart heq => ?_⟩
  rw [getElem?_of_place hplace hi hp, getElem?_of_place hplace hj hp'] at heq
  obtain ⟨-, -, -, -, hlt⟩ := pieceAt_eq_some_iff.mp hp
  obtain ⟨-, -, -, -, hlt'⟩ := pieceAt_eq_some_iff.mp hp'
  exact configured_ne hlt hlt' hapart (Option.some.inj heq)

/-- Each byte of the range is found where it is configured. -/
def Found (parts : List RealVolume) (offset length : Nat) : Prop :=
  ∀ b ∈ Set.Ico offset (offset + length), (partAt (parts.map .new) b).map located =
    (configuredAt parts b).map configured

theorem mapped_iff_found (h : Within parts offset length) : Mapped parts offset length ↔
    offset + length ≤ size (parts.map .new) ∧ Found parts offset length := by
  have hfits := h.fits
  have hsize := size_new_le parts
  have hplace : InRange (parts.map .new) offset length →
    ((locations (handlesOf parts offset length)).map some =
      ((List.range' offset length).map (configuredAt parts)).map (Option.map configured) ↔
        Found parts offset length) := by
    intro hin
    rw [handlesOf, (getLowHandles_spec hin).2, List.map_map, List.map_map, List.map_inj_left]
    simp only [List.mem_range'_1]
    rfl
  rw [mapped_iff_place h]
  constructor
  · intro hmapped
    have hin := inRange_of_place h hmapped
    exact ⟨hin.inside, (hplace hin).mp hmapped⟩
  · rintro ⟨hinside, hfound⟩
    exact (hplace ⟨h.positive, hinside, by omega⟩).mpr hfound

theorem partAt_new_iff {b : Nat} {p : PhysicalVolume × Nat} : partAt (parts.map .new) b = some p ↔
    ∃ l q r, parts = l ++ q :: r ∧ p.1 = .new q ∧ b = size (l.map .new) + p.2 ∧
      p.2 < (PhysicalVolume.new q).sector := by
  rw [partAt, pieceAt_eq_some_iff]
  constructor
  · rintro ⟨l, r, hparts, hb, hlt⟩
    obtain ⟨l, r, rfl, rfl, hr⟩ := List.map_eq_append_iff.mp hparts
    obtain ⟨q, r, rfl, hq, rfl⟩ := List.map_eq_cons_iff.mp hr
    exact ⟨l, q, r, rfl, hq.symm, hb, hq ▸ hlt⟩
  · rintro ⟨l, q, r, rfl, hq, hb, hlt⟩
    exact ⟨l.map .new, r.map .new, by rw [List.map_append, List.map_cons, hq], hb, hq ▸ hlt⟩

theorem found_iff_aligned (h : Within parts offset length) :
    offset + length ≤ size (parts.map .new) ∧ Found parts offset length ↔
      Aligned parts offset length := by
  constructor
  · rintro ⟨hinside, hfound⟩
    refine ⟨hinside, fun l p r l' q r' hp hq hmeet => ?_⟩
    obtain ⟨b, hb, hbp, hbq⟩ := hmeet
    obtain ⟨i, rfl⟩ := Nat.exists_eq_add_of_le hbp.1
    obtain ⟨j, hj⟩ := Nat.exists_eq_add_of_le hbq.1
    have hconfigured : configuredAt parts (base l + i) = some (p, i) :=
      pieceAt_eq_some_iff.mpr ⟨l, r, hp, rfl, Nat.lt_of_add_lt_add_left hbp.2⟩
    have hpart : partAt (parts.map .new) (base l + i) = some (.new q, j) :=
      partAt_new_iff.mpr ⟨l', q, r', hq, rfl, hj, Nat.lt_of_add_lt_add_left (hj ▸ hbq.2)⟩
    have heq := hfound _ hb
    rw [hconfigured, hpart] at heq
    obtain ⟨hpath, hoffset⟩ := Prod.mk.inj (Option.some.inj heq)
    refine ⟨hpath, ?_⟩
    have hstart : ((q.start : Int) + j) = lba2Offset p.start + i := hoffset
    unfold base at hj ⊢
    omega
  · rintro ⟨hinside, haligned⟩
    refine ⟨hinside, fun b hb => ?_⟩
    have hsome : (configuredAt parts b).isSome := pieceAt_isSome_iff.mpr (hb.2.trans_le h.inside)
    obtain ⟨⟨p, i⟩, hp⟩ := Option.isSome_iff_exists.mp hsome
    obtain ⟨⟨pv, j⟩, hpv⟩ := Option.isSome_iff_exists.mp (partAt_isSome (hb.2.trans_le hinside))
    rw [hp, hpv]
    obtain ⟨l, r, hparts, rfl, hi⟩ := pieceAt_eq_some_iff.mp hp
    obtain ⟨l', q, r', hparts', rfl, hj', hj⟩ := partAt_new_iff.mp hpv
    obtain ⟨hpath, hstart⟩ := haligned l p r l' q r' hparts hparts'
      ⟨_, hb, ⟨Nat.le_add_right _ _, Nat.add_lt_add_left hi _⟩,
      hj' ▸ ⟨Nat.le_add_right _ _, Nat.add_lt_add_left hj _⟩⟩
    refine congrArg some (Prod.ext hpath ?_)
    show ((q.start : Int) + j) = lba2Offset p.start + i
    unfold base at hstart
    dsimp only at hj'
    omega

theorem aligned_iff_fromZero (h : Within parts offset length) (hcount : ∀ p ∈ parts, p.count < 2 ^ 32) :
    Aligned parts offset length ↔ FromZero parts offset length := by
  have hsector : ∀ p ∈ parts, (PhysicalVolume.new p).sector = p.sector :=
    fun p hp => sector_new_eq (hcount p hp)
  have hbase : ∀ {l p r}, parts = l ++ p :: r → size (l.map .new) = base l ∧
      (PhysicalVolume.new p).sector = p.sector := by
    rintro l p r rfl
    exact ⟨size_new_eq fun q hq => hcount q (List.mem_append_left _ hq),
      hsector p List.mem_append_cons_self⟩
  constructor
  · intro haligned b hb ⟨p, i⟩ hp
    obtain ⟨l, r, hparts, rfl, hi⟩ := pieceAt_eq_some_iff.mp hp
    obtain ⟨hsize, hlength⟩ := hbase hparts
    have hin : base l + i ∈ Set.Ico (base l) (base l + p.sector) :=
      ⟨Nat.le_add_right _ _, Nat.add_lt_add_left hi _⟩
    obtain ⟨-, hstart⟩ := haligned.aligned l p r l p r hparts hparts
      ⟨_, hb, hin, by rwa [hsize, hlength]⟩
    rw [hsize, lba2Offset_eq] at hstart
    dsimp only
    omega
  · intro hzero
    refine ⟨size_new_eq hcount ▸ h.inside, fun l p r l' q r' hp hq hmeet => ?_⟩
    obtain ⟨b, hb, hbp, hbq⟩ := hmeet
    obtain ⟨hsize, hlength⟩ := hbase hq
    rw [hsize, hlength] at hbq
    obtain ⟨i, rfl⟩ := Nat.exists_eq_add_of_le hbp.1
    obtain ⟨j, hj⟩ := Nat.exists_eq_add_of_le hbq.1
    have hat : configuredAt parts (base l + i) = some (p, i) :=
      pieceAt_eq_some_iff.mpr ⟨l, r, hp, rfl, Nat.lt_of_add_lt_add_left hbp.2⟩
    have hat' : configuredAt parts (base l + i) = some (q, j) :=
      pieceAt_eq_some_iff.mpr ⟨l', r', hq, hj, Nat.lt_of_add_lt_add_left (hj ▸ hbq.2)⟩
    obtain ⟨rfl, rfl⟩ := Prod.mk.inj (Option.some.inj (hat.symm.trans hat'))
    have hstart := hzero _ hb _ hat
    dsimp only at hstart
    refine ⟨rfl, ?_⟩
    rw [hsize, hstart, lba2Offset_eq]
    omega

/-- The start of a part is counted in bytes and its count with 32 bits, so a range is
mapped as configured just if both leave its parts in their places: where no count is cut
just if the parts start at 0. -/
theorem mapped_iff_aligned (h : Within parts offset length) :
    (Mapped parts offset length ↔ Aligned parts offset length) ∧
      ((∀ p ∈ parts, p.count < 2 ^ 32) → (Aligned parts offset length ↔ FromZero parts offset length)) :=
  ⟨(mapped_iff_found h).trans (found_iff_aligned h), aligned_iff_fromZero h⟩

/-- Two files of eight blocks each. -/
theorem mapped_two_files : Mapped [⟨"/dev/sdb", 0, 8⟩, ⟨"/dev/sdc", 0, 8⟩] 4000 200 := by
  have hin : Within [⟨"/dev/sdb", 0, 8⟩, ⟨"/dev/sdc", 0, 8⟩] 4000 200 :=
    ⟨by decide, by decide, by decide⟩
  have hall : ∀ p ∈ [(⟨"/dev/sdb", 0, 8⟩ : RealVolume), ⟨"/dev/sdc", 0, 8⟩], p.start = 0 ∧
      p.count < 2 ^ 32 := by decide
  obtain ⟨hmapped, hzero⟩ := mapped_iff_aligned hin
  refine hmapped.mpr ((hzero fun p hp => (hall p hp).2).mpr fun b _ p hp => ?_)
  obtain ⟨l, r, hparts, -, -⟩ := pieceAt_eq_some_iff.mp hp
  exact (hall p.1 (hparts ▸ List.mem_append_cons_self)).1

/-- Two parts of one file, each of eight blocks: the second one begins eight bytes
behind the first. -/
theorem not_mapped_one_file : ¬ Mapped [⟨"/dev/sdb", 0, 8⟩, ⟨"/dev/sdb", 8, 8⟩] 0 8192 := by
  intro h
  have hrange : InRange [⟨"/dev/sdb", 0, 8⟩, ⟨"/dev/sdb", 8, 8⟩] 0 8192 :=
    ⟨by decide, by decide, by decide⟩
  obtain ⟨-, hplace⟩ := getLowHandles_spec hrange
  have hfirst := getElem?_of_place (p := (⟨"/dev/sdb", 0, 8⟩, 8)) hplace (i := 8) (by decide) rfl
  have hsecond := getElem?_of_place (p := (⟨"/dev/sdb", 8, 8⟩, 0)) hplace (i := 4096) (by decide) rfl
  exact h.apart 8 4096 (by decide) (by decide) (⟨"/dev/sdb", 0, 8⟩, 8) (⟨"/dev/sdb", 8, 8⟩, 0) rfl rfl
    ⟨rfl, .inl (by decide)⟩ (hfirst.trans hsecond.symm)

/-- A count of more than 32 bits is cut. -/
example : handlesOf [⟨"/dev/sdb", 0, 2 ^ 32 + 8⟩] 4096 512 = [] := rfl

end Configured

end Sstoraged.VolumeMap
