import Mathlib.Algebra.Order.BigOperators.Group.List
import Mathlib.Algebra.Order.Ring.Nat
import Sstoraged.SortedMap
import Sstoraged.VolumeMap

namespace Sstoraged

namespace DiskWriter

def addHandle (handles : List (Nat × LowHandle)) (handle : LowHandle) (offset : Nat) :
    List (Nat × LowHandle) :=
  SortedMap.assign handles offset handle

/-- Where the bytes from an address on go: the path that stands for the descriptor, how
many of them it covers, and the offset in its file. -/
def getHandle (handles : List (Nat × LowHandle)) (start length : Nat) : Option (String × Nat × Nat) :=
  let below := handles.takeWhile fun h => decide (h.1 < start)
  let itr := handles.dropWhile fun h => decide (h.1 < start)
  let itr := if !below.isEmpty && itr.head?.all (fun h => decide (start < h.1)) then
    below.getLast? else itr.head?
  match itr with
  | none => none
  | some (offset, handle) =>
    if start < offset then none
    else
      let realOffset := u64 (start - offset + handle.offset)
      let covered := min length (u64 (handle.length + handle.offset - realOffset))
      if covered = 0 then none else some (handle.path, covered, realOffset)

/-- The handles that are added for a volume, each behind the ones before. -/
def addHandles : List (Nat × LowHandle) → Nat → List LowHandle → List (Nat × LowHandle) × Nat
  | handles, offset, [] => (handles, offset)
  | handles, offset, h :: lhs => addHandles (addHandle handles h offset) (offset + h.length) lhs

/-- The handles of the writer of one volume, if they cover the volume. -/
def setupWriters (lv : LogicalVolume) : Option (List (Nat × LowHandle)) :=
  let (handles, offset) := addHandles [] 0 (lv.getLowHandles 0 (lba2Offset lv.getTotalSize))
  if offset ≠ lba2Offset lv.getTotalSize then none else some handles

/-- The pieces of a range, each with the handle of its first byte. -/
def walk (handles : List (Nat × LowHandle)) : Nat → Nat → Nat → Option (List (String × Nat × Nat))
  | 0, _, length => if length = 0 then some [] else none
  | fuel + 1, start, length =>
    if length = 0 then some []
    else
      match getHandle handles start length with
      | none => none
      | some (path, covered, realOffset) =>
        (walk handles fuel (start + covered) (length - covered)).map ((path, covered, realOffset) :: ·)

end DiskWriter

namespace HandleMap

open DiskWriter SortedMap

variable {handles : List (Nat × LowHandle)} {start length : Nat}

/-- What a handle answers for an address that falls to it. -/
def answer (start length : Nat) (e : Nat × LowHandle) : Option (String × Nat × Nat) :=
  let covered := min length (u64 ((e.1 : Int) + e.2.length - start))
  if covered = 0 then none else some (e.2.path, covered, u64 (start - e.1 + e.2.offset))

theorem u64_sub_u64 (x y : Int) : u64 (x - u64 y) = u64 (x - y) := by
  unfold u64
  omega

theorem getHandle_eq (hs : Sorted handles) :
    getHandle handles start length = (floor handles start).bind (answer start length) := by
  unfold getHandle
  dsimp only
  rw [stepBack_eq hs]
  cases hfloor : floor handles start with
  | none =>
    rw [Option.none_or, Option.bind_none]
    cases hhead : handles.head? with
    | none => rfl
    | some e =>
      have hlt := floor_eq_none_iff.mp hfloor e (List.mem_of_head? hhead)
      exact if_pos hlt
  | some e =>
    obtain ⟨-, hle⟩ := le_of_floor hfloor
    rw [Option.some_or, Option.bind_some]
    dsimp only
    rw [if_neg (Nat.not_lt.mpr hle), u64_sub_u64]
    have hcovered : (e.2.length : Int) + e.2.offset - (start - e.1 + e.2.offset) = e.1 +
        e.2.length - start := by omega
    rw [hcovered]
    rfl

/-- The handles that some calls of `addHandle` build. -/
def build (adds : List (LowHandle × Nat)) : List (Nat × LowHandle) :=
  adds.foldl (fun handles a => addHandle handles a.1 a.2) []

/-- The values that the types of a handle and of its key allow. -/
structure Typed (handle : LowHandle) (offset : Nat) : Prop where
  key : offset < 2 ^ 64
  offset : -2 ^ 63 ≤ handle.offset ∧ handle.offset < 2 ^ 63
  length : handle.length < 2 ^ 64

theorem build_spec {adds : List (LowHandle × Nat)} (h : ∀ a ∈ adds, Typed a.1 a.2) :
    Sorted (build adds) ∧ ∀ e ∈ build adds, Typed e.2 e.1 := by
  have hstep : ∀ {handles : List (Nat × LowHandle)}, Sorted handles → (∀ e ∈ handles, Typed e.2 e.1) →
      Sorted (adds.foldl (fun handles a => addHandle handles a.1 a.2) handles) ∧
        ∀ e ∈ adds.foldl (fun handles a => addHandle handles a.1 a.2) handles, Typed e.2 e.1 := by
    induction adds with
    | nil => exact fun hs ht => ⟨hs, ht⟩
    | cons a adds ih =>
      intro handles hs ht
      obtain ⟨ha, hadds⟩ := List.forall_mem_cons.mp h
      refine ih hadds (sorted_assign hs _ _) fun e he => ?_
      obtain he | rfl := mem_of_mem_assign he
      · exact ht e he
      · exact ha
  exact hstep List.Pairwise.nil fun e he => absurd he List.not_mem_nil

/-- The answer stays inside the handle that it is taken from, and there is none for an
address that no handle covers. -/
structure Answers (handles : List (Nat × LowHandle)) (start length : Nat) : Prop where
  inside : ∀ path covered realOffset, getHandle handles start length = some (path, covered, realOffset) →
    0 < covered ∧ covered ≤ length ∧ ∃ e, floor handles start = some e ∧ e.2.path = path ∧
      e.2.offset ≤ realOffset ∧ (realOffset : Int) + covered ≤ e.2.offset + e.2.length
  refused : (∀ e ∈ handles, ¬ (e.1 ≤ start ∧ start < e.1 + e.2.length)) →
    getHandle handles start length = none

/-- The condition: the last handle that begins at or before the address ends at it, or
behind it with a file offset that 64 bits hold. -/
def Reaches (handles : List (Nat × LowHandle)) (start : Nat) : Prop :=
  ∀ e, floor handles start = some e → start = e.1 + e.2.length ∨
    start < e.1 + e.2.length ∧ 0 ≤ (start : Int) - e.1 + e.2.offset ∧
      (start : Int) - e.1 + e.2.offset < 2 ^ 64

theorem answer_end {e : Nat × LowHandle} (h : start = e.1 + e.2.length) :
    answer start length e = none := by
  have hzero : u64 ((e.1 : Int) + e.2.length - start) = 0 := by
    unfold u64
    omega
  rw [answer, hzero]
  exact if_pos (Nat.min_zero _)

theorem answer_eq {e : Nat × LowHandle} {rest : Nat}
    (hrest : u64 ((e.1 : Int) + e.2.length - start) = rest)
    (hpos : 0 < rest) (hlength : 0 < length) :
    answer start length e = some (e.2.path, min length rest, u64 (start - e.1 + e.2.offset)) := by
  rw [answer, hrest]
  exact if_neg (by omega)

theorem answers_of_reaches (hs : Sorted handles) (ht : ∀ e ∈ handles, Typed e.2 e.1)
    (hlength : 0 < length)
    (h : Reaches handles start) : Answers handles start length := by
  rw [Reaches] at h
  cases hfloor : floor handles start with
  | none =>
    have hnone : getHandle handles start length = none := by
      rw [getHandle_eq hs, hfloor]
      rfl
    exact ⟨fun _ _ _ hsome => absurd (hnone.symm.trans hsome) nofun, fun _ => hnone⟩
  | some e =>
    obtain ⟨hmem, hle⟩ := le_of_floor hfloor
    obtain hend | ⟨hlt, hnonneg, hfits⟩ := h e hfloor
    · have hnone : getHandle handles start length = none := by
        rw [getHandle_eq hs, hfloor]
        exact answer_end hend
      exact ⟨fun _ _ _ hsome => absurd (hnone.symm.trans hsome) nofun, fun _ => hnone⟩
    · have hsize := (ht e hmem).length
      have hrest : u64 ((e.1 : Int) + e.2.length - start) = e.1 + e.2.length - start := by
        unfold u64
        omega
      have hreal : (u64 (start - e.1 + e.2.offset) : Int) = start - e.1 + e.2.offset := by
        unfold u64
        omega
      refine ⟨fun path covered realOffset hsome => ?_, fun hnone => absurd ⟨hle, hlt⟩ (hnone e hmem)⟩
      rw [getHandle_eq hs, hfloor, Option.bind_some, answer_eq hrest (by omega) hlength] at hsome
      obtain ⟨rfl, htail⟩ := Prod.mk.inj (Option.some.inj hsome)
      obtain ⟨rfl, rfl⟩ := Prod.mk.inj htail
      refine ⟨by omega, by omega, e, hfloor, rfl, ?_, ?_⟩
      · omega
      · omega

theorem reaches_of_answers (hs : Sorted handles) (ht : ∀ e ∈ handles, Typed e.2 e.1)
    (hstart : start < 2 ^ 64)
    (hlength : 0 < length) (h : Answers handles start length) : Reaches handles start := by
  intro e hfloor
  obtain ⟨hmem, hle⟩ := le_of_floor hfloor
  have hsize := (ht e hmem).length
  by_cases hend : start = e.1 + e.2.length
  · exact .inl hend
  -- there is an answer: behind the end of the handle the rest of it wraps around
  have hpos : 0 < u64 ((e.1 : Int) + e.2.length - start) := by
    unfold u64
    omega
  have hsome : getHandle handles start length = some (e.2.path,
      min length (u64 ((e.1 : Int) + e.2.length - start)), u64 (start - e.1 + e.2.offset)) := by
    rw [getHandle_eq hs, hfloor, Option.bind_some]
    exact answer_eq rfl hpos hlength
  obtain ⟨hcovered, -, e', hfloor', -, hfirst, hlast⟩ := h.inside _ _ _ hsome
  obtain rfl := Option.some.inj (hfloor'.symm.trans hfloor)
  generalize min length _ = covered at hcovered hlast
  obtain ⟨real, hreal⟩ : ∃ real, real = u64 (start - e'.1 + e'.2.offset) := ⟨_, rfl⟩
  rw [← hreal] at hfirst hlast
  unfold u64 at hreal
  refine .inr ⟨?_, ?_, ?_⟩
  · omega
  · omega
  · omega

/-- Where the handle that an address falls to ends before it, the rest of the handle
wraps around, and `getHandle` answers with a place behind the handle. -/
theorem answers_iff_reaches (adds : List (LowHandle × Nat)) (start length : Nat)
    (hadds : ∀ a ∈ adds, Typed a.1 a.2)
    (hstart : start < 2 ^ 64) (hlength : 0 < length) :
    Answers (build adds) start length ↔ Reaches (build adds) start := by
  obtain ⟨hs, ht⟩ := build_spec hadds
  exact ⟨reaches_of_answers hs ht hstart hlength, answers_of_reaches hs ht hlength⟩

/-- Two handles of 4096 bytes with a gap between them. -/
def sampleAdds : List (LowHandle × Nat) := [(⟨"/dev/sdb", 0, 4096⟩, 0), (⟨"/dev/sdc", 0, 4096⟩, 8192)]

theorem answers_second_block : Answers (build sampleAdds) 512 8192 := by
  refine (answers_iff_reaches sampleAdds 512 8192 ?_ (by decide) (by decide)).mpr ?_
  · intro a ha
    obtain rfl | ha := List.mem_cons.mp ha
    · exact ⟨by decide, by decide, by decide⟩
    · obtain rfl := List.mem_singleton.mp ha
      exact ⟨by decide, by decide, by decide⟩
  · intro e he
    obtain rfl : (0, ⟨"/dev/sdb", 0, 4096⟩) = e := Option.some.inj he
    exact .inr ⟨by decide, by decide, by decide⟩

/-- An address in the gap is answered with a place behind the first handle. -/
theorem not_answers_gap : getHandle (build sampleAdds) 4608 512 = some ("/dev/sdb", 512, 4608) ∧
    ¬ Answers (build sampleAdds) 4608 512 := by
  refine ⟨by decide, fun h => ?_⟩
  have hnone := h.refused (by decide)
  exact absurd hnone (by decide)

/-- The place that the handle of an address gives it. -/
def placeAt (handles : List (Nat × LowHandle)) (a : Nat) : Option (String × Nat) :=
  (floor handles a).bind fun e => if a < e.1 + e.2.length then some
    (e.2.path, u64 (a - e.1 + e.2.offset)) else none

/-- No handle reaches into the next one. -/
structure Layout (handles : List (Nat × LowHandle)) : Prop where
  sorted : Sorted handles
  apart : handles.Pairwise fun e f => e.1 + e.2.length ≤ f.1
  fits : ∀ e ∈ handles, e.2.length < 2 ^ 64

/-- The places of the bytes of a piece. -/
def cells (r : String × Nat × Nat) : List (String × Nat) :=
  (List.range' 0 r.2.1).map fun i : Nat => (r.1, u64 ((r.2.2 : Int) + (i : Nat)))

theorem length_cells (r : String × Nat × Nat) : (cells r).length = r.2.1 := by
  rw [cells, List.length_map, List.length_range']

theorem u64_add_u64 (x y : Int) : u64 (u64 x + y) = u64 (x + y) := by
  unfold u64
  omega

theorem floor_inside (hl : Layout handles) {a : Nat} {e : Nat × LowHandle}
    (h : floor handles start = some e)
    (hle : start ≤ a) (hlt : a < e.1 + e.2.length) : floor handles a = some e := by
  obtain ⟨o, lh⟩ := e
  obtain ⟨l, r, rfl, hos, -⟩ := exists_split_of_floor hl.sorted h
  have hapart := (List.pairwise_cons.mp (List.pairwise_append.mp hl.apart).2.1).1
  exact floor_split hl.sorted (hos.trans hle) fun f hf => hlt.trans_le (hapart f hf)

/-- An answer for an address that has a place: its piece goes to the places of the
addresses from there on. -/
theorem getHandle_place (hl : Layout handles) (hplace : (placeAt handles start).isSome)
    (hlength : 0 < length) :
    ∃ r, getHandle handles start length = some r ∧ 0 < r.2.1 ∧ r.2.1 ≤ length ∧
      (cells r).map some = (List.range' start r.2.1).map (placeAt handles) := by
  obtain ⟨place, hsome⟩ := Option.isSome_iff_exists.mp hplace
  obtain ⟨e, hfloor, he⟩ := Option.bind_eq_some_iff.mp hsome
  obtain ⟨hmem, hle⟩ := le_of_floor hfloor
  split at he
  swap
  · exact absurd he nofun
  next hlt =>
  have hsize := hl.fits e hmem
  have hrest : u64 ((e.1 : Int) + e.2.length - start) = e.1 + e.2.length - start := by
    unfold u64
    omega
  have hget : getHandle handles start length = some (e.2.path, min length (e.1 + e.2.length - start),
      u64 (start - e.1 + e.2.offset)) := by
    rw [getHandle_eq hl.sorted, hfloor, Option.bind_some]
    exact answer_eq hrest (by omega) hlength
  refine ⟨_, hget, ?_, Nat.min_le_left _ _, ?_⟩
  · show 0 < min length _
    omega
  · have hrange : List.range' start (min length (e.1 + e.2.length - start)) =
        (List.range' 0 (min length (e.1 + e.2.length - start))).map (start + ·) := by
      rw [List.map_add_range', Nat.add_zero]
    rw [cells, List.map_map, hrange, List.map_map]
    apply List.map_congr_left
    intro i hi
    have hi' : i < 0 + min length (e.1 + e.2.length - start) := (List.mem_range'_1.mp hi).2
    have hin : start + i < e.1 + e.2.length := by omega
    have hadd : (start : Int) - e.1 + e.2.offset + i = (start + i : Nat) - e.1 + e.2.offset := by omega
    rw [Function.comp_apply, Function.comp_apply, placeAt,
      floor_inside hl hfloor (Nat.le_add_right _ _) hin,
      Option.bind_some, if_pos hin, u64_add_u64, hadd]

theorem walk_spec (hl : Layout handles) : ∀ {fuel start length : Nat}, length ≤ fuel →
    (∀ a, start ≤ a → a < start + length → (placeAt handles a).isSome) →
      ∃ rs, walk handles fuel start length = some rs ∧
        (rs.flatMap cells).map some = (List.range' start length).map (placeAt handles) := by
  intro fuel
  induction fuel with
  | zero =>
    intro start length hfuel _
    obtain rfl := Nat.le_zero.mp hfuel
    exact ⟨[], rfl, rfl⟩
  | succ fuel ih =>
    intro start length hfuel hplace
    rw [walk]
    by_cases hzero : length = 0
    · subst hzero
      exact ⟨[], if_pos rfl, rfl⟩
    have hpos := Nat.pos_of_ne_zero hzero
    obtain ⟨⟨path, covered, realOffset⟩, hget, hcovered, hle, hcells⟩ :=
      getHandle_place hl (hplace start (Nat.le_refl _) (by omega)) hpos
    dsimp only at hcovered hle hcells
    have hplace' : ∀ a, start + covered ≤ a → a < start + covered + (length - covered) →
      (placeAt handles a).isSome :=
      fun a hlo hhi => hplace a (by omega) (by omega)
    obtain ⟨rs, hwalk, hrest⟩ := ih (by omega) hplace'
    refine ⟨(path, covered, realOffset) :: rs, ?_, ?_⟩
    · rw [if_neg hzero, hget]
      dsimp only
      rw [hwalk]
      rfl
    · have hsum : covered + (length - covered) = length := by omega
      have happ : List.range' start covered ++ List.range' (start + covered) (length - covered) =
          List.range' start (covered + (length - covered)) := List.range'_append_1
      rw [List.flatMap_cons, List.map_append, hcells, hrest, ← List.map_append, happ, hsum]

/-- Some handles one behind the other. -/
def entries : Nat → List LowHandle → List (Nat × LowHandle)
  | _, [] => []
  | base, h :: lhs => (base, h) :: entries (base + h.length) lhs

theorem le_of_mem_entries (lhs : List LowHandle) : ∀ {base : Nat}, ∀ e ∈ entries base lhs,
    base ≤ e.1 ∧ e.2 ∈ lhs := by
  induction lhs with
  | nil => exact fun e he => absurd he List.not_mem_nil
  | cons h lhs ih =>
    intro base e he
    obtain rfl | he := List.mem_cons.mp he
    · exact ⟨Nat.le_refl _, List.mem_cons_self⟩
    · obtain ⟨hle, hmem⟩ := ih e he
      exact ⟨(Nat.le_add_right _ _).trans hle, List.mem_cons_of_mem _ hmem⟩

theorem addHandles_eq (lhs : List LowHandle) : ∀ {handles : List (Nat × LowHandle)} {base : Nat},
    (∀ h ∈ lhs, 0 < h.length) → (∀ e ∈ handles, e.1 < base) →
      addHandles handles base lhs = (handles ++ entries base lhs,
        base + (lhs.map LowHandle.length).sum) := by
  induction lhs with
  | nil =>
    intro handles base _ _
    rw [entries, List.append_nil]
    rfl
  | cons h lhs ih =>
    intro handles base hpositive hbelow
    obtain ⟨hpos, hpositive⟩ := List.forall_mem_cons.mp hpositive
    have hadd : addHandle handles h base = handles ++ [(base, h)] := assign_of_lt hbelow
    have hnext : ∀ e ∈ handles ++ [(base, h)], e.1 < base + h.length := by
      intro e he
      obtain he | he := List.mem_append.mp he
      · exact (hbelow e he).trans_le (Nat.le_add_right _ _)
      · obtain rfl := List.mem_singleton.mp he
        exact Nat.lt_add_of_pos_right hpos
    rw [addHandles, hadd, ih hpositive hnext, entries, List.append_assoc, List.map_cons,
      List.sum_cons, Nat.add_assoc]
    rfl

theorem layout_entries (lhs : List LowHandle) (hpositive : ∀ h ∈ lhs, 0 < h.length)
    (hfits : ∀ h ∈ lhs, h.length < 2 ^ 64) : ∀ base, Layout (entries base lhs) := by
  have hfits' : ∀ base, ∀ e ∈ entries base lhs, e.2.length < 2 ^ 64 :=
    fun base e he => hfits e.2 (le_of_mem_entries lhs e he).2
  have hapart : ∀ base, (entries base lhs).Pairwise fun e f => e.1 + e.2.length ≤ f.1 := by
    clear hpositive hfits hfits'
    induction lhs with
    | nil => exact fun _ => List.Pairwise.nil
    | cons h lhs ih =>
      exact fun base => List.pairwise_cons.mpr ⟨fun e he => (le_of_mem_entries lhs e he).1, ih _⟩
  refine fun base => ⟨(hapart base).imp_of_mem fun he _ hef => ?_, hapart base, hfits' base⟩
  have hpos := hpositive _ (le_of_mem_entries lhs _ he).2
  omega

theorem Layout.tail {lhs : List LowHandle} {base : Nat} (h : LowHandle)
    (hl : Layout (entries base (h :: lhs))) :
    Layout (entries (base + h.length) lhs) :=
  ⟨hl.sorted.tail, hl.apart.tail, fun e he => hl.fits e (List.mem_cons_of_mem _ he)⟩

theorem placeAt_entries (lhs : List LowHandle) : ∀ {base i : Nat}, Layout (entries base lhs) →
    i < (VolumeMap.locations lhs).length → placeAt (entries base lhs) (base + i) =
      (VolumeMap.locations lhs)[i]?.map fun c => (c.1, u64 c.2) := by
  induction lhs with
  | nil => exact fun _ hi => absurd hi (Nat.not_lt_zero _)
  | cons h lhs ih =>
    intro base i hl hi
    have hcons : VolumeMap.locations (h :: lhs) = VolumeMap.LowHandle.cells h ++
        VolumeMap.locations lhs := rfl
    have hlen := VolumeMap.length_cells h
    rw [hcons] at hi ⊢
    rw [List.length_append, hlen] at hi
    have hkeys : ∀ e ∈ entries (base + h.length) lhs, base + h.length ≤ e.1 :=
      fun e he => (le_of_mem_entries lhs e he).1
    by_cases hlt : i < h.length
    · have hfloor : floor (entries base (h :: lhs)) (base + i) = some (base, h) :=
        floor_split (l := []) hl.sorted (Nat.le_add_right _ _)
          fun e he => (Nat.add_lt_add_left hlt base).trans_le (hkeys e he)
      rw [placeAt, hfloor, Option.bind_some, if_pos (Nat.add_lt_add_left hlt base),
        List.getElem?_append_left (hlen ▸ hlt), VolumeMap.LowHandle.cells, List.getElem?_map,
          List.getElem?_range' hlt]
      have hoffset : ((base + i : Nat) : Int) - base + h.offset = h.offset + (0 + 1 * i : Nat) := by
        omega
      rw [hoffset]
      rfl
    · obtain ⟨j, rfl⟩ := Nat.exists_eq_add_of_le (Nat.not_lt.mp hlt)
      have hj : j < (VolumeMap.locations lhs).length := by omega
      have hrest := ih (hl.tail h) hj
      rw [List.getElem?_append_right (by omega), hlen, Nat.add_sub_cancel_left, ← hrest, ← Nat.add_assoc]
      obtain ⟨c, hc⟩ : ∃ c, (VolumeMap.locations lhs)[j]? = some c := ⟨_, List.getElem?_eq_getElem hj⟩
      rw [hc] at hrest
      obtain ⟨e, hfloor, -⟩ := Option.bind_eq_some_iff.mp hrest
      rw [placeAt, placeAt, hfloor, entries, floor_cons _ hfloor]

theorem whole_spec {lv : LogicalVolume} {total : Nat} (h : VolumeMap.InRange lv.volumes 0 total) :
    (∀ lh ∈ lv.getLowHandles 0 total, 0 < lh.length ∧ lh.length < 2 ^ 64) ∧
      ((lv.getLowHandles 0 total).map LowHandle.length).sum = total ∧
        ∀ a, a < total → (VolumeMap.locations (lv.getLowHandles 0 total))[a]? =
          (VolumeMap.partAt lv.volumes a).map VolumeMap.located := by
  have hspec : (∀ lh ∈ lv.getLowHandles 0 total, 0 < lh.length) ∧
      (VolumeMap.locations (lv.getLowHandles 0 total)).map some =
        ((List.range' 0 total).map (VolumeMap.partAt lv.volumes)).map (Option.map VolumeMap.located) :=
    VolumeMap.getLowHandles_spec h
  obtain ⟨hpositive, hplace⟩ := hspec
  have hsum : ((lv.getLowHandles 0 total).map LowHandle.length).sum = total := by
    have hlength := congrArg List.length hplace
    rw [List.length_map, VolumeMap.length_locations, List.length_map, List.length_map,
      List.length_range'] at hlength
    exact hlength
  refine ⟨fun lh hlh => ⟨hpositive lh hlh, ?_⟩, hsum, fun a ha => ?_⟩
  · have hle : lh.length ≤ ((lv.getLowHandles 0 total).map LowHandle.length).sum :=
      List.single_le_sum (fun _ _ => Nat.zero_le _) _ (List.mem_map_of_mem hlh)
    have hinside := h.inside
    have hfits := h.fits
    omega
  · have hsome : (VolumeMap.partAt lv.volumes a).isSome :=
      VolumeMap.partAt_isSome (by have := h.inside; omega)
    obtain ⟨p, hp⟩ := Option.isSome_iff_exists.mp hsome
    rw [hp]
    exact VolumeMap.getElem?_of_place hplace ha (by rwa [Nat.zero_add])

/-- The writer of a volume is set up with the handles that the volume returns for all of
itself. -/
theorem setupWriters_eq {lv : LogicalVolume}
    (h : VolumeMap.InRange lv.volumes 0 (lba2Offset lv.getTotalSize)) :
    setupWriters lv = some (entries 0 (lv.getLowHandles 0 (lba2Offset lv.getTotalSize))) := by
  obtain ⟨hlengths, hsum, -⟩ := whole_spec h
  rw [setupWriters, addHandles_eq _ (fun lh hlh => (hlengths lh hlh).1) fun e he =>
    absurd he List.not_mem_nil, hsum,
    Nat.zero_add]
  exact if_neg (not_not.mpr rfl)

theorem placeAt_volume {lv : LogicalVolume} {total a : Nat}
    (h : VolumeMap.InRange lv.volumes 0 total) (ha : a < total) :
    placeAt (entries 0 (lv.getLowHandles 0 total)) a =
      ((VolumeMap.partAt lv.volumes a).map VolumeMap.located).map fun c => (c.1, u64 c.2) := by
  obtain ⟨hlengths, hsum, hplace⟩ := whole_spec h
  have hl := layout_entries _ (fun lh hlh => (hlengths lh hlh).1) (fun lh hlh => (hlengths lh hlh).2) 0
  have hlt : a < (VolumeMap.locations (lv.getLowHandles 0 total)).length := by
    rw [VolumeMap.length_locations, hsum]
    exact ha
  rw [← hplace a ha, ← placeAt_entries _ hl hlt, Nat.zero_add]

/-- The writes of a range go to the places that the reads of the range come from. -/
theorem same_place (lv : LogicalVolume) (offset length : Nat)
    (h : VolumeMap.InRange lv.volumes offset length) :
    ∃ handles rs, setupWriters lv = some handles ∧ walk handles length offset length = some rs ∧
      rs.flatMap cells = (VolumeMap.locations (lv.getLowHandles offset length)).map fun c =>
        (c.1, u64 c.2) := by
  have hsize : VolumeMap.size lv.volumes = lba2Offset lv.getTotalSize :=
    VolumeMap.size_eq_getTotalSize lv
  have hpos := h.positive
  have hinside := h.inside
  have hwhole : VolumeMap.InRange lv.volumes 0 (lba2Offset lv.getTotalSize) :=
    ⟨by omega, by omega, h.fits⟩
  obtain ⟨hlengths, -, -⟩ := whole_spec hwhole
  have hl := layout_entries _ (fun lh hlh => (hlengths lh hlh).1) (fun lh hlh => (hlengths lh hlh).2) 0
  have hplace : ∀ a, a < offset + length →
      placeAt (entries 0 (lv.getLowHandles 0 (lba2Offset lv.getTotalSize))) a =
        ((VolumeMap.partAt lv.volumes a).map VolumeMap.located).map fun c => (c.1, u64 c.2) :=
    fun a ha => placeAt_volume hwhole (by omega)
  have hsome : ∀ a, offset ≤ a → a < offset + length →
      (placeAt (entries 0 (lv.getLowHandles 0 (lba2Offset lv.getTotalSize))) a).isSome := by
    intro a _ ha
    rw [hplace a ha, Option.isSome_map, Option.isSome_map]
    exact VolumeMap.partAt_isSome (by omega)
  obtain ⟨rs, hwalk, hcells⟩ := walk_spec hl (Nat.le_refl length) hsome
  refine ⟨_, rs, setupWriters_eq hwhole, hwalk, ?_⟩
  have hread : (VolumeMap.locations (lv.getLowHandles offset length)).map some =
      ((List.range' offset length).map (VolumeMap.partAt lv.volumes)).map
        (Option.map VolumeMap.located) :=
    (VolumeMap.getLowHandles_spec h).2
  apply List.map_injective_iff.mpr fun _ _ => Option.some.inj
  calc (rs.flatMap cells).map some
      = ((List.range' offset length).map fun a =>
          ((VolumeMap.partAt lv.volumes a).map VolumeMap.located).map fun c => (c.1, u64 c.2)) := by
        rw [hcells]
        exact List.map_congr_left fun a ha => hplace a (List.mem_range'_1.mp ha).2
    _ = ((VolumeMap.locations (lv.getLowHandles offset length)).map some).map
          (Option.map fun c => (c.1, u64 c.2)) := by
        rw [hread, List.map_map, List.map_map]
        rfl
    _ = ((VolumeMap.locations (lv.getLowHandles offset length)).map fun c => (c.1, u64 c.2)).map
      some := by
        rw [List.map_map, List.map_map]
        rfl

/-- A range over two parts, the second one behind the first eight bytes of its file. -/
theorem same_place_two_parts : ∃ handles rs,
    setupWriters ⟨[⟨"/dev/sdb", 0, 8⟩, ⟨"/dev/sdc", 8, 8⟩]⟩ = some handles ∧
      walk handles 200 4000 200 = some rs ∧
      rs.flatMap cells = (VolumeMap.locations (LogicalVolume.getLowHandles
        ⟨[⟨"/dev/sdb", 0, 8⟩, ⟨"/dev/sdc", 8, 8⟩]⟩ 4000 200)).map fun c => (c.1, u64 c.2) :=
  same_place _ 4000 200 ⟨by decide, by decide, by decide⟩

end HandleMap

end Sstoraged
