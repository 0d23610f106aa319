import Sstoraged.DiskWork
import Sstoraged.FifoTraversal

namespace Sstoraged.DiskFlush

open DiskWriter DiskWork HandleMap SortedMap WriteCache AioQueue

variable {B : Type} {ix : LbaIndex}

/-- The bytes of a slice, each with its address on the volume and with the cell it
comes from. -/
def range (s : Slice B) : List (Nat × B × Nat) :=
  (List.range' 0 s.length).map fun i => (s.start + i, s.buf, s.offset + i)

/-- The bytes of a segment. -/
def image (ws : WriteSegment B) : List (Nat × B × Nat) := (slices ws).flatMap range

/-- A byte, with the place of its address. -/
def placed (handles : List (Nat × LowHandle)) (x : Nat × B × Nat) : Option ((String × Nat) × B × Nat) :=
  (placeAt handles x.1).map (·, x.2)

/-- What a call of `pwrite` makes of the disk. -/
def pwrite (mem : B → Nat → UInt8) (disk : Disk) (p : Piece B) : Disk :=
  (bytes p).foldl (fun disk x => Function.update disk x.1 (mem x.2.1 x.2.2)) disk

/-- Write one byte at the place of its address. -/
def store (handles : List (Nat × LowHandle)) (mem : B → Nat → UInt8) (disk : Disk)
    (x : Nat × B × Nat) : Disk :=
  match placeAt handles x.1 with
  | none => disk
  | some place => Function.update disk place (mem x.2.1 x.2.2)

/-- The buffers of a segment hold all of it, and all of it has a place. -/
def Whole (handles : List (Nat × LowHandle)) (ws : WriteSegment B) : Prop :=
  lacking ws = 0 ∧ ∀ x ∈ image ws, (placed handles x).isSome

/-- A flush from `c` to `c'`: the segments `done` were popped and are written at their
blocks, of the first one that is left `part` is written, and nothing else is. -/
structure Flush (handles : List (Nat × LowHandle)) (c c' : WriteCache B ix) (log : List (Piece B))
    (done : List Nat)
    (part : List (Nat × B × Nat)) : Prop where
  queue : originals c = done ++ originals c'
  kept : c'.ws = c.ws
  whole : ∀ p ∈ done, Whole handles (c.ws p)
  inside : part <+: (originals c').head?.elim [] fun p => image (c.ws p)
  written : (log.flatMap bytes).map some = (done.flatMap (fun p => image (c.ws p)) ++ part).map
    (placed handles)
  disk : ∀ mem disk, log.foldl (pwrite mem) disk =
    (done.flatMap (fun p => image (c.ws p)) ++ part).foldl (store handles mem) disk

/-- What `doWork` promises: the cache is empty, or the segment that failed is the first
original in it. -/
def Flushed (handles : List (Nat × LowHandle)) (c : WriteCache B ix) (ok : Bool) (c' : WriteCache B ix)
    (log : List (Piece B)) : Prop :=
  ∃ done part, Flush handles c c' log done part ∧ if ok then c'.fifo = [] else originals c' ≠ []

/-- The last handle that begins at or before an address reaches up to it. -/
def Near (handles : List (Nat × LowHandle)) (a : Nat) : Prop :=
  ∀ e, floor handles a = some e → a ≤ e.1 + e.2.length

/-- The condition: no segment that the writer comes to begins behind the end of the last
handle before it. -/
def Approached (handles : List (Nat × LowHandle)) : List (WriteSegment B) → Prop
  | [] => True
  | ws :: wss =>
    (image ws ≠ [] → Near handles (lba2Offset ws.lba)) ∧ (Whole handles ws → Approached handles wss)

/-- Pieces that go to the places of the bytes of `xs`, all of them if `done`. -/
structure Follows (handles : List (Nat × LowHandle)) (xs : List (Nat × B × Nat))
    (ps : List (Piece B)) (done : Bool) :
    Prop where
  initial : (ps.flatMap bytes).map some <+: xs.map (placed handles)
  all : done = true → (ps.flatMap bytes).map some = xs.map (placed handles)
  done : (∀ x ∈ xs, (placed handles x).isSome) → done = true

variable {handles : List (Nat × LowHandle)} {xs ys : List (Nat × B × Nat)} {ps qs log : List (Piece B)}
  {done ok : Bool} {start length : Nat} {c c' : WriteCache B ix}

theorem Follows.nil : Follows handles ([] : List (Nat × B × Nat)) [] true :=
  ⟨List.prefix_rfl, fun _ => rfl, fun _ => rfl⟩

theorem Follows.append {done' : Bool} (h : Follows handles xs ps true)
    (h' : Follows handles ys qs done') :
    Follows handles (xs ++ ys) (ps ++ qs) done' := by
  have hall := h.all rfl
  refine ⟨?_, fun hdone => ?_, fun hsome => h'.done fun x hx => hsome x (List.mem_append_right _ hx)⟩
  · rw [List.flatMap_append, List.map_append, List.map_append, hall]
    exact (List.prefix_append_right_inj _).mpr h'.initial
  · rw [List.flatMap_append, List.map_append, List.map_append, hall, h'.all hdone]

theorem Follows.stop (h : Follows handles xs ps false) (ys : List (Nat × B × Nat)) :
    Follows handles (xs ++ ys) ps false := by
  refine ⟨?_, nofun, fun hsome => h.done fun x hx => hsome x (List.mem_append_left _ hx)⟩
  rw [List.map_append]
  exact h.initial.trans (List.prefix_append _ _)

theorem Follows.isSome (h : Follows handles xs ps true) : ∀ x ∈ xs, (placed handles x).isSome := by
  intro x hx
  have hmem : placed handles x ∈ (ps.flatMap bytes).map some := by
    rw [h.all rfl]
    exact List.mem_map_of_mem hx
  obtain ⟨y, -, hy⟩ := List.mem_map.mp hmem
  rw [← hy]
  rfl

theorem length_range (s : Slice B) : (range s).length = s.length := by
  rw [range, List.length_map, List.length_range']

theorem range_split (b : B) (start offset : Nat) {n segment : Nat} (h : n ≤ segment) :
    range ⟨b, start, offset, segment⟩ =
      range ⟨b, start, offset, n⟩ ++ range ⟨b, start + n, offset + n, segment - n⟩ := by
  obtain ⟨m, rfl⟩ := Nat.exists_eq_add_of_le h
  unfold range
  dsimp only
  rw [Nat.add_sub_cancel_left, ← List.range'_append_1, List.map_append, Nat.zero_add]
  congr 1
  have hshift : List.range' n m = (List.range' 0 m).map (n + ·) := by
    rw [List.map_add_range', Nat.add_zero]
  rw [hshift, List.map_map]
  apply List.map_congr_left
  intro i _
  simp only [Function.comp_apply, Nat.add_assoc]

theorem isSome_placed (x : Nat × B × Nat) : (placed handles x).isSome = (placeAt handles x.1).isSome :=
  Option.isSome_map

theorem near_succ (hl : Layout handles) {a : Nat} (h : (placeAt handles a).isSome) :
    Near handles (a + 1) := by
  intro e hfloor
  obtain ⟨place, hplace⟩ := Option.isSome_iff_exists.mp h
  obtain ⟨f, hf, hin⟩ := Option.bind_eq_some_iff.mp hplace
  split at hin
  swap
  · exact absurd hin nofun
  next hlt =>
  obtain ⟨o, lh⟩ := e
  obtain ⟨l, r, rfl, hle, hr⟩ := exists_split_of_floor hl.sorted hfloor
  by_cases hbegin : o = a + 1
  · rw [← hbegin]
    exact Nat.le_add_right _ _
  · -- the address before falls to the same handle
    have hsame : floor (l ++ (o, lh) :: r) a = some (o, lh) :=
      floor_split hl.sorted (by omega) fun g hg => (Nat.lt_succ_self a).trans (hr g hg)
    obtain rfl := Option.some.inj (hf.symm.trans hsame)
    exact hlt

theorem near_add (hl : Layout handles) {b : B} {offset segment : Nat}
    (hstart : 0 < segment ∨ Near handles start)
    (h : ∀ x ∈ range ⟨b, start, offset, segment⟩, (placed handles x).isSome) :
    Near handles (start + segment) := by
  cases segment with
  | zero => exact hstart.resolve_left (Nat.lt_irrefl 0)
  | succ n =>
    refine near_succ hl ?_
    have hlast := h (start + n, b, offset + n)
      (List.mem_map.mpr ⟨n, List.mem_range'_1.mpr (by dsimp only; omega), rfl⟩)
    rwa [isSome_placed] at hlast

theorem placed_of_getHandle (hl : Layout handles) (hnear : Near handles start) {r : String × Nat × Nat}
    (h : getHandle handles start length = some r) : (placeAt handles start).isSome := by
  rw [getHandle_eq hl.sorted] at h
  obtain ⟨e, hfloor, hanswer⟩ := Option.bind_eq_some_iff.mp h
  have hlt : start < e.1 + e.2.length := by
    refine (hnear e hfloor).lt_of_ne fun hend => ?_
    rw [answer_end hend] at hanswer
    exact absurd hanswer nofun
  rw [placeAt, hfloor, Option.bind_some, if_pos hlt]
  rfl

theorem bytes_placed {b : B} {offset covered realOffset : Nat} {path : String}
    (h : (cells (path, covered, realOffset)).map some =
      (List.range' start covered).map (placeAt handles)) :
    (bytes ⟨start, b, offset, covered, path, realOffset⟩).map some =
      (range ⟨b, start, offset, covered⟩).map (placed handles) := by
  have hshift : List.range' start covered = (List.range' 0 covered).map (start + ·) := by
    rw [List.map_add_range', Nat.add_zero]
  rw [hshift, cells, List.map_map, List.map_map, List.map_inj_left] at h
  rw [bytes, range, List.map_map, List.map_map]
  apply List.map_congr_left
  intro i hi
  have hplace := h i hi
  rw [Function.comp_apply, Function.comp_apply] at hplace
  rw [Function.comp_apply, Function.comp_apply, placed, ← hplace]
  rfl

theorem resolve_follows (hl : Layout handles) (b : B) : ∀ {fuel start offset segment : Nat},
    segment ≤ fuel →
    (segment ≠ 0 → Near handles start) →
      Follows handles (range ⟨b, start, offset, segment⟩) (resolve handles b fuel start offset segment).1
        (resolve handles b fuel start offset segment).2 := by
  intro fuel
  induction fuel with
  | zero =>
    intro start offset segment hfuel _
    obtain rfl := Nat.le_zero.mp hfuel
    exact Follows.nil
  | succ fuel ih =>
    intro start offset segment hfuel hnear
    rw [resolve]
    by_cases hzero : segment = 0
    · subst hzero
      exact Follows.nil
    rw [if_neg hzero]
    have hpos := Nat.pos_of_ne_zero hzero
    have hfirst : (start, b, offset) ∈ range ⟨b, start, offset, segment⟩ :=
      List.mem_map.mpr ⟨0, List.mem_range'_1.mpr ⟨Nat.le_refl _, by dsimp only; omega⟩, rfl⟩
    split
    · next hget =>
      -- an address with a place is answered
      refine ⟨List.nil_prefix, fun h => absurd h Bool.false_ne_true, fun hsome => ?_⟩
      have hplace := hsome _ hfirst
      rw [isSome_placed] at hplace
      obtain ⟨r, hr, -⟩ := getHandle_place hl hplace hpos
      exact absurd (hr.symm.trans hget) (Option.some_ne_none _)
    · next path covered realOffset hget =>
      obtain ⟨r, hr, hcovered, hle, hcells⟩ :=
        getHandle_place hl (placed_of_getHandle hl (hnear hzero) hget) hpos
      obtain rfl := Option.some.inj (hget.symm.trans hr)
      dsimp only at hcovered hle hcells
      have hbytes := @bytes_placed B handles start b offset covered realOffset path hcells
      have hpiece : Follows handles (range ⟨b, start, offset, covered⟩)
          [⟨start, b, offset, covered, path, realOffset⟩] true := by
        rw [← List.flatMap_singleton bytes] at hbytes
        exact ⟨hbytes ▸ List.prefix_rfl, fun _ => hbytes, fun _ => rfl⟩
      rw [range_split b start offset hle]
      exact hpiece.append (ih (by omega) fun _ => near_add hl (.inl hcovered) hpiece.isSome)

theorem pieces_follows (hl : Layout handles) : ∀ (cbufs : List B) {start length dsOffset : Nat},
    ((slicesFrom start length dsOffset cbufs).flatMap range ≠ [] → Near handles start) →
      Follows handles ((slicesFrom start length dsOffset cbufs).flatMap range)
        (pieces handles (slicesFrom start length dsOffset cbufs)).1
        (pieces handles (slicesFrom start length dsOffset cbufs)).2 := by
  intro cbufs
  induction cbufs with
  | nil => exact fun _ => Follows.nil
  | cons b cbufs ih =>
    intro start length dsOffset hnear
    rw [slicesFrom] at hnear ⊢
    generalize min length (u64 ((commonBufSize : Int) - dsOffset)) = segment at hnear ⊢
    rw [List.flatMap_cons] at hnear ⊢
    have hrange : segment ≠ 0 → range ⟨b, start, dsOffset, segment⟩ ≠ [] := fun hne hnil =>
      hne ((length_range _).symm.trans (congrArg List.length hnil))
    have hfirst := @resolve_follows B handles hl b segment start dsOffset segment (Nat.le_refl segment)
      fun hne => hnear (List.append_ne_nil_of_left_ne_nil (hrange hne) _)
    rw [pieces]
    split
    · next ps hresolve =>
      rw [hresolve] at hfirst
      exact hfirst.stop _
    · next ps hresolve =>
      rw [hresolve] at hfirst
      refine hfirst.append (ih fun hne => near_add hl ?_ hfirst.isSome)
      obtain rfl | hpos := Nat.eq_zero_or_pos segment
      · exact .inr (hnear (List.append_ne_nil_of_right_ne_nil _ hne))
      · exact .inl hpos

theorem head_image : ∀ (cbufs : List B) {start length dsOffset : Nat},
    (slicesFrom start length dsOffset cbufs).flatMap range ≠ [] →
      ∃ b offset xs, (slicesFrom start length dsOffset cbufs).flatMap range =
        (start, b, offset) :: xs := by
  intro cbufs
  induction cbufs with
  | nil => exact fun hne => absurd rfl hne
  | cons b cbufs ih =>
    intro start length dsOffset hne
    rw [slicesFrom] at hne ⊢
    generalize min length (u64 ((commonBufSize : Int) - dsOffset)) = segment at hne ⊢
    rw [List.flatMap_cons] at hne ⊢
    cases segment with
    | zero => exact ih hne
    | succ n => exact ⟨b, dsOffset, _, rfl⟩

theorem bytes_of_far (hl : Layout handles) (hfar : ¬ Near handles start) :
    ∀ (cbufs : List B) {length dsOffset : Nat},
    start + length ≤ 2 ^ 64 → (slicesFrom start length dsOffset cbufs).flatMap range ≠ [] →
      (pieces handles (slicesFrom start length dsOffset cbufs)).1.flatMap bytes ≠ [] := by
  obtain ⟨e, hfloor, hbehind⟩ : ∃ e, floor handles start = some e ∧ e.1 + e.2.length < start := by
    unfold Near at hfar
    push Not at hfar
    exact hfar
  intro cbufs
  induction cbufs with
  | nil => exact fun _ hne => absurd rfl hne
  | cons b cbufs ih =>
    intro length dsOffset hfits hne
    rw [slicesFrom] at hne ⊢
    have hle := Nat.min_le_left length (u64 ((commonBufSize : Int) - dsOffset))
    generalize min length (u64 ((commonBufSize : Int) - dsOffset)) = segment at hle hne ⊢
    rw [List.flatMap_cons] at hne
    cases segment with
    | zero => exact ih (by omega) hne
    | succ n =>
      have hrest : 0 < u64 ((e.1 : Int) + e.2.length - start) := by
        unfold u64
        omega
      have hget : getHandle handles start (n + 1) = some (e.2.path,
          min (n + 1) (u64 ((e.1 : Int) + e.2.length - start)), u64 (start - e.1 + e.2.offset)) := by
        rw [getHandle_eq hl.sorted, hfloor, Option.bind_some]
        exact answer_eq rfl hrest (Nat.succ_pos n)
      obtain ⟨m, hm⟩ : ∃ m, min (n + 1) (u64 ((e.1 : Int) + e.2.length - start)) = m + 1 :=
        Nat.exists_eq_succ_of_ne_zero (by omega)
      rw [hm] at hget
      obtain ⟨ps, hps⟩ : ∃ ps, (pieces handles
          (⟨b, start, dsOffset, n + 1⟩ :: slicesFrom (start + (n + 1)) (length - (n + 1)) 0 cbufs)).1 =
            ⟨start, b, dsOffset, m + 1, e.2.path, u64 (start - e.1 + e.2.offset)⟩ :: ps := by
        rw [pieces, resolve, if_neg (Nat.succ_ne_zero n), hget]
        split
        · next h => exact ⟨_, (congrArg Prod.fst h).symm⟩
        · next h =>
          obtain ⟨rfl, -⟩ := Prod.mk.inj h
          exact ⟨_, rfl⟩
      rw [hps, List.flatMap_cons]
      exact List.append_ne_nil_of_left_ne_nil (List.cons_ne_nil _ _) _

theorem near_of_placed {a : Nat} (h : (placeAt handles a).isSome) : Near handles a := by
  intro e hfloor
  rw [placeAt, hfloor, Option.bind_some] at h
  split at h
  · next hlt => exact hlt.le
  · exact absurd h Bool.false_ne_true

/-- What is written of a segment goes to its blocks only if the segment does not begin
behind the end of a handle. -/
theorem near_of_initial (hl : Layout handles) {ws : WriteSegment B}
    (hfits : lba2Offset ws.lba + lba2Offset ws.transferLength ≤ 2 ^ 64)
    (hinitial : ((performed handles ws).2.flatMap bytes).map some <+: (image ws).map (placed handles))
    (hne : image ws ≠ []) : Near handles (lba2Offset ws.lba) := by
  by_contra hfar
  obtain ⟨b, offset, xs, himage⟩ := head_image ws.cbufs hne
  obtain ⟨y, ys, hbytes⟩ := List.exists_cons_of_ne_nil (bytes_of_far hl hfar ws.cbufs hfits hne)
  have hlog : (performed handles ws).2.flatMap bytes = y :: ys := hbytes
  have hhead : image ws = (lba2Offset ws.lba, b, offset) :: xs := himage
  rw [hlog, hhead] at hinitial
  have hplace := (List.cons_prefix_cons.mp hinitial).1
  refine hfar (near_of_placed ?_)
  rw [← isSome_placed (lba2Offset ws.lba, b, offset), ← hplace]
  rfl

theorem Whole.near {ws : WriteSegment B} (h : Whole handles ws) (hne : image ws ≠ []) :
    Near handles (lba2Offset ws.lba) := by
  obtain ⟨b, offset, xs, himage⟩ := head_image ws.cbufs hne
  have hhead : image ws = (lba2Offset ws.lba, b, offset) :: xs := himage
  refine near_of_placed ?_
  rw [← isSome_placed (lba2Offset ws.lba, b, offset)]
  apply h.2
  rw [hhead]
  exact List.mem_cons_self

theorem performed_follows (hl : Layout handles) (ws : WriteSegment B)
    (hnear : image ws ≠ [] → Near handles (lba2Offset ws.lba)) :
    Follows handles (image ws) (performed handles ws).2 (pieces handles (slices ws)).2 :=
  pieces_follows hl ws.cbufs hnear

theorem performed_eq_true_iff (hl : Layout handles) {ws : WriteSegment B}
    (hnear : image ws ≠ [] → Near handles (lba2Offset ws.lba)) : (performed handles ws).1 = true ↔
      Whole handles ws := by
  have hf := performed_follows hl ws hnear
  rw [performed, Bool.and_eq_true_iff]
  constructor
  · rintro ⟨hdone, hlacking⟩
    rw [hdone] at hf
    exact ⟨of_decide_eq_true hlacking, hf.isSome⟩
  · rintro ⟨hlacking, hsome⟩
    exact ⟨hf.done hsome, decide_eq_true hlacking⟩

theorem written_of_segment (hl : Layout handles) {ws : WriteSegment B}
    (hnear : image ws ≠ [] → Near handles (lba2Offset ws.lba)) {as as' : List Answer}
    (h : doSegment handles ws as = some (true, log, as')) :
    Whole handles ws ∧ (log.flatMap bytes).map some = (image ws).map (placed handles) := by
  obtain ⟨hdone, hlog⟩ := (doSegment_writes h).ok rfl
  refine ⟨(performed_eq_true_iff hl hnear).mp hdone, ?_⟩
  rw [hlog]
  exact (performed_follows hl ws hnear).all (Bool.and_eq_true_iff.mp hdone).1

theorem part_of_segment (hl : Layout handles) {ws : WriteSegment B}
    (hnear : image ws ≠ [] → Near handles (lba2Offset ws.lba)) {as as' : List Answer}
    (h : doSegment handles ws as = some (ok, log, as')) :
    ∃ part, part <+: image ws ∧ (log.flatMap bytes).map some = part.map (placed handles) := by
  have hinitial := ((doSegment_writes h).initial.map some).trans (performed_follows hl ws hnear).initial
  obtain ⟨part, hpart, heq⟩ := List.prefix_map_iff.mp hinitial
  exact ⟨part, hpart, heq⟩

theorem foldl_pwrite (mem : B → Nat → UInt8) (ps : List (Piece B)) (disk : Disk) :
    ps.foldl (pwrite mem) disk =
    (ps.flatMap bytes).foldl (fun disk x => Function.update disk x.1 (mem x.2.1 x.2.2)) disk := by
  rw [List.foldl_flatMap]
  rfl

theorem disk_of_written (mem : B → Nat → UInt8) (disk : Disk) {ps : List (Piece B)}
    (h : (ps.flatMap bytes).map some = xs.map (placed handles)) :
    ps.foldl (pwrite mem) disk = xs.foldl (store handles mem) disk := by
  rw [foldl_pwrite]
  generalize ps.flatMap bytes = ys at h
  induction xs generalizing ys disk with
  | nil =>
    obtain rfl := List.map_eq_nil_iff.mp h
    rfl
  | cons x xs ih =>
    cases ys with
    | nil => exact absurd h nofun
    | cons y ys =>
      rw [List.map_cons, List.map_cons] at h
      obtain ⟨hy, hys⟩ := List.cons.inj h
      obtain ⟨place, hplace, rfl⟩ := Option.map_eq_some_iff.mp hy.symm
      have hstore : store handles mem disk x = Function.update disk place (mem x.2.1 x.2.2) := by
        rw [store, hplace]
      rw [List.foldl_cons, List.foldl_cons, hstore]
      exact ih _ ys hys

theorem Flush.of_written {done : List Nat} {part : List (Nat × B × Nat)}
    (hqueue : originals c = done ++ originals c')
    (hkept : c'.ws = c.ws) (hwhole : ∀ p ∈ done, Whole handles (c.ws p))
    (hinside : part <+: (originals c').head?.elim [] fun p => image (c.ws p))
    (hwritten : (log.flatMap bytes).map some = (done.flatMap (fun p => image (c.ws p)) ++ part).map
      (placed handles)) :
    Flush handles c c' log done part :=
  ⟨hqueue, hkept, hwhole, hinside, hwritten, fun mem disk => disk_of_written mem disk hwritten⟩

theorem Flush.cons {p : Nat} {rest done : List Nat} {part : List (Nat × B × Nat)}
    (hqueue : originals c = p :: rest)
    (hp : Whole handles (c.ws p)) (hlog : (log.flatMap bytes).map some =
      (image (c.ws p)).map (placed handles))
    {log' : List (Piece B)} (h : Flush handles c.front.2.pop c' log' done part) :
    Flush handles c c' (log ++ log') (p :: done) part := by
  have hws : c.front.2.pop.ws = c.ws := by rw [pop_ws, front_ws]
  obtain ⟨hrest, hkept, hwhole, hinside, hwritten, -⟩ := h
  rw [hws] at hkept hwhole hinside hwritten
  refine Flush.of_written ?_ hkept (List.forall_mem_cons.mpr ⟨hp, hwhole⟩) hinside ?_
  · rw [front_pop, hqueue, List.tail_cons] at hrest
    rw [hqueue, hrest, List.cons_append]
  · rw [List.flatMap_append, List.map_append, hlog, hwritten, List.flatMap_cons, List.append_assoc,
      ← List.map_append]

theorem flushed_nil (h : c.fifo = []) : Flushed handles c true c [] := by
  have hnil : originals c = [] := by rw [originals, h, List.filter_nil]
  refine ⟨[], [], Flush.of_written rfl rfl (fun p hp => absurd hp List.not_mem_nil) ?_ rfl, h⟩
  rw [hnil]
  exact List.prefix_rfl

theorem flushed_of_approached (hl : Layout handles) (fuel : Nat) :
    ∀ {c : WriteCache B ix} {as : List Answer}
    {log : List (Piece B)}, Approached handles ((originals c).map c.ws) →
      doWork handles fuel c as = some (ok, c', log) → Flushed handles c ok c' log := by
  induction fuel with
  | zero =>
    intro c as log _ h
    rw [doWork] at h
    split at h
    · next hempty =>
      obtain ⟨rfl, rfl, rfl⟩ := Prod.mk.inj (Option.some.inj h) |>.imp_right Prod.mk.inj
      exact flushed_nil (List.isEmpty_iff.mp hempty)
    · exact absurd h nofun
  | succ fuel ih =>
    intro c as log happroached h
    rw [doWork] at h
    split at h
    · next hempty =>
      obtain ⟨rfl, rfl, rfl⟩ := Prod.mk.inj (Option.some.inj h) |>.imp_right Prod.mk.inj
      exact flushed_nil (List.isEmpty_iff.mp hempty)
    split at h
    · exact absurd h nofun
    next p c₁ hfront =>
    obtain ⟨rest, hqueue⟩ := List.head?_eq_some_iff.mp
      ((front_originals c).1.symm.trans (congrArg Prod.fst hfront))
    have hc₁ : c₁ = c.front.2 := (congrArg Prod.snd hfront).symm
    have hws : c₁.ws = c.ws := by rw [hc₁, front_ws]
    rw [hws] at h
    rw [hqueue] at happroached
    obtain ⟨hnear, hrest⟩ := happroached
    split at h
    · exact absurd h nofun
    · next log' as' hsegment =>
      obtain ⟨rfl, rfl, rfl⟩ := Prod.mk.inj (Option.some.inj h) |>.imp_right Prod.mk.inj
      obtain ⟨part, hpart, hlog⟩ := part_of_segment hl hnear hsegment
      have hkeep : originals c₁ = p :: rest := by rw [hc₁, (front_originals c).2, hqueue]
      refine ⟨[], part, Flush.of_written ?_ hws (fun p hp => absurd hp List.not_mem_nil) ?_ hlog, ?_⟩
      · rw [hkeep, hqueue, List.nil_append]
      · rw [hkeep]
        exact hpart
      · rw [hkeep]
        exact List.cons_ne_nil _ _
    · next log' as' hsegment =>
      obtain ⟨⟨ok', c'', log''⟩, hwork, heq⟩ := Option.map_eq_some_iff.mp h
      obtain ⟨rfl, rfl, rfl⟩ := Prod.mk.inj heq |>.imp_right Prod.mk.inj
      obtain ⟨hp, hlog⟩ := written_of_segment hl hnear hsegment
      rw [hc₁] at hwork
      have hwhole : Approached handles ((originals c.front.2.pop).map c.front.2.pop.ws) := by
        rw [front_pop, hqueue, List.tail_cons, pop_ws, front_ws]
        exact hrest hp
      obtain ⟨done, part, hflush, hend⟩ := ih hwhole hwork
      exact ⟨p :: done, part, hflush.cons hqueue hp hlog, hend⟩

theorem doWork_whole {p : Nat} {rest : List Nat} (hqueue : originals c = p :: rest) (fuel : Nat)
    (as : List Answer) :
    doWork handles (fuel + 1) c (whole (performed handles (c.ws p)).2 ++ as) =
      if (performed handles (c.ws p)).1 then
        (doWork handles fuel c.front.2.pop as).map fun (ok, c', log) =>
          (ok, c', (performed handles (c.ws p)).2 ++ log)
      else some (false, c.front.2, (performed handles (c.ws p)).2) := by
  have hne : c.fifo.isEmpty = false := by
    rw [List.isEmpty_eq_false_iff]
    intro hnil
    rw [originals, hnil, List.filter_nil] at hqueue
    exact absurd hqueue.symm (List.cons_ne_nil _ _)
  have hfront : c.front = (some p, c.front.2) := by
    exact Prod.ext ((front_originals c).1.trans (congrArg List.head? hqueue)) rfl
  rw [doWork, hne, hfront]
  simp only [Bool.false_eq_true, if_false, front_ws]
  rw [doSegment_whole]
  cases (performed handles (c.ws p)).1 with
  | false => rfl
  | true => rfl

theorem fifo_lt {p : Nat} {rest : List Nat} (hqueue : originals c = p :: rest) :
    c.front.2.pop.fifo.length < c.fifo.length := by
  have hpos : 0 < (originals c.front.2).length := by
    rw [(front_originals c).2, hqueue]
    exact Nat.succ_pos _
  have hfilter : (originals c.front.2).length ≤ c.front.2.fifo.length := List.length_filter_le _ _
  have hsuffix := (FifoTraversal.suffix_front c).length_le
  rw [pop_fifo_eq, List.length_tail]
  omega

theorem queue_of_ended (h : FifoTraversal.Ended c) (hne : c.fifo ≠ []) :
    ∃ p rest, originals c = p :: rest := by
  obtain ⟨p, hp⟩ := Option.ne_none_iff_exists'.mp (mt List.getLast?_eq_none_iff.mp hne)
  refine List.exists_cons_of_ne_nil (List.ne_nil_of_mem (a := p)
    (List.mem_filter.mpr ⟨List.mem_of_getLast? hp, ?_⟩))
  rw [h p hp]
  rfl

theorem exists_run (handles : List (Nat × LowHandle)) (fuel : Nat) :
    ∀ {c : WriteCache B ix}, FifoTraversal.Ended c →
    c.fifo.length ≤ fuel → ∃ as ok c' log, doWork handles fuel c as = some (ok, c', log) := by
  induction fuel with
  | zero =>
    intro c _ hfuel
    have hnil := List.eq_nil_of_length_eq_zero (Nat.le_zero.mp hfuel)
    exact ⟨[], true, c, [], by rw [doWork, hnil]; rfl⟩
  | succ fuel ih =>
    intro c hended hfuel
    by_cases hnil : c.fifo = []
    · exact ⟨[], true, c, [], by rw [doWork, hnil]; rfl⟩
    obtain ⟨p, rest, hqueue⟩ := queue_of_ended hended hnil
    obtain ⟨as, ok, c', log, hrun⟩ := ih hended.pop (by have := fifo_lt hqueue; omega)
    have hpass := @doWork_whole B ix handles c p rest hqueue fuel as
    split at hpass
    · rw [hrun] at hpass
      exact ⟨_, _, _, _, hpass⟩
    · exact ⟨_, _, _, _, hpass⟩

theorem length_queue (fuel : Nat) : ∀ {c : WriteCache B ix} {as : List Answer} {log : List (Piece B)},
    doWork handles fuel c as = some (ok, c', log) → (originals c').length ≤ (originals c).length := by
  induction fuel with
  | zero =>
    intro c as log h
    rw [doWork] at h
    split at h
    · obtain ⟨rfl, rfl, rfl⟩ := Prod.mk.inj (Option.some.inj h) |>.imp_right Prod.mk.inj
      exact Nat.le_refl _
    · exact absurd h nofun
  | succ fuel ih =>
    intro c as log h
    rw [doWork] at h
    split at h
    · obtain ⟨rfl, rfl, rfl⟩ := Prod.mk.inj (Option.some.inj h) |>.imp_right Prod.mk.inj
      exact Nat.le_refl _
    split at h
    · exact absurd h nofun
    next p c₁ hfront =>
    have hc₁ : c₁ = c.front.2 := (congrArg Prod.snd hfront).symm
    split at h
    · exact absurd h nofun
    · obtain ⟨rfl, rfl, rfl⟩ := Prod.mk.inj (Option.some.inj h) |>.imp_right Prod.mk.inj
      rw [hc₁, (front_originals c).2]
    · obtain ⟨⟨ok', c'', log''⟩, hwork, heq⟩ := Option.map_eq_some_iff.mp h
      obtain ⟨rfl, rfl, rfl⟩ := Prod.mk.inj heq |>.imp_right Prod.mk.inj
      have hle := ih hwork
      rw [hc₁, front_pop, List.length_tail] at hle
      exact hle.trans (Nat.sub_le _ _)

theorem Flush.head {p : Nat} {rest done : List Nat} {part : List (Nat × B × Nat)}
    (hqueue : originals c = p :: rest)
    (hlt : (originals c').length < (originals c).length) (h : Flush handles c c' log done part) :
    ∃ done', done = p :: done' ∧ Whole handles (c.ws p) := by
  cases done with
  | nil =>
    rw [h.queue, List.nil_append] at hlt
    exact absurd hlt (Nat.lt_irrefl _)
  | cons q done' =>
    have hcons := h.queue
    rw [hqueue, List.cons_append] at hcons
    obtain ⟨rfl, -⟩ := List.cons.inj hcons
    exact ⟨done', rfl, h.whole _ List.mem_cons_self⟩

theorem Flush.tail {p : Nat} {rest done : List Nat} {part : List (Nat × B × Nat)}
    (hqueue : originals c = p :: rest)
    (hlog : (log.flatMap bytes).map some = (image (c.ws p)).map (placed handles)) {log' : List (Piece B)}
    (h : Flush handles c c' (log ++ log') (p :: done) part) :
    Flush handles c.front.2.pop c' log' done part := by
  have hws : c.front.2.pop.ws = c.ws := by rw [pop_ws, front_ws]
  obtain ⟨hrest, hkept, hwhole, hinside, hwritten, -⟩ := h
  rw [List.flatMap_append, List.map_append, hlog, List.flatMap_cons, List.append_assoc,
    List.map_append] at hwritten
  rw [← hws] at hkept hinside hwritten
  refine Flush.of_written ?_ hkept (fun q hq => ?_) hinside (List.append_cancel_left hwritten)
  · rw [hqueue, List.cons_append] at hrest
    rw [front_pop, hqueue]
    exact (List.cons.inj hrest).2
  · rw [hws]
    exact hwhole q (List.mem_cons_of_mem p hq)

theorem approached_of_flushed (hl : Layout handles) (fuel : Nat) :
    ∀ {c : WriteCache B ix}, FifoTraversal.Ended c →
    c.fifo.length ≤ fuel →
    (∀ p ∈ originals c, lba2Offset (c.ws p).lba + lba2Offset (c.ws p).transferLength ≤ 2 ^ 64) →
    (∀ as ok c' log, doWork handles fuel c as = some (ok, c', log) → Flushed handles c ok c' log) →
      Approached handles ((originals c).map c.ws) := by
  induction fuel with
  | zero =>
    intro c _ hfuel _ _
    have hnil := List.eq_nil_of_length_eq_zero (Nat.le_zero.mp hfuel)
    rw [originals, hnil]
    trivial
  | succ fuel ih =>
    intro c hended hfuel hfits h
    by_cases hnil : c.fifo = []
    · rw [originals, hnil]
      trivial
    obtain ⟨p, rest, hqueue⟩ := queue_of_ended hended hnil
    have hlt := fifo_lt hqueue
    have hws : c.front.2.pop.ws = c.ws := by rw [pop_ws, front_ws]
    have hpop : originals c.front.2.pop = rest := by rw [front_pop, hqueue, List.tail_cons]
    have hpass := @doWork_whole B ix handles c p rest hqueue fuel
    rw [hqueue] at hfits ⊢
    obtain ⟨hfit, hfits⟩ := List.forall_mem_cons.mp hfits
    cases hperformed : (performed handles (c.ws p)).1 with
    | false =>
      simp only [hperformed, Bool.false_eq_true, if_false] at hpass
      obtain ⟨done, part, hflush, -⟩ := h _ _ _ _ (hpass [])
      have hkeep := (front_originals c).2
      have hdone : done = [] := by
        have hlen := congrArg List.length hflush.queue
        rw [hkeep, List.length_append] at hlen
        exact List.eq_nil_of_length_eq_zero (by omega)
      subst hdone
      have hpart := hflush.inside
      rw [hkeep, hqueue] at hpart
      have hnear : image (c.ws p) ≠ [] → Near handles (lba2Offset (c.ws p).lba) := by
        refine near_of_initial hl hfit ?_
        rw [hflush.written, List.flatMap_nil, List.nil_append]
        exact hpart.map _
      refine ⟨hnear, fun hwhole => ?_⟩
      exact absurd (hperformed.symm.trans ((performed_eq_true_iff hl hnear).mpr hwhole)) Bool.noConfusion
    | true =>
      simp only [hperformed, if_true] at hpass
      have hhead : ∀ {as : List Answer} {ok : Bool} {c' : WriteCache B ix} {log : List (Piece B)},
          doWork handles fuel c.front.2.pop as = some (ok, c', log) →
            Whole handles (c.ws p) ∧ ∃ done part, Flush handles c c'
              ((performed handles (c.ws p)).2 ++ log)
              (p :: done) part ∧ if ok then c'.fifo = [] else originals c' ≠ [] := by
        intro as ok c' log hrun
        have hrun' := hpass as
        rw [hrun] at hrun'
        obtain ⟨done, part, hflush, hend⟩ := h _ _ _ _ hrun'
        have hless : (originals c').length < (originals c).length := by
          have hle := length_queue fuel hrun
          rw [hpop] at hle
          rw [hqueue]
          exact Nat.lt_succ_of_le hle
        obtain ⟨done, rfl, hwhole⟩ := hflush.head hqueue hless
        exact ⟨hwhole, done, part, hflush, hend⟩
      obtain ⟨as, ok, c', log, hrun⟩ := exists_run handles fuel hended.pop (by omega)
      obtain ⟨hwhole, -⟩ := hhead hrun
      have hlog := (performed_follows hl (c.ws p) hwhole.near).all (Bool.and_eq_true_iff.mp hperformed).1
      refine ⟨hwhole.near, fun _ => ?_⟩
      have hrest := ih hended.pop (by omega) (by rw [hpop, hws]; exact hfits) fun as ok c' log hrun => ?_
      · rw [hpop, hws] at hrest
        exact hrest
      · obtain ⟨-, done, part, hflush, hend⟩ := hhead hrun
        exact ⟨done, part, hflush.tail hqueue hlog, hend⟩

/-- The queue is written out as promised, whatever the calls return, exactly if no
segment that the writer comes to begins in a gap behind a handle. There the piece is
written behind the end of the handle. -/
theorem flushed_iff_approached (handles : List (Nat × LowHandle)) (c : WriteCache B ix)
    (hl : Layout handles)
    (hended : FifoTraversal.Ended c)
    (hfits : ∀ p ∈ originals c, lba2Offset (c.ws p).lba + lba2Offset (c.ws p).transferLength ≤ 2 ^ 64) :
    (∀ as ok c' log, doWork handles c.fifo.length c as = some (ok, c', log) →
      Flushed handles c ok c' log) ↔
      Approached handles ((originals c).map c.ws) :=
  ⟨approached_of_flushed hl _ hended (Nat.le_refl _) hfits,
    fun h _ _ _ _ hrun => flushed_of_approached hl _ h hrun⟩

/-- A segment of `n` blocks in one buffer. -/
def filled (lba n : Nat) : WriteSegment Unit := ⟨lba, n, lba, n, false, [()], 0, 512 * n⟩

/-- The second segment splits the first one. -/
def sampleCache : WriteCache Unit LbaIndex.ofList :=
  (WriteCache.init.push (filled 0 4)).push (filled 1 2)

/-- Two handles with a bound in the first segment, a short write and an interrupted one. -/
theorem flushed_split : ∃ c' log, doWork [(0, ⟨"/dev/sdb", 0, 1024⟩), (1024, ⟨"/dev/sdc", 512, 4096⟩)]
      sampleCache.fifo.length sampleCache
      [.wrote 500, .interrupted, .wrote 524, .wrote 1024, .wrote 512, .wrote 512] = some
        (true, c', log) ∧
    Flushed [(0, ⟨"/dev/sdb", 0, 1024⟩), (1024, ⟨"/dev/sdc", 512, 4096⟩)] sampleCache true c' log := by
  have hl : Layout [(0, ⟨"/dev/sdb", 0, 1024⟩), (1024, ⟨"/dev/sdc", 512, 4096⟩)] :=
    ⟨by unfold Sorted; decide, by decide, by decide⟩
  have hrun : doWork [(0, ⟨"/dev/sdb", 0, 1024⟩), (1024, ⟨"/dev/sdc", 512, 4096⟩)]
    sampleCache.fifo.length sampleCache
      [.wrote 500, .interrupted, .wrote 524, .wrote 1024, .wrote 512, .wrote 512] =
        some (true, _, _) := rfl
  have hqueue : (originals sampleCache).map sampleCache.ws =
      [{ filled 0 4 with rlength := 1 }, filled 1 2] := rfl
  refine ⟨_, _, hrun, (flushed_iff_approached _ sampleCache hl
    (FifoTraversal.Ended.push rfl) ?_).mpr ?_ _ _ _ _ hrun⟩
  · intro p hp
    have hmem : sampleCache.ws p ∈ [{ filled 0 4 with rlength := 1 }, filled 1 2] :=
      hqueue ▸ List.mem_map_of_mem hp
    obtain h | h := List.mem_pair.mp hmem
    · rw [h]
      decide
    · rw [h]
      decide
  · rw [hqueue]
    refine ⟨fun _ e he => ?_, fun _ => ⟨fun _ e he => ?_, fun _ => trivial⟩⟩
    · obtain rfl : (0, ⟨"/dev/sdb", 0, 1024⟩) = e := Option.some.inj he
      decide
    · obtain rfl : (0, ⟨"/dev/sdb", 0, 1024⟩) = e := Option.some.inj he
      decide

/-- A block in the gap between two handles is written behind the first one. -/
theorem not_flushed_gap : ∃ c : WriteCache Unit LbaIndex.ofList, ∃ c' log, Layout (build sampleAdds) ∧
    FifoTraversal.Ended c ∧ doWork (build sampleAdds) c.fifo.length c [.wrote 512] = some
      (true, c', log) ∧
      log.map (fun p => (p.path, p.realOffset, p.nbytes)) = [("/dev/sdb", 4608, 512)] ∧
      ¬ Flushed (build sampleAdds) c true c' log := by
  refine ⟨WriteCache.init.push (filled 9 1), _, _, ⟨by unfold Sorted; decide, by decide, by decide⟩,
    FifoTraversal.Ended.push rfl, rfl, rfl, ?_⟩
  rintro ⟨done, part, hflush, -⟩
  have hqueue : [0] = done ++ [] := hflush.queue
  obtain rfl := hqueue.trans (List.append_nil _)
  have hplace := (hflush.whole 0 List.mem_cons_self).2 (4608, (), 0) (List.mem_cons_self)
  exact absurd hplace (by decide)

end Sstoraged.DiskFlush
