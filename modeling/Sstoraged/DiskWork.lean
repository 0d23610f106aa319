import Sstoraged.HandleMap
import Sstoraged.WriteCache

namespace Sstoraged

namespace DiskWriter

variable {B : Type} {ix : LbaIndex}

/-- A part of a buffer that one call writes: the address of the volume that it is for,
and its place in a file. -/
structure Piece (B : Type) where
  start : Nat
  buf : B
  offset : Nat
  nbytes : Nat
  path : String
  realOffset : Nat

/-- The data that a segment has in one of its buffers. -/
structure Slice (B : Type) where
  buf : B
  start : Nat
  offset : Nat
  length : Nat

/-- The buffers of a segment, with `length` bytes left to write from `start` on. -/
def slicesFrom : Nat → Nat → Nat → List B → List (Slice B)
  | _, _, _, [] => []
  | start, length, dsOffset, b :: cbufs =>
    let segment := min length (u64 ((commonBufSize : Int) - dsOffset))
    ⟨b, start, dsOffset, segment⟩ :: slicesFrom (start + segment) (length - segment) 0 cbufs

def slices (ws : WriteSegment B) : List (Slice B) :=
  slicesFrom (lba2Offset ws.lba) (lba2Offset ws.transferLength) ws.dsOffset ws.cbufs

/-- The bytes of the segment that its buffers do not hold. -/
def lacking (ws : WriteSegment B) : Nat :=
  lba2Offset ws.transferLength - ((slices ws).map Slice.length).sum

/-- The loop over the pieces of one buffer, up to the first address that is refused. -/
def resolve (handles : List (Nat × LowHandle)) (b : B) : Nat → Nat → Nat → Nat → List (Piece B) × Bool
  | 0, _, _, segment => ([], decide (segment = 0))
  | fuel + 1, start, offset, segment =>
    if segment = 0 then ([], true)
    else
      match getHandle handles start segment with
      | none => ([], false)
      | some (path, covered, realOffset) =>
        let (ps, done) := resolve handles b fuel (start + covered) (offset + covered) (segment - covered)
        (⟨start, b, offset, covered, path, realOffset⟩ :: ps, done)

/-- What `pwrite` returns: at most what it is given. -/
inductive Answer
  | interrupted
  | failed
  | wrote (n : Nat)

/-- Write one piece. There is no result when the answers end before it is written. -/
def doWrite (p : Piece B) : List Answer → Option (Bool × List (Piece B) × List Answer)
  | [] => none
  | .interrupted :: as => doWrite p as
  | .failed :: as => some (false, [], as)
  | .wrote n :: as =>
    let size := min n p.nbytes
    if size ≠ p.nbytes then
      (doWrite ⟨p.start + size, p.buf, p.offset + size, p.nbytes - size, p.path,
        p.realOffset + size⟩ as).map
        fun (ok, log, as) => (ok, { p with nbytes := size } :: log, as)
    else some (true, [p], as)

def doBuffer (handles : List (Nat × LowHandle)) (b : B) :
    Nat → Nat → Nat → Nat → List Answer → Option (Bool × List (Piece B) × List Answer)
  | 0, _, _, segment, as => some (decide (segment = 0), [], as)
  | fuel + 1, start, offset, segment, as =>
    if segment = 0 then some (true, [], as)
    else
      match getHandle handles start segment with
      | none => some (false, [], as)
      | some (path, covered, realOffset) =>
        match doWrite ⟨start, b, offset, covered, path, realOffset⟩ as with
        | none => none
        | some (false, log, as) => some (false, log, as)
        | some (true, log, as) =>
          (doBuffer handles b fuel (start + covered) (offset + covered) (segment - covered) as).map
            fun (ok, log', as) => (ok, log ++ log', as)

def doSlices (handles : List (Nat × LowHandle)) :
    List (Slice B) → List Answer → Option (Bool × List (Piece B) × List Answer)
  | [], as => some (true, [], as)
  | s :: ss, as =>
    match doBuffer handles s.buf s.length s.start s.offset s.length as with
    | none => none
    | some (false, log, as) => some (false, log, as)
    | some (true, log, as) => (doSlices handles ss as).map fun (ok, log', as) => (ok, log ++ log', as)

def doSegment (handles : List (Nat × LowHandle)) (ws : WriteSegment B) (as : List Answer) :
    Option (Bool × List (Piece B) × List Answer) :=
  (doSlices handles (slices ws) as).map fun (ok, log, as) => (ok && decide (lacking ws = 0), log, as)

/-- Write out the queue, with the pieces that were written. -/
def doWork (handles : List (Nat × LowHandle)) :
    Nat → WriteCache B ix → List Answer → Option (Bool × WriteCache B ix × List (Piece B))
  | 0, c, _ => if c.fifo.isEmpty then some (true, c, []) else none
  | fuel + 1, c, as =>
    if c.fifo.isEmpty then some (true, c, [])
    else
      match c.front with
      | (none, _) => none
      | (some p, c) =>
        match doSegment handles (c.ws p) as with
        | none => none
        | some (false, log, _) => some (false, c, log)
        | some (true, log, as) =>
          (doWork handles fuel c.pop as).map fun (ok, c, log') => (ok, c, log ++ log')

end DiskWriter

namespace DiskWork

open DiskWriter

variable {B : Type} {handles : List (Nat × LowHandle)}

/-- The pieces of a segment, up to the first address that is refused. -/
def pieces (handles : List (Nat × LowHandle)) : List (Slice B) → List (Piece B) × Bool
  | [] => ([], true)
  | s :: ss =>
    match resolve handles s.buf s.length s.start s.offset s.length with
    | (ps, false) => (ps, false)
    | (ps, true) => (ps ++ (pieces handles ss).1, (pieces handles ss).2)

/-- The bytes of a piece, each with its place and with the cell it comes from. -/
def bytes (p : Piece B) : List ((String × Nat) × B × Nat) :=
  (List.range' 0 p.nbytes).map fun i : Nat => ((p.path, u64 ((p.realOffset : Int) + (i : Nat))),
    p.buf, p.offset + i)

/-- The answers to some calls that are all written whole. -/
def whole (ps : List (Piece B)) : List Answer := ps.map fun p => .wrote p.nbytes

/-- A log against the pieces that were to be written, all of them if `done`. -/
structure Writes (ok : Bool) (log ps : List (Piece B)) (done : Bool) : Prop where
  initial : log.flatMap bytes <+: ps.flatMap bytes
  ok : ok = true → done = true ∧ log.flatMap bytes = ps.flatMap bytes

variable {log ps qs : List (Piece B)} {done ok : Bool} {as as' : List Answer}

theorem bytes_split (p : Piece B) {n : Nat} (h : n ≤ p.nbytes) :
    bytes { p with nbytes := n } ++
        bytes ⟨p.start + n, p.buf, p.offset + n, p.nbytes - n, p.path, p.realOffset + n⟩ = bytes p := by
  have hrange : List.range' 0 p.nbytes = List.range' 0 n ++
      (List.range' 0 (p.nbytes - n)).map (n + ·) := by
    rw [List.map_add_range', Nat.add_zero]
    have happ : List.range' 0 n ++ List.range' (0 + n) (p.nbytes - n) = _ := List.range'_append_1
    rw [Nat.zero_add] at happ
    rw [happ, Nat.add_sub_cancel' h]
  unfold bytes
  rw [hrange, List.map_append, List.map_map]
  congr 1
  apply List.map_congr_left
  intro i _
  simp only [Function.comp_apply, Int.natCast_add, Int.add_assoc, Nat.add_assoc]

theorem doWrite_writes : ∀ {as : List Answer} {p : Piece B}, doWrite p as = some (ok, log, as') →
    Writes ok log [p] true := by
  intro as
  induction as generalizing log with
  | nil => exact fun h => absurd h nofun
  | cons a as ih =>
    intro p h
    cases a with
    | interrupted => exact ih h
    | failed =>
      obtain ⟨rfl, rfl, rfl⟩ := Prod.mk.inj (Option.some.inj h) |>.imp_right Prod.mk.inj
      exact ⟨List.nil_prefix, nofun⟩
    | wrote n =>
      rw [doWrite] at h
      dsimp only at h
      split at h
      · obtain ⟨⟨ok', log', as''⟩, hrest, heq⟩ := Option.map_eq_some_iff.mp h
        obtain ⟨rfl, rfl, rfl⟩ := Prod.mk.inj heq |>.imp_right Prod.mk.inj
        obtain ⟨hinitial, hok⟩ := ih hrest
        have hsplit := bytes_split p (Nat.min_le_right n p.nbytes)
        rw [List.flatMap_singleton] at hinitial hok
        refine ⟨?_, fun htrue => ⟨rfl, ?_⟩⟩
        · rw [List.flatMap_cons, List.flatMap_singleton, ← hsplit]
          exact (List.prefix_append_right_inj _).mpr hinitial
        · rw [List.flatMap_cons, List.flatMap_singleton, ← hsplit, (hok htrue).2]
      · obtain ⟨rfl, rfl, rfl⟩ := Prod.mk.inj (Option.some.inj h) |>.imp_right Prod.mk.inj
        exact ⟨List.prefix_rfl, fun _ => ⟨rfl, rfl⟩⟩

theorem Writes.append {log' : List (Piece B)} {done' ok' : Bool} (h : Writes true log ps done)
    (h' : Writes ok' log' qs done') : Writes ok' (log ++ log') (ps ++ qs) done' := by
  obtain ⟨-, hall⟩ := h.ok rfl
  refine ⟨?_, fun htrue => ?_⟩
  · rw [List.flatMap_append, List.flatMap_append, hall]
    exact (List.prefix_append_right_inj _).mpr h'.initial
  · obtain ⟨hdone, hlog⟩ := h'.ok htrue
    exact ⟨hdone, by rw [List.flatMap_append, List.flatMap_append, hall, hlog]⟩

theorem Writes.stop (h : Writes false log ps done) (qs : List (Piece B)) (done' : Bool) :
    Writes false log (ps ++ qs) done' := by
  refine ⟨?_, nofun⟩
  rw [List.flatMap_append]
  exact h.initial.trans (List.prefix_append _ _)

theorem doBuffer_writes (b : B) (fuel : Nat) : ∀ {start offset segment : Nat} {as : List Answer}
    {log : List (Piece B)},
    doBuffer handles b fuel start offset segment as = some (ok, log, as') →
      Writes ok log (resolve handles b fuel start offset segment).1
        (resolve handles b fuel start offset segment).2 := by
  induction fuel with
  | zero =>
    intro start offset segment as log h
    obtain ⟨rfl, rfl, rfl⟩ := Prod.mk.inj (Option.some.inj h) |>.imp_right Prod.mk.inj
    exact ⟨List.prefix_rfl, fun htrue => ⟨htrue, rfl⟩⟩
  | succ fuel ih =>
    intro start offset segment as log h
    rw [doBuffer] at h
    rw [resolve]
    split at h
    · next hzero =>
      obtain ⟨rfl, rfl, rfl⟩ := Prod.mk.inj (Option.some.inj h) |>.imp_right Prod.mk.inj
      rw [if_pos hzero]
      exact ⟨List.prefix_rfl, fun _ => ⟨rfl, rfl⟩⟩
    next hzero =>
    rw [if_neg hzero]
    split at h
    · obtain ⟨rfl, rfl, rfl⟩ := Prod.mk.inj (Option.some.inj h) |>.imp_right Prod.mk.inj
      exact ⟨List.prefix_rfl, nofun⟩
    split at h
    · exact absurd h nofun
    · next log' as'' hwrite =>
      obtain ⟨rfl, rfl, rfl⟩ := Prod.mk.inj (Option.some.inj h) |>.imp_right Prod.mk.inj
      exact (doWrite_writes hwrite).stop _ _
    · next log' as'' hwrite =>
      obtain ⟨⟨ok', log'', rest⟩, hrest, heq⟩ := Option.map_eq_some_iff.mp h
      obtain ⟨rfl, rfl, rfl⟩ := Prod.mk.inj heq |>.imp_right Prod.mk.inj
      exact (doWrite_writes hwrite).append (ih hrest)

theorem doSlices_writes (ss : List (Slice B)) : ∀ {as : List Answer} {log : List (Piece B)},
    doSlices handles ss as = some (ok, log, as') → Writes ok log (pieces handles ss).1
      (pieces handles ss).2 := by
  induction ss with
  | nil =>
    intro as log h
    obtain ⟨rfl, rfl, rfl⟩ := Prod.mk.inj (Option.some.inj h) |>.imp_right Prod.mk.inj
    exact ⟨List.prefix_rfl, fun _ => ⟨rfl, rfl⟩⟩
  | cons s ss ih =>
    intro as log h
    rw [doSlices] at h
    rw [pieces]
    split at h
    · exact absurd h nofun
    · next log' as'' hbuffer =>
      obtain ⟨rfl, rfl, rfl⟩ := Prod.mk.inj (Option.some.inj h) |>.imp_right Prod.mk.inj
      have hfirst := doBuffer_writes s.buf s.length hbuffer
      split
      · next hresolve =>
        rw [hresolve] at hfirst
        exact hfirst
      · next hresolve =>
        rw [hresolve] at hfirst
        exact hfirst.stop _ _
    · next log' as'' hbuffer =>
      obtain ⟨⟨ok', log'', rest⟩, hrest, heq⟩ := Option.map_eq_some_iff.mp h
      obtain ⟨rfl, rfl, rfl⟩ := Prod.mk.inj heq |>.imp_right Prod.mk.inj
      have hfirst := doBuffer_writes s.buf s.length hbuffer
      split
      · next hresolve =>
        rw [hresolve] at hfirst
        exact absurd (hfirst.ok rfl).1 Bool.noConfusion
      · next hresolve =>
        rw [hresolve] at hfirst
        exact hfirst.append (ih hrest)

theorem doWrite_whole (p : Piece B) (as : List Answer) : doWrite p (.wrote p.nbytes :: as) = some
    (true, [p], as) := by
  rw [doWrite.eq_def]
  dsimp only
  rw [Nat.min_self]
  exact if_neg (not_not.mpr rfl)

theorem doBuffer_whole (b : B) (fuel : Nat) : ∀ {start offset segment : Nat} (as : List Answer),
    doBuffer handles b fuel start offset segment
      (whole (resolve handles b fuel start offset segment).1 ++ as) =
      some ((resolve handles b fuel start offset segment).2,
        (resolve handles b fuel start offset segment).1, as) := by
  induction fuel with
  | zero => exact fun _ => rfl
  | succ fuel ih =>
    intro start offset segment as
    rw [doBuffer, resolve]
    split
    · rfl
    split
    · rfl
    next path covered realOffset hget =>
    rw [whole, List.map_cons, List.cons_append, doWrite_whole, ← whole]
    dsimp only
    rw [ih]
    rfl

theorem doSlices_whole (ss : List (Slice B)) : ∀ as : List Answer,
    doSlices handles ss (whole (pieces handles ss).1 ++ as) = some
      ((pieces handles ss).2, (pieces handles ss).1, as) := by
  induction ss with
  | nil => exact fun _ => rfl
  | cons s ss ih =>
    intro as
    have hfirst := @doBuffer_whole B handles s.buf s.length s.start s.offset s.length
    rw [doSlices, pieces]
    cases hresolve : resolve handles s.buf s.length s.start s.offset s.length with
    | mk ps done =>
      rw [hresolve] at hfirst
      cases done with
      | false =>
        dsimp only
        rw [hfirst]
      | true =>
        dsimp only at hfirst ⊢
        rw [whole, List.map_append, List.append_assoc, ← whole, ← whole, hfirst]
        dsimp only
        rw [ih]
        rfl

/-- What is written of a segment when each call writes all that it is given, and whether
that is the whole segment. -/
def performed (handles : List (Nat × LowHandle)) (ws : WriteSegment B) : Bool × List (Piece B) :=
  ((pieces handles (slices ws)).2 && decide (lacking ws = 0), (pieces handles (slices ws)).1)

theorem doSegment_whole (handles : List (Nat × LowHandle)) (ws : WriteSegment B) (as : List Answer) :
    doSegment handles ws (whole (performed handles ws).2 ++ as) =
      some ((performed handles ws).1, (performed handles ws).2, as) := by
  rw [doSegment, performed, doSlices_whole]
  rfl

theorem doSegment_writes {ws : WriteSegment B} (h : doSegment handles ws as = some (ok, log, as')) :
    Writes ok log (performed handles ws).2 (performed handles ws).1 := by
  obtain ⟨⟨ok', log', rest⟩, hslices, heq⟩ := Option.map_eq_some_iff.mp h
  obtain ⟨rfl, rfl, rfl⟩ := Prod.mk.inj heq |>.imp_right Prod.mk.inj
  obtain ⟨hinitial, hok⟩ := doSlices_writes _ hslices
  refine ⟨hinitial, fun htrue => ?_⟩
  obtain ⟨hok', hlacking⟩ := Bool.and_eq_true_iff.mp htrue
  obtain ⟨hdone, hlog⟩ := hok hok'
  exact ⟨Bool.and_eq_true_iff.mpr ⟨hdone, hlacking⟩, hlog⟩

end DiskWork

end Sstoraged
