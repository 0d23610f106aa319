import Sstoraged.AioDiskWriter
import Sstoraged.DiskWork

namespace Sstoraged

namespace AioDiskWriter

open DiskWriter

variable {B : Type}

/-- The loop over the buffers of a segment: the writes that were stored into the array,
and what is left of the length unless an address was refused. The inner loop over the
pieces of a buffer does not look at the size of the array. -/
def storeLoop (handles : List (Nat × LowHandle)) :
    Nat → List (Slice B) → List (Piece B) → List (Piece B) × Option Nat
  | length, [], iocbs => (iocbs, some length)
  | length, s :: ss, iocbs =>
    if iocbs.length < iocbMax then
      match resolve handles s.buf s.length s.start s.offset s.length with
      | (ps, false) => (iocbs ++ ps, none)
      | (ps, true) => storeLoop handles (length - s.length) ss (iocbs ++ ps)
    else (iocbs, some length)

def stored (handles : List (Nat × LowHandle)) (ws : WriteSegment B) : List (Piece B) × Option Nat :=
  storeLoop handles (lba2Offset ws.transferLength) (slices ws) []

/-- What is submitted of a segment, unless the writer gives up. -/
def submission (handles : List (Nat × LowHandle)) (ws : WriteSegment B) : Option (List (Piece B)) :=
  match stored handles ws with
  | (iocbs, some 0) => if iocbs.length < iocbMax then some iocbs else none
  | _ => none

end AioDiskWriter

namespace AioSubmission

open DiskWriter DiskWork
open AioDiskWriter

variable {B : Type} {handles : List (Nat × LowHandle)} {ws : WriteSegment B} {acc iocbs : List (Piece B)}

theorem storeLoop_pieces (ss : List (Slice B)) : ∀ {length : Nat} {acc : List (Piece B)},
    (pieces handles ss).2 = true →
    (acc ++ (pieces handles ss).1).length < iocbMax → storeLoop handles length ss acc =
      (acc ++ (pieces handles ss).1, some (length - (ss.map Slice.length).sum)) := by
  induction ss with
  | nil =>
    intro length acc _ _
    rw [storeLoop, pieces, List.append_nil]
    rfl
  | cons s ss ih =>
    intro length acc hdone hlt
    have hacc : acc.length < iocbMax := by
      rw [List.length_append] at hlt
      omega
    rw [storeLoop, if_pos hacc]
    rw [pieces] at hdone hlt ⊢
    cases hresolve : resolve handles s.buf s.length s.start s.offset s.length with
    | mk ps done =>
      rw [hresolve] at hdone hlt
      cases done with
      | false => exact absurd hdone Bool.noConfusion
      | true =>
        dsimp only at hdone hlt ⊢
        rw [← List.append_assoc] at hlt ⊢
        rw [ih hdone hlt, List.map_cons, List.sum_cons, Nat.sub_add_eq]

theorem pieces_storeLoop (ss : List (Slice B)) : ∀ {length m : Nat} {acc iocbs : List (Piece B)},
    storeLoop handles length ss acc = (iocbs, some m) → iocbs.length < iocbMax →
      (pieces handles ss).2 = true ∧ iocbs = acc ++ (pieces handles ss).1 ∧
        m = length - (ss.map Slice.length).sum := by
  induction ss with
  | nil =>
    intro length m acc iocbs h _
    obtain ⟨rfl, hm⟩ := Prod.mk.inj h
    exact ⟨rfl, (List.append_nil _).symm, (Option.some.inj hm).symm⟩
  | cons s ss ih =>
    intro length m acc iocbs h hlt
    rw [storeLoop] at h
    split at h
    swap
    · next hfull =>
      obtain ⟨rfl, -⟩ := Prod.mk.inj h
      exact absurd hlt hfull
    · split at h
      · exact absurd (Prod.mk.inj h).2 nofun
      · next ps hresolve =>
        obtain ⟨hdone, hiocbs, hm⟩ := ih h hlt
        rw [pieces, hresolve]
        refine ⟨hdone, hiocbs.trans (List.append_assoc _ _ _), hm.trans ?_⟩
        rw [List.map_cons, List.sum_cons, Nat.sub_add_eq]

theorem submission_eq_some_iff : submission handles ws = some iocbs ↔
    performed handles ws = (true, iocbs) ∧ iocbs.length < iocbMax := by
  constructor
  · intro h
    unfold submission at h
    split at h
    · next iocbs' hstored =>
      split at h
      · next hlt =>
        obtain rfl := Option.some.inj h
        obtain ⟨hdone, hiocbs, hm⟩ := pieces_storeLoop _ hstored hlt
        refine ⟨?_, hlt⟩
        rw [performed, hdone, lacking, ← hm, hiocbs]
        rfl
      · cases h
    · cases h
  · rintro ⟨hperformed, hlt⟩
    obtain ⟨hdone, rfl⟩ := Prod.mk.inj hperformed
    obtain ⟨hdone, hlacking⟩ := Bool.and_eq_true_iff.mp hdone
    have hzero : lba2Offset ws.transferLength - ((slices ws).map Slice.length).sum = 0 :=
      of_decide_eq_true hlacking
    have hstored : stored handles ws = ((pieces handles (slices ws)).1, some 0) := by
      have hloop := @storeLoop_pieces B handles (slices ws) (lba2Offset ws.transferLength) [] hdone hlt
      rw [hzero] at hloop
      exact hloop
    rw [submission, hstored]
    exact if_pos hlt

/-- The write in the kernel that stands for a piece. -/
def iocb (p : Nat) (x : Piece B) : Iocb B :=
  ⟨p, x.start, x.buf, x.offset, x.nbytes, x.path, x.realOffset⟩

theorem cut_eq (p : Nat) (b : B) (fuel : Nat) : ∀ {start offset segment : Nat},
    cut handles p b fuel start offset segment =
      match resolve handles b fuel start offset segment with
      | (_, false) => none
      | (ps, true) => some (ps.map (iocb p)) := by
  induction fuel with
  | zero =>
    intro start offset segment
    rw [cut, resolve]
    by_cases hzero : segment = 0
    · rw [if_pos hzero, decide_eq_true hzero]
      rfl
    · rw [if_neg hzero, decide_eq_false hzero]
  | succ fuel ih =>
    intro start offset segment
    rw [cut, resolve]
    by_cases hzero : segment = 0
    · rw [if_pos hzero, if_pos hzero]
      rfl
    rw [if_neg hzero, if_neg hzero]
    cases hget : getHandle handles start segment with
    | none => rfl
    | some r =>
      obtain ⟨path, covered, realOffset⟩ := r
      dsimp only
      rw [ih]
      cases hresolve : resolve handles b fuel (start + covered) (offset + covered)
        (segment - covered) with
      | mk ps done => cases done <;> rfl

theorem u64_capacity {ds : Nat} (h : ds ≤ commonBufSize) :
    u64 ((commonBufSize : Int) - ds) = commonBufSize - ds :=
  u64_sub h (by unfold commonBufSize; omega)

theorem prepareLoop_eq (p : Nat) (cbufs : List B) : ∀ {start length ds : Nat}
    {acc : List (Piece B)}, ds ≤ commonBufSize →
    prepareLoop handles p start length (BufferChain.pieces commonBufSize cbufs ds length)
      (acc.map (iocb p)) =
      match storeLoop handles length (slicesFrom start length ds cbufs) acc with
      | (_, none) => none
      | (iocbs, some m) => some (iocbs.map (iocb p), m) := by
  induction cbufs with
  | nil => exact fun _ => rfl
  | cons b cbufs ih =>
    intro start length ds acc hds
    rw [BufferChain.pieces, slicesFrom, u64_capacity hds, prepareLoop]
    rw [storeLoop, List.length_map, cut_eq]
    split
    swap
    · rfl
    cases hresolve : resolve handles b (min length (commonBufSize - ds)) start ds
      (min length (commonBufSize - ds)) with
    | mk ps done =>
      cases done with
      | false => rfl
      | true =>
        dsimp only
        rw [← List.map_append]
        exact ih (Nat.zero_le _)

theorem prepare_eq (p : Nat) (h : ws.dsOffset ≤ commonBufSize) :
    prepare handles p ws = (submission handles ws).map fun iocbs => iocbs.map (iocb p) := by
  have hloop := @prepareLoop_eq B handles p ws.cbufs (lba2Offset ws.lba)
    (lba2Offset ws.transferLength) ws.dsOffset [] h
  rw [List.map_nil] at hloop
  rw [prepare, hloop, submission, stored, slices]
  cases hstored : storeLoop handles (lba2Offset ws.transferLength)
      (slicesFrom (lba2Offset ws.lba) (lba2Offset ws.transferLength) ws.dsOffset ws.cbufs) [] with
  | mk iocbs left =>
    cases left with
    | none => rfl
    | some m =>
      cases m with
      | zero =>
        show (if (iocbs.map (iocb p)).length < iocbMax then some (iocbs.map (iocb p)) else none) =
          (if iocbs.length < iocbMax then some iocbs else none).map fun iocbs => iocbs.map (iocb p)
        rw [List.length_map]
        split <;> rfl
      | succ m => rfl

/-- Both writers do the same with a segment. -/
structure Agree (handles : List (Nat × LowHandle)) (ws : WriteSegment B) : Prop where
  same : (submission handles ws).getD [] = (performed handles ws).2
  givesUp : submission handles ws = none → (performed handles ws).1 = false

/-- The buffers hold the segment, and `getHandle` leads through the range of each. -/
def Resolved (handles : List (Nat × LowHandle)) (ws : WriteSegment B) : Prop :=
  (∀ s ∈ slices ws, (walk handles s.length s.start s.length).isSome) ∧ lacking ws = 0

/-- How often `getHandle` is asked for the segment then. -/
def count (handles : List (Nat × LowHandle)) (ws : WriteSegment B) : Nat :=
  ((slices ws).map fun s => ((walk handles s.length s.start s.length).getD []).length).sum

/-- The first address of the segment is refused, or there is no data for it. -/
def RefusedFirst (handles : List (Nat × LowHandle)) (ws : WriteSegment B) : Prop :=
  match (slices ws).find? fun s => decide (0 < s.length) with
  | none => lacking ws ≠ 0
  | some s => getHandle handles s.start s.length = none

theorem resolve_walk (b : B) (fuel : Nat) : ∀ {start offset segment : Nat},
    (resolve handles b fuel start offset segment).2 = (walk handles fuel start segment).isSome ∧
      ∀ rs, walk handles fuel start segment = some rs →
        (resolve handles b fuel start offset segment).1.length = rs.length := by
  induction fuel with
  | zero =>
    intro start offset segment
    rw [resolve, walk]
    by_cases hzero : segment = 0
    · rw [if_pos hzero]
      exact ⟨decide_eq_true hzero, fun rs h => Option.some.inj h ▸ rfl⟩
    · rw [if_neg hzero]
      exact ⟨decide_eq_false hzero, fun rs h => absurd h.symm (Option.some_ne_none rs)⟩
  | succ fuel ih =>
    intro start offset segment
    rw [resolve, walk]
    by_cases hzero : segment = 0
    · rw [if_pos hzero, if_pos hzero]
      exact ⟨rfl, fun rs h => Option.some.inj h ▸ rfl⟩
    rw [if_neg hzero, if_neg hzero]
    cases hget : getHandle handles start segment with
    | none => exact ⟨rfl, fun rs h => absurd h.symm (Option.some_ne_none rs)⟩
    | some r =>
      obtain ⟨path, covered, realOffset⟩ := r
      obtain ⟨hsome, hlength⟩ := @ih (start + covered) (offset + covered) (segment - covered)
      dsimp only
      refine ⟨by rw [hsome, Option.isSome_map], fun rs h => ?_⟩
      obtain ⟨rs', hrs', rfl⟩ := Option.map_eq_some_iff.mp h
      rw [List.length_cons, List.length_cons, hlength rs' hrs']

theorem pieces_walk (ss : List (Slice B)) :
    ((pieces handles ss).2 = true ↔ ∀ s ∈ ss, (walk handles s.length s.start s.length).isSome) ∧
      ((pieces handles ss).2 = true → (pieces handles ss).1.length =
        (ss.map fun s => ((walk handles s.length s.start s.length).getD []).length).sum) := by
  induction ss with
  | nil => exact ⟨⟨fun _ _ h => absurd h List.not_mem_nil, fun _ => rfl⟩, fun _ => rfl⟩
  | cons s ss ih =>
    obtain ⟨hsome, hlength⟩ := @resolve_walk B handles s.buf s.length s.start s.offset s.length
    rw [pieces, List.forall_mem_cons, List.map_cons, List.sum_cons]
    cases hresolve : resolve handles s.buf s.length s.start s.offset s.length with
    | mk ps done =>
      rw [hresolve] at hsome hlength
      dsimp only at hsome hlength
      rw [← hsome]
      cases done with
      | false =>
        exact ⟨⟨fun h => absurd h Bool.false_ne_true, fun h => absurd h.1 Bool.false_ne_true⟩,
          fun h => absurd h Bool.false_ne_true⟩
      | true =>
        obtain ⟨rs, hrs⟩ := Option.isSome_iff_exists.mp hsome.symm
        dsimp only
        refine ⟨⟨fun h => ⟨rfl, ih.1.mp h⟩, fun h => ih.1.mpr h.2⟩, fun h => ?_⟩
        rw [List.length_append, ih.2 h, hlength rs hrs, hrs, Option.getD_some]

theorem performed_iff_resolved : (performed handles ws).1 = true ↔ Resolved handles ws := by
  rw [performed, Bool.and_eq_true, (pieces_walk _).1, decide_eq_true_iff]
  rfl

theorem length_performed (h : (performed handles ws).1 = true) :
    (performed handles ws).2.length = count handles ws :=
  (pieces_walk _).2 (Bool.and_eq_true_iff.mp h).1

theorem pieces_refused (ss : List (Slice B)) :
    (ss.find? (fun s => decide (0 < s.length)) = none → pieces handles ss = ([], true)) ∧
      ∀ s, ss.find? (fun s => decide (0 < s.length)) = some s →
        (getHandle handles s.start s.length = none → pieces handles ss = ([], false)) ∧
          ((pieces handles ss).1 = [] → getHandle handles s.start s.length = none) := by
  induction ss with
  | nil => exact ⟨fun _ => rfl, fun s h => absurd h.symm (Option.some_ne_none s)⟩
  | cons s ss ih =>
    obtain ⟨b, start, offset, length⟩ := s
    rw [pieces]
    cases length with
    | zero =>
      rw [List.find?_cons_of_neg (by simp)]
      exact ih
    | succ n =>
      rw [List.find?_cons_of_pos (by simp)]
      refine ⟨fun h => absurd h (Option.some_ne_none _), fun s hs => ?_⟩
      obtain rfl := Option.some.inj hs
      dsimp only
      rw [resolve, if_neg (Nat.succ_ne_zero n)]
      cases hget : getHandle handles start (n + 1) with
      | none => exact ⟨fun _ => rfl, fun _ => rfl⟩
      | some r =>
        obtain ⟨path, covered, realOffset⟩ := r
        refine ⟨fun h => absurd h (Option.some_ne_none _), fun hnil => ?_⟩
        dsimp only at hnil
        split at hnil
        · next heq =>
          obtain ⟨rfl, -⟩ := Prod.mk.inj heq
          exact absurd hnil (List.cons_ne_nil _ _)
        · next heq =>
          obtain ⟨rfl, -⟩ := Prod.mk.inj heq
          exact absurd hnil (List.cons_ne_nil _ _)

theorem refusedFirst_iff : RefusedFirst handles ws ↔ (performed handles ws).2 = [] ∧
    (performed handles ws).1 = false := by
  obtain ⟨hnone, hsome⟩ := @pieces_refused B handles (slices ws)
  unfold RefusedFirst performed
  split
  · next hfind =>
    rw [hnone hfind]
    dsimp only
    rw [Bool.true_and, decide_eq_false_iff_not]
    exact ⟨fun h => ⟨rfl, h⟩, fun h => h.2⟩
  · next s hfind =>
    obtain ⟨hrefused, hnil⟩ := hsome s hfind
    refine ⟨fun h => ?_, fun h => hnil h.1⟩
    rw [hrefused h]
    exact ⟨rfl, rfl⟩

/-- The asynchronous writer does the same just if the segment is resolved in fewer pieces
than it can submit, or if nothing of the segment is written by either of them. -/
theorem agree_iff (handles : List (Nat × LowHandle)) (ws : WriteSegment B) : Agree handles ws ↔
    Resolved handles ws ∧ count handles ws < iocbMax ∨ RefusedFirst handles ws := by
  rw [refusedFirst_iff, ← performed_iff_resolved]
  cases hsubmission : submission handles ws with
  | some iocbs =>
    obtain ⟨hperformed, hlt⟩ := submission_eq_some_iff.mp hsubmission
    have hdone : (performed handles ws).1 = true := by rw [hperformed]
    refine iff_of_true ⟨?_, ?_⟩ (.inl ⟨hdone, ?_⟩)
    · rw [hsubmission, hperformed]
      rfl
    · rw [hsubmission]
      exact nofun
    · rwa [← length_performed hdone, hperformed]
  | none =>
    have hmany : ¬ ((performed handles ws).1 = true ∧ count handles ws < iocbMax) := by
      rintro ⟨hdone, hlt⟩
      have hsome := submission_eq_some_iff.mpr ⟨Prod.ext hdone rfl, length_performed hdone ▸ hlt⟩
      exact absurd (hsubmission.symm.trans hsome) nofun
    rw [or_iff_right hmany]
    constructor
    · rintro ⟨hsame, hgivesUp⟩
      rw [hsubmission] at hsame
      exact ⟨hsame.symm, hgivesUp hsubmission⟩
    · rintro ⟨hnil, hfalse⟩
      refine ⟨?_, fun _ => hfalse⟩
      rw [hsubmission, hnil]
      rfl

/-- Parts of one block each, one behind the other. -/
def sampleHandles (n : Nat) : List (Nat × LowHandle) :=
  (List.range n).map fun i => (512 * i, ⟨"/dev/sdb", (512 * i : Nat), 512⟩)

def sampleSegment (n : Nat) : WriteSegment Unit := ⟨0, n, 0, n, false, [()], 0, 512 * n⟩

/-- A segment over 64 parts is written by one of the writers, and given up by the other. -/
theorem not_agree_many : ¬ Agree (sampleHandles 64) (sampleSegment 64) := by
  intro h
  have hnone : submission (sampleHandles 64) (sampleSegment 64) = none := by decide +kernel
  have hdone : (performed (sampleHandles 64) (sampleSegment 64)).1 = true := by decide +kernel
  exact absurd (hdone.symm.trans (h.givesUp hnone)) Bool.noConfusion

end AioSubmission

end Sstoraged
