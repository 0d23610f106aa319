import Sstoraged.AioAccounting
import Sstoraged.AioSubmission

namespace Sstoraged.IocbBounds

open DiskWriter DiskWork AioSubmission AioLedger AioAccounting
open AioDiskWriter

variable {B : Type} {ix : LbaIndex} {mem : B → Nat → UInt8} {handles : List (Nat × LowHandle)}

/-- How many handles answer for the range of a buffer, up to the first address that is
refused. -/
def answered (handles : List (Nat × LowHandle)) (s : Slice B) : Nat :=
  (resolve handles s.buf s.length s.start s.offset s.length).1.length

/-- No buffer leads the number of the answers from below the bound to above it. -/
def Jumpless (handles : List (Nat × LowHandle)) (n : Nat) (ss : List (Slice B)) : Prop :=
  ∀ l s r, ss = l ++ s :: r → (∀ q ∈ l, (walk handles q.length q.start q.length).isSome) →
    n + (l.map (answered handles)).sum < iocbMax → n + (l.map (answered handles)).sum +
      answered handles s ≤ iocbMax

/-- How many requests are stored into the array in a step. -/
def stores (handles : List (Nat × LowHandle)) (s : State B ix) : Event B → Nat
  | .submit _ =>
    match s.cache.getNext s.currentWs with
    | none => 0
    | some (p, cache) => (stored handles (cache.ws p)).1.length
  | _ => 0

/-- The condition on a round of `doWork`: no buffer of the next segment jumps over the
bound, and if the segment is submitted its requests have room beside those in flight. -/
def Roomy (handles : List (Nat × LowHandle)) (s : State B ix) : Event B → Prop
  | .submit _ => ∀ p cache, s.cache.getNext s.currentWs = some (p, cache) →
    Jumpless handles 0 (slices (cache.ws p)) ∧
      (Resolved handles (cache.ws p) ∧ count handles (cache.ws p) < iocbMax →
        s.iocbsTotal + count handles (cache.ws p) ≤ iocbMax)
  | _ => True

/-- No more requests are in flight than `io_setup` was called for. -/
structure Bounded (s : State B ix) : Prop where
  total : s.iocbsTotal ≤ iocbMax
  flight : s.flight.length ≤ iocbMax

variable {s s' : State B ix} {ws : WriteSegment B}

theorem le_storeLoop (ss : List (Slice B)) : ∀ {length : Nat} {acc : List (Piece B)},
    acc.length ≤ (storeLoop handles length ss acc).1.length := by
  induction ss with
  | nil => exact Nat.le_refl _
  | cons s ss ih =>
    intro length acc
    rw [storeLoop]
    split
    · split
      · rw [List.length_append]
        exact Nat.le_add_right _ _
      · refine Nat.le_trans ?_ ih
        rw [List.length_append]
        exact Nat.le_add_right _ _
    · exact Nat.le_refl _

theorem jumpless_cons {n : Nat} {t : Slice B} {ss : List (Slice B)} : Jumpless handles n (t :: ss) ↔
    (n < iocbMax → n + answered handles t ≤ iocbMax) ∧
      ((walk handles t.length t.start t.length).isSome →
        Jumpless handles (n + answered handles t) ss) := by
  constructor
  · intro h
    refine ⟨h [] t ss rfl (fun _ hq => absurd hq List.not_mem_nil), fun ht l s r hss hl => ?_⟩
    have hcons := h (t :: l) s r (by rw [hss]; rfl) (List.forall_mem_cons.mpr ⟨ht, hl⟩)
    rw [List.map_cons, List.sum_cons, ← Nat.add_assoc] at hcons
    exact hcons
  · rintro ⟨hfirst, hrest⟩ l s r hss hl
    cases l with
    | nil =>
      obtain ⟨rfl, rfl⟩ := List.cons.inj hss
      exact hfirst
    | cons q l =>
      obtain ⟨rfl, rfl⟩ := List.cons.inj hss
      obtain ⟨hq, hl⟩ := List.forall_mem_cons.mp hl
      rw [List.map_cons, List.sum_cons, ← Nat.add_assoc]
      exact hrest hq l s r rfl hl

theorem jumpless_of_le {n : Nat} {ss : List (Slice B)} (h : iocbMax ≤ n) : Jumpless handles n ss :=
  fun _ _ _ _ _ hlt => absurd (h.trans (Nat.le_add_right _ _)) (Nat.not_le.mpr hlt)

theorem storeLoop_le_iff (ss : List (Slice B)) : ∀ {length : Nat} {acc : List (Piece B)},
    acc.length ≤ iocbMax →
    ((storeLoop handles length ss acc).1.length ≤ iocbMax ↔ Jumpless handles acc.length ss) := by
  induction ss with
  | nil =>
    intro length acc hacc
    refine iff_of_true hacc fun l s r hss => ?_
    exact absurd hss.symm (List.append_ne_nil_of_right_ne_nil _ (List.cons_ne_nil _ _))
  | cons t ss ih =>
    intro length acc hacc
    obtain ⟨hsome, -⟩ := @resolve_walk B handles t.buf t.length t.start t.offset t.length
    rw [jumpless_cons, storeLoop, answered, ← hsome]
    split
    swap
    · next hfull =>
      refine iff_of_true hacc ⟨fun h => absurd h hfull, fun _ => jumpless_of_le ?_⟩
      exact (Nat.le_of_not_lt hfull).trans (Nat.le_add_right _ _)
    next hlt =>
    cases hresolve : resolve handles t.buf t.length t.start t.offset t.length with
    | mk ps done =>
      have hlength : (acc ++ ps).length = acc.length + ps.length := List.length_append
      cases done with
      | false =>
        dsimp only
        rw [hlength]
        exact ⟨fun h => ⟨fun _ => h, fun hfalse => absurd hfalse Bool.false_ne_true⟩, fun h => h.1 hlt⟩
      | true =>
        dsimp only
        rw [← hlength]
        by_cases hle : (acc ++ ps).length ≤ iocbMax
        · rw [ih hle]
          exact ⟨fun h => ⟨fun _ => hle, fun _ => h⟩, fun h => h.2 rfl⟩
        · exact iff_of_false (fun h => hle ((le_storeLoop ss).trans h)) fun h => hle (h.1 hlt)

theorem stored_le_iff (handles : List (Nat × LowHandle)) (ws : WriteSegment B) :
    (stored handles ws).1.length ≤ iocbMax ↔ Jumpless handles 0 (slices ws) :=
  storeLoop_le_iff _ (Nat.zero_le _)

theorem prepare_spec (p : Nat) (h : ws.dsOffset ≤ commonBufSize) :
    (∀ is, prepare handles p ws = some is →
      Resolved handles ws ∧ count handles ws < iocbMax ∧ is.length = count handles ws) ∧
      (prepare handles p ws = none → ¬ (Resolved handles ws ∧ count handles ws < iocbMax)) := by
  rw [prepare_eq p h]
  refine ⟨fun is his => ?_, fun hnone hroom => ?_⟩
  · obtain ⟨iocbs, hsubmission, rfl⟩ := Option.map_eq_some_iff.mp his
    obtain ⟨hperformed, hlt⟩ := submission_eq_some_iff.mp hsubmission
    have hdone : (performed handles ws).1 = true := by rw [hperformed]
    have hlength : iocbs.length = count handles ws := by rw [← length_performed hdone, hperformed]
    exact ⟨performed_iff_resolved.mp hdone, hlength ▸ hlt, by rw [List.length_map, hlength]⟩
  · have hdone := performed_iff_resolved.mpr hroom.1
    have hsome := submission_eq_some_iff.mpr ⟨Prod.ext hdone rfl, length_performed hdone ▸ hroom.2⟩
    rw [hsome] at hnone
    exact absurd hnone nofun

theorem flight_le_total (hl : Ledger handles s) : s.flight.length ≤ s.iocbsTotal := by
  have hcounted := hl.counted
  have hcard := Multiset.card_le_card hl.traced
  simp only [traced, Multiset.card_add, Multiset.coe_card] at hcard
  omega

theorem bounded_iff (hl : Ledger handles s) : Bounded s ↔ s.iocbsTotal ≤ iocbMax :=
  ⟨Bounded.total, fun h => ⟨h, (flight_le_total hl).trans h⟩⟩

theorem next_inside (hl : Ledger handles s) (hw : s.writer = true) {p : Nat} {cache : WriteCache B ix}
    (hn : s.cache.getNext s.currentWs = some (p, cache)) : (cache.ws p).dsOffset ≤ commonBufSize := by
  obtain ⟨w, hpushed⟩ := hl.next hw hn
  obtain ⟨hsame, hfilled⟩ := hl.same _ (List.mem_of_getElem? hpushed)
  rw [(AioQueue.getNext_frame hl.ascending hn).1, hsame.dsOffset]
  exact hfilled.inside

theorem submit_iff (hl : Ledger handles s) (hb : s.iocbsTotal ≤ iocbMax) {res : Int}
    (hs : submit handles s res = some s') :
    stores handles s (.submit res : Event B) ≤ iocbMax ∧ s'.iocbsTotal ≤ iocbMax ↔
      Roomy handles s (.submit res) := by
  obtain ⟨hw, -, p, cache, hn, hcases⟩ := submit_cases hs
  have hstores : stores handles s (.submit res : Event B) = (stored handles (cache.ws p)).1.length := by
    unfold stores
    rw [hn]
  have hroomy : Roomy handles s (.submit res) ↔ Jumpless handles 0 (slices (cache.ws p)) ∧
      (Resolved handles (cache.ws p) ∧ count handles (cache.ws p) < iocbMax →
        s.iocbsTotal + count handles (cache.ws p) ≤ iocbMax) := by
    refine ⟨fun h => h p cache hn, fun h p' cache' hn' => ?_⟩
    obtain ⟨rfl, rfl⟩ := Prod.mk.inj (Option.some.inj (hn.symm.trans hn'))
    exact h
  obtain ⟨hsome, hnone⟩ := @prepare_spec B handles (cache.ws p) p (next_inside hl hw hn)
  rw [hstores, stored_le_iff, hroomy]
  refine and_congr_right fun _ => ?_
  obtain ⟨hprepare, rfl⟩ | ⟨is, hprepare, rfl⟩ := hcases
  · exact iff_of_true hb fun hroom => absurd hroom (hnone hprepare)
  · obtain ⟨hresolved, hlt, hlength⟩ := hsome is hprepare
    dsimp only
    rw [hlength]
    exact ⟨fun h _ => h, fun h => h ⟨hresolved, hlt⟩⟩

theorem step_iff (hl : Ledger handles s) (hb : s.iocbsTotal ≤ iocbMax) (e : Event B)
    (hs : step mem handles s e = some s') :
    stores handles s e ≤ iocbMax ∧ s'.iocbsTotal ≤ iocbMax ↔ Roomy handles s e := by
  cases e with
  | push ws filled =>
    cases hs
    exact iff_of_true ⟨Nat.zero_le _, hb⟩ trivial
  | submit res => exact submit_iff hl hb hs
  | finish k res junk =>
    obtain ⟨i, -, rfl⟩ := finish_cases hs
    exact iff_of_true ⟨Nat.zero_le _, hb⟩ trivial
  | getEvents ks =>
    obtain ⟨-, -, batch, done, -, rfl⟩ := getEvents_cases hs
    exact iff_of_true ⟨Nat.zero_le _, hb⟩ trivial
  | event =>
    obtain ⟨i, res, batch, size, sizes, -, -, ⟨-, rfl⟩ | ⟨-, -, -, rfl⟩ | ⟨-, -, -, rfl⟩⟩ :=
      event_cases hs
    · exact iff_of_true ⟨Nat.zero_le _, hb⟩ trivial
    · exact iff_of_true ⟨Nat.zero_le _, (Nat.sub_le _ _).trans hb⟩ trivial
    · exact iff_of_true ⟨Nat.zero_le _, (Nat.sub_le _ _).trans hb⟩ trivial

/-- In every run whose rounds are roomy, no more requests are in flight than the kernel
was set up for; and of each next step, just the roomy ones stay inside the array and
inside this bound. -/
theorem bounded_of_roomy (mem : B → Nat → UInt8) (handles : List (Nat × LowHandle)) (disk₀ : Disk)
    (s : State B ix) (h : Runs.Reachable (start disk₀) (step mem handles) (Roomy handles) s) :
    Bounded s ∧ ∀ e s', step mem handles s e = some s' →
      (stores handles s e ≤ iocbMax ∧ Bounded s' ↔ Roomy handles s e) := by
  have hi := h.invariant (fun s => Ledger handles s ∧ s.iocbsTotal ≤ iocbMax)
    ⟨ledger_start disk₀, Nat.zero_le _⟩
    fun s e s' hi hok hstep => ⟨ledger_step hi.1 e hstep, ((step_iff hi.1 hi.2 e hstep).mpr hok).2⟩
  refine ⟨(bounded_iff hi.1).mpr hi.2, fun e s' hstep => ?_⟩
  rw [bounded_iff (ledger_step hi.1 e hstep)]
  exact step_iff hi.1 hi.2 e hstep

theorem filled_sampleSegment {n : Nat} (hpos : 0 < n) (hle : n ≤ 256) :
    (AioSubmission.sampleSegment n).Filled := by
  have hfits : n < 2 ^ 32 := by omega
  refine ⟨rfl, ⟨rfl, rfl⟩, hpos, hfits, (lba2Offset_eq n).symm, Nat.zero_le _, ?_⟩
  show lba2Offset n ≤ commonBufSize - 0 + 0
  rw [lba2Offset_eq, commonBufSize]
  omega

/-- A segment over three parts. -/
theorem bounded_three_parts : ∃ s : State Unit LbaIndex.ofList,
    Runs.Reachable (start fun _ => 0) (step (fun _ _ => 0) (AioSubmission.sampleHandles 3))
      (Roomy (AioSubmission.sampleHandles 3)) s ∧ s.flight.length = 3 ∧ Bounded s := by
  have hf : (AioSubmission.sampleSegment 3).Filled := filled_sampleSegment (by decide) (by decide)
  have h₁ : Runs.Reachable (start fun _ => 0 : State Unit LbaIndex.ofList)
      (step (fun _ _ => 0) (AioSubmission.sampleHandles 3)) (Roomy (AioSubmission.sampleHandles 3)) _ :=
    .step .start (show Roomy _ _ (.push _ hf) from trivial) rfl
  have hl := ledger_of_reachable h₁
  have h₂ := Runs.Reachable.step h₁ ((@submit_iff _ _ _ _ _ hl (by decide) 3 rfl).mp
    ⟨by decide, by decide⟩) rfl
  exact ⟨_, h₂, rfl, (bounded_of_roomy _ _ _ _ h₂).1⟩

/-- A segment over 65 parts, in one buffer: the last request is stored behind the array. -/
theorem not_bounded_many : ∃ s : State Unit LbaIndex.ofList,
    Runs.Reachable (start fun _ => 0) (step (fun _ _ => 0) (AioSubmission.sampleHandles 65))
      (fun _ _ => True) s ∧
      s.writer = true ∧ ¬ stores (AioSubmission.sampleHandles 65) s
      (.submit 0 : Event Unit) ≤ iocbMax := by
  have hf : (AioSubmission.sampleSegment 65).Filled := filled_sampleSegment (by decide) (by decide)
  refine ⟨_, .step .start (e := .push _ hf) trivial rfl, rfl, ?_⟩
  decide +kernel

end Sstoraged.IocbBounds
