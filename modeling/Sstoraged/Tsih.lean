import Mathlib.Logic.Function.Basic
import Sstoraged.Common
import Sstoraged.Runs

namespace Sstoraged.Tsih

/-- What counts of a session here: its handle, 0 until one is assigned, and whether it
reached the full feature phase. -/
structure SessionHandle where
  tsih : Nat
  full : Bool

/-- The sessions alive, and the counter of the manager. -/
structure State where
  sessions : Nat → Option SessionHandle
  counter : Nat

def init : State := ⟨fun _ => none, 1⟩

/-- The counter runs from 1 over 32 bits. -/
def getNextTSIH (s : State) : Nat × State :=
  (s.counter, { s with counter := if 2 ^ 32 - 1 ≤ s.counter then 1 else s.counter + 1 })

/-- The handle of a session has 16 bits. -/
def store (g : Nat) : Nat := g % 2 ^ 16

/-- A Login that transits to the full feature phase completes, or it fails after the
handle is set. -/
inductive Event
  | create (id : Nat)
  | transit (id : Nat) (completes : Bool)
  | remove (id : Nat)

/-- A handle is drawn for a session that has none. -/
def transit (s : State) (id : Nat) (ses : SessionHandle) (completes : Bool) : State :=
  if ses.tsih = 0 then
    let (g, s) := getNextTSIH s
    { s with sessions := Function.update s.sessions id (some ⟨store g, ses.full || completes⟩) }
  else
    { s with sessions :=
        Function.update s.sessions id (some { ses with full := ses.full || completes }) }

def step (s : State) : Event → Option State
  | .create id =>
    match s.sessions id with
    | some _ => none
    | none => some { s with sessions := Function.update s.sessions id (some ⟨0, false⟩) }
  | .transit id completes => (s.sessions id).map fun ses => transit s id ses completes
  | .remove id => (s.sessions id).map fun _ => { s with sessions := Function.update s.sessions id none }

/-- Sessions in the full feature phase have handles, and no two have the same. -/
structure Unique (s : State) : Prop where
  assigned : ∀ id ses, s.sessions id = some ses → ses.full = true → ses.tsih ≠ 0
  distinct : ∀ id id' ses ses', s.sessions id = some ses → s.sessions id' = some ses' →
    ses.tsih ≠ 0 → ses.tsih = ses'.tsih → id = id'

/-- The condition: the low half of the counter is no handle in use, and not 0. -/
def Free (s : State) : Event → Prop
  | .transit id _ => ∀ ses, s.sessions id = some ses → ses.tsih = 0 →
      store s.counter ≠ 0 ∧ ∀ id' ses', s.sessions id' = some ses' → ses'.tsih ≠ store s.counter
  | .create _ | .remove _ => True

theorem Unique.create {s : State} (h : Unique s) (id : Nat) :
    Unique { s with sessions := Function.update s.sessions id (some ⟨0, false⟩) } := by
  refine ⟨fun i ses hi hfull => ?_, fun i j ses ses' hi hj hne heq => ?_⟩
  · dsimp only at hi
    by_cases hid : i = id
    · rw [hid, Function.update_self, Option.some.injEq] at hi
      rw [← hi] at hfull
      cases hfull
    · rw [Function.update_of_ne hid] at hi
      exact h.assigned i ses hi hfull
  · dsimp only at hi hj
    by_cases hid : i = id
    · rw [hid, Function.update_self, Option.some.injEq] at hi
      exact absurd (hi ▸ rfl) hne
    by_cases hjd : j = id
    · rw [hjd, Function.update_self, Option.some.injEq] at hj
      exact absurd (heq.trans (hj ▸ rfl)) hne
    · rw [Function.update_of_ne hid] at hi
      rw [Function.update_of_ne hjd] at hj
      exact h.distinct i j ses ses' hi hj hne heq

theorem Unique.remove {s : State} (h : Unique s) (id : Nat) :
    Unique { s with sessions := Function.update s.sessions id none } := by
  have hold : ∀ {i ses}, Function.update s.sessions id none i = some ses → s.sessions i = some ses := by
    intro i ses hi
    by_cases hid : i = id
    · rw [hid, Function.update_self] at hi
      cases hi
    · rwa [Function.update_of_ne hid] at hi
  exact ⟨fun i ses hi => h.assigned i ses (hold hi),
    fun i j ses ses' hi hj => h.distinct i j ses ses' (hold hi) (hold hj)⟩

theorem Unique.assign {s : State} (h : Unique s) {id : Nat} {new : SessionHandle} (hpos : new.tsih ≠ 0)
    (hfree : ∀ id' ses', s.sessions id' = some ses' → id' ≠ id → ses'.tsih ≠ new.tsih) (counter : Nat) :
    Unique ⟨Function.update s.sessions id (some new), counter⟩ := by
  refine ⟨fun i ses hi hfull => ?_, fun i j ses ses' hi hj hne heq => ?_⟩
  · dsimp only at hi
    by_cases hid : i = id
    · rw [hid, Function.update_self, Option.some.injEq] at hi
      rwa [← hi]
    · rw [Function.update_of_ne hid] at hi
      exact h.assigned i ses hi hfull
  · dsimp only at hi hj
    by_cases hid : i = id <;> by_cases hjd : j = id
    · rw [hid, hjd]
    · rw [hid, Function.update_self, Option.some.injEq] at hi
      rw [Function.update_of_ne hjd] at hj
      exact absurd (heq.symm.trans (hi ▸ rfl)) (hfree j ses' hj hjd)
    · rw [hjd, Function.update_self, Option.some.injEq] at hj
      rw [Function.update_of_ne hid] at hi
      exact absurd (heq.trans (hj ▸ rfl)) (hfree i ses hi hid)
    · rw [Function.update_of_ne hid] at hi
      rw [Function.update_of_ne hjd] at hj
      exact h.distinct i j ses ses' hi hj hne heq

theorem Unique.step {s s' : State} {e : Event} (h : Unique s) (hf : Free s e) (hs : step s e = some s') :
    Unique s' := by
  cases e with
  | create id =>
    rw [Tsih.step] at hs
    split at hs
    · cases hs
    · obtain rfl := Option.some.inj hs
      exact h.create id
  | transit id completes =>
    obtain ⟨ses, hses, rfl⟩ := Option.map_eq_some_iff.1 hs
    rw [transit]
    split
    · rename_i hzero
      obtain ⟨hpos, hfree⟩ := hf ses hses hzero
      exact h.assign hpos (fun id' ses' h' _ => hfree id' ses' h') _
    · rename_i hpos
      refine @Unique.assign s h id ⟨ses.tsih, ses.full || completes⟩ hpos
        (fun id' ses' h' hne heq => hne ?_) _
      exact h.distinct id' id ses' ses h' hses (fun hz => hpos (heq.symm.trans hz)) heq
  | remove id =>
    obtain ⟨ses, hses, rfl⟩ := Option.map_eq_some_iff.1 hs
    exact h.remove id

theorem unique_init : Unique init := by
  constructor
  · intro id ses hid
    cases hid
  · intro id id' ses ses' hid
    cases hid

/-- Handles are unique as long as none is drawn that is in use or 0. -/
theorem unique_of_free {s : State} (h : Runs.Reachable init step Free s) : Unique s :=
  h.invariant Unique unique_init fun _ _ _ hi hf hs => hi.step hf hs

section Wrap

/-- One session stays, and others come and go. -/
def passing (counter : Nat) : State := ⟨Function.update (fun _ => none) 0 (some ⟨1, true⟩), counter⟩

def arrived (counter : Nat) : State :=
  ⟨Function.update (passing counter).sessions 1 (some ⟨0, false⟩), counter⟩

def completed (counter : Nat) : State :=
  ⟨Function.update (passing counter).sessions 1 (some ⟨store counter, true⟩), counter + 1⟩

theorem step_create (counter : Nat) : step (passing counter) (.create 1) = some (arrived counter) := rfl

theorem step_transit {counter : Nat} (h : counter < 2 ^ 32 - 1) :
    step (arrived counter) (.transit 1 true) = some (completed counter) := by
  have hses : (arrived counter).sessions 1 = some ⟨0, false⟩ := rfl
  rw [step, hses, Option.map_some, transit, if_pos rfl, getNextTSIH]
  dsimp only
  rw [arrived, if_neg (Nat.not_le_of_lt h), completed, Function.update_idem]
  rfl

theorem step_remove (counter : Nat) :
    step (completed counter) (.remove 1) = some (passing (counter + 1)) := by
  have hses : (completed counter).sessions 1 = some ⟨store counter, true⟩ := rfl
  have hnone : (passing counter).sessions 1 = none := rfl
  rw [step, hses, Option.map_some, completed, Function.update_idem, ← hnone, Function.update_eq_self]
  rfl

def first : State := ⟨Function.update (fun _ => none) 0 (some ⟨0, false⟩), 1⟩

theorem step_first : step first (.transit 0 true) = some (passing 2) := by
  have hses : first.sessions 0 = some ⟨0, false⟩ := rfl
  rw [step, hses, Option.map_some, transit, if_pos rfl, getNextTSIH]
  dsimp only
  rw [first, if_neg (by decide), passing, Function.update_idem]
  rfl

theorem reachable_two {ok : State → Event → Prop} (hcreate : ok init (.create 0))
    (htransit : ok first (.transit 0 true)) : Runs.Reachable init step ok (passing 2) :=
  .step (.step .start hcreate rfl) htransit step_first

theorem reachable_passing {n : Nat} (h : n + 2 ≤ 2 ^ 32 - 1) :
    Runs.Reachable init step (fun _ _ => True) (passing (n + 2)) := by
  induction n with
  | zero => exact reachable_two trivial trivial
  | succ n ih =>
    have hlt : n + 2 < 2 ^ 32 - 1 := by omega
    have h₁ := (ih (by omega)).step trivial (step_create _)
    have h₂ := h₁.step trivial (step_transit hlt)
    exact h₂.step trivial (step_remove _)

theorem reachable_completed {n : Nat} (h : n + 2 < 2 ^ 32 - 1) :
    Runs.Reachable init step (fun _ _ => True) (completed (n + 2)) :=
  ((reachable_passing (by omega)).step trivial (step_create _)).step trivial (step_transit h)

/-- Two sessions log in one after the other. -/
theorem unique_two_sessions : Unique (completed 2) := by
  apply unique_of_free
  have h₁ : Runs.Reachable init step Free (passing 2) := by
    refine reachable_two trivial fun ses _ _ => ⟨by decide, fun id ses' hs => ?_⟩
    simp only [first, Function.update_apply] at hs
    split at hs
    · obtain rfl := Option.some.inj hs
      decide
    · cases hs
  have h₂ : Runs.Reachable init step Free (arrived 2) :=
    h₁.step (show Free _ (.create 1) from trivial) (step_create 2)
  have hfree : Free (arrived 2) (.transit 1 true) := by
    refine fun ses _ _ => ⟨by decide, fun id ses' hs => ?_⟩
    simp only [arrived, passing, Function.update_apply] at hs
    split at hs
    · obtain rfl := Option.some.inj hs
      decide
    · split at hs
      · obtain rfl := Option.some.inj hs
        decide
      · cases hs
  exact h₂.step hfree (step_transit (by decide))

/-- The 65536th login gets the handle 0, and the next one the handle of the session that
stayed. -/
theorem not_unique_wrap : ∃ s s', Runs.Reachable init step (fun _ _ => True) s ∧
    Runs.Reachable init step (fun _ _ => True) s' ∧
    (∃ ses, s.sessions 1 = some ses ∧ ses.full = true ∧ ses.tsih = 0) ∧
    (∃ ses ses', s'.sessions 0 = some ses ∧ s'.sessions 1 = some ses' ∧ ses.full = true ∧
      ses'.full = true ∧ ses.tsih = 1 ∧ ses'.tsih = 1) ∧ ¬ Unique s ∧ ¬ Unique s' := by
  refine ⟨completed 65536, completed 65537, @reachable_completed 65534 (by decide),
    @reachable_completed 65535 (by decide), ⟨_, rfl, rfl, by decide⟩,
    ⟨_, _, rfl, rfl, rfl, rfl, rfl, by decide⟩, fun h => ?_, fun h => ?_⟩
  · exact h.assigned 1 _ rfl rfl (by decide)
  · exact absurd (h.distinct 0 1 _ _ rfl rfl (by decide) (by decide)) (by decide)

end Wrap

end Sstoraged.Tsih
