import Mathlib.Tactic.Common

namespace Sstoraged.Runs

variable {S E : Type} (init : S) (step : S → E → Option S)

/-- States reached by steps that each meet a condition on the state before
them. The condition `fun _ _ => True` gives every reachable state. -/
inductive Reachable (ok : S → E → Prop) : S → Prop
  | start : Reachable ok init
  | step {s e s'} : Reachable ok s → ok s e → step s e = some s' → Reachable ok s'

variable {init step}

theorem Reachable.invariant {ok : S → E → Prop} (Inv : S → Prop) (h₀ : Inv init)
    (hstep : ∀ s e s', Inv s → ok s e → step s e = some s' → Inv s')
    {s : S} (h : Reachable init step ok s) : Inv s := by
  induction h with
  | start => exact h₀
  | step _ hok hs ih => exact hstep _ _ _ ih hok hs

theorem Reachable.mono {ok ok' : S → E → Prop} (himp : ∀ s e, ok s e → ok' s e)
    {s : S} (h : Reachable init step ok s) : Reachable init step ok' s := by
  induction h with
  | start => exact .start
  | step _ hok hs ih => exact .step ih (himp _ _ hok) hs

/-- Run a list of events, each of which must be enabled. -/
def exec (step : S → E → Option S) (s : S) (es : List E) : Option S := es.foldlM step s

theorem reachable_of_exec {s s' : S} {es : List E} (h : Reachable init step (fun _ _ => True) s)
    (he : exec step s es = some s') : Reachable init step (fun _ _ => True) s' := by
  induction es generalizing s with
  | nil =>
    simp only [exec, List.foldlM_nil, Option.pure_def, Option.some.injEq] at he
    rwa [← he]
  | cons e es ih =>
    simp only [exec, List.foldlM_cons, Option.bind_eq_bind, Option.bind_eq_some_iff] at he
    obtain ⟨t, ht, he⟩ := he
    exact ih (.step h trivial ht) he

/-- A condition on each event of a run and the state before it. An event that is not
enabled ends the run. -/
def Along (step : S → E → Option S) (P : S → E → Prop) : S → List E → Prop
  | _, [] => True
  | s, e :: es => P s e ∧ ∀ s', step s e = some s' → Along step P s' es

/-- Conditions that agree wherever an invariant holds agree along runs, when steps that
meet them keep the invariant. -/
theorem along_iff {P Q : S → E → Prop} (Inv : S → Prop) (hiff : ∀ s e, Inv s → (P s e ↔ Q s e))
    (hstep : ∀ s e s', Inv s → P s e → step s e = some s' → Inv s') {s : S} (h : Inv s) (es : List E) :
    Along step P s es ↔ Along step Q s es := by
  induction es generalizing s with
  | nil => exact Iff.rfl
  | cons e es ih =>
    constructor
    · rintro ⟨hP, hrest⟩
      exact ⟨(hiff s e h).mp hP, fun s' hs => (ih (hstep s e s' h hP hs)).mp (hrest s' hs)⟩
    · rintro ⟨hQ, hrest⟩
      have hP := (hiff s e h).mpr hQ
      exact ⟨hP, fun s' hs => (ih (hstep s e s' h hP hs)).mpr (hrest s' hs)⟩

end Sstoraged.Runs
