import Mathlib.Data.List.Basic
import Sstoraged.Runs

namespace Sstoraged

/-- What one call of a task's `run` does: it returns true or false, or throws. -/
inductive RunResult
  | done
  | again
  | throws

/-- The send queue of a session, with the tasks that were pushed and those that
completed so far, in that order. -/
structure SessionSendTask (T : Type) where
  tasks : List T
  pushed : List T
  completed : List T
  thrown : Bool

namespace SessionSendTask

variable {T : Type}

def init : SessionSendTask T := ⟨[], [], [], false⟩

def push (s : SessionSendTask T) (task : T) : SessionSendTask T :=
  { s with tasks := s.tasks ++ [task], pushed := s.pushed ++ [task] }

/-- `std::list::merge` takes an element of the second list when it is less than the
one of the first. -/
def merge (lt : T → T → Bool) (tasks tasklist : List T) : List T :=
  List.merge tasks tasklist fun x y => !lt y x

/-- Merge an element and, by `rest`, those behind it with a list. -/
def mergeCons (lt : T → T → Bool) (x : T) (rest : List T → List T) : List T → List T
  | [] => x :: rest []
  | y :: tasklist => if lt y x then y :: mergeCons lt x rest tasklist else x :: rest (y :: tasklist)

theorem merge_eq_foldr {lt : T → T → Bool} {tasks tasklist : List T} :
    merge lt tasks tasklist = tasks.foldr (mergeCons lt) id tasklist := by
  induction tasks generalizing tasklist with
  | nil => exact List.nil_merge ..
  | cons x tasks ih =>
    induction tasklist with
    | nil =>
      rw [List.foldr_cons, mergeCons, ← ih]
      exact (List.merge_right ..).trans (congrArg _ (List.merge_right ..).symm)
    | cons y tasklist ihy =>
      rw [List.foldr_cons, mergeCons]
      split
      · next hlt =>
        rw [← List.foldr_cons (f := mergeCons lt), ← ihy]
        exact List.cons_merge_cons_neg _ _ _ (by simp [hlt])
      · next hlt =>
        rw [← ih]
        exact List.cons_merge_cons_pos _ _ _ (by simp [hlt])

def pushList (lt : T → T → Bool) (s : SessionSendTask T) (tasklist : List T) : SessionSendTask T :=
  { s with tasks := merge lt s.tasks tasklist, pushed := s.pushed ++ tasklist }

/-- Run the tasks from the front on; `results` is what their calls of `run` do. -/
def invoke (s : SessionSendTask T) : List RunResult → SessionSendTask T
  | [] => s
  | r :: results =>
    match s.tasks, r with
    | [], _ => s
    | t :: tasks, .done => invoke { s with tasks, completed := s.completed ++ [t] } results
    | _ :: _, .again => s
    | _ :: _, .throws => { s with tasks := [], thrown := true }

inductive Event (T : Type)
  | push (task : T)
  | pushList (tasklist : List T)
  | invoke (results : List RunResult)

def step (lt : T → T → Bool) (s : SessionSendTask T) : Event T → Option (SessionSendTask T)
  | .push task => some (s.push task)
  | .pushList tasklist => some (s.pushList lt tasklist)
  | .invoke results => some (s.invoke results)

/-- Tasks complete in the order in which they were pushed, each once, and none is
lost until one throws. -/
structure InOrder (s : SessionSendTask T) : Prop where
  sublist : List.Sublist s.completed s.pushed
  whole : s.thrown = false → s.completed ++ s.tasks = s.pushed

/-- The first task of a list that is pushed is not less than any task in the queue. -/
def Behind (lt : T → T → Bool) (s : SessionSendTask T) : Event T → Prop
  | .pushList (y :: _) => ∀ x ∈ s.tasks, lt y x = false
  | _ => True

variable {lt : T → T → Bool}

theorem merge_eq_append {tasks tasklist : List T} {y : T} (h : ∀ x ∈ tasks, lt y x = false) :
    merge lt tasks (y :: tasklist) = tasks ++ y :: tasklist := by
  induction tasks with
  | nil => rw [merge, List.nil_merge, List.nil_append]
  | cons x tasks ih =>
    have hx := h x List.mem_cons_self
    rw [merge, List.cons_merge_cons_pos _ _ _ (by simp [hx]), List.cons_append]
    exact congrArg _ (ih fun z hz => h z (List.mem_cons_of_mem _ hz))

/-- Nothing is lost but by a throw. -/
structure Inv (s : SessionSendTask T) : Prop where
  sublist : List.Sublist (s.completed ++ s.tasks) s.pushed
  whole : s.thrown = false → s.completed ++ s.tasks = s.pushed

theorem Inv.append {s : SessionSendTask T} (h : Inv s) (l : List T) :
    Inv { s with tasks := s.tasks ++ l, pushed := s.pushed ++ l } := by
  refine ⟨?_, fun ht => ?_⟩
  · dsimp only
    rw [← List.append_assoc]
    exact h.sublist.append (List.Sublist.refl l)
  · dsimp only
    rw [← List.append_assoc, h.whole ht]

theorem Inv.invoke {s : SessionSendTask T} (h : Inv s) (results : List RunResult) :
    Inv (s.invoke results) := by
  induction results generalizing s with
  | nil => exact h
  | cons r results ih =>
    obtain ⟨tasks, pushed, completed, thrown⟩ := s
    cases tasks with
    | nil => exact h
    | cons t tasks =>
      obtain ⟨hsub, hwhole⟩ := h
      cases r with
      | done => exact ih ⟨by simpa using hsub, fun hf => by simpa using hwhole hf⟩
      | again => exact ⟨hsub, hwhole⟩
      | throws =>
        refine ⟨?_, fun hf => by cases hf⟩
        change List.Sublist (completed ++ []) pushed
        rw [List.append_nil]
        exact (List.sublist_append_left _ _).trans hsub

theorem Inv.step {s s' : SessionSendTask T} {e : Event T} (h : Inv s) (hb : Behind lt s e)
    (hs : step lt s e = some s') : Inv s' := by
  cases e with
  | push task =>
    obtain rfl := Option.some.inj hs
    exact h.append [task]
  | pushList tasklist =>
    obtain rfl := Option.some.inj hs
    cases tasklist with
    | nil =>
      rw [pushList, merge, List.merge_right, List.append_nil]
      exact h
    | cons y tasklist =>
      rw [pushList, merge_eq_append hb]
      exact h.append _
  | invoke results =>
    obtain rfl := Option.some.inj hs
    exact h.invoke results

/-- The send queue keeps the order in which tasks are pushed, as long as no list is
pushed whose first task the merge finds a place for in front of a waiting one. -/
theorem inOrder_of_behind (lt : T → T → Bool) {s : SessionSendTask T}
    (h : Runs.Reachable init (step lt) (Behind lt) s) : InOrder s := by
  have h₀ : Inv (init : SessionSendTask T) := ⟨List.Sublist.refl _, fun _ => rfl⟩
  have hinv : Inv s := h.invariant Inv h₀ fun _ _ _ hi hb hs => hi.step hb hs
  exact ⟨(List.sublist_append_left _ _).trans hinv.sublist, hinv.whole⟩

/-- A list behind a waiting task, ordered by their numbers. -/
theorem inOrder_three_tasks : InOrder (⟨[], [1, 2, 3], [1, 2, 3], false⟩ : SessionSendTask Nat) := by
  apply inOrder_of_behind (fun a b => decide (a < b))
  have h₁ : Runs.Reachable init (step fun a b => decide (a < b)) (Behind fun a b => decide (a < b))
      (⟨[1], [1], [], false⟩ : SessionSendTask Nat) :=
    .step .start (show Behind _ _ (.push 1) from trivial) rfl
  have h₂ : Runs.Reachable init (step fun a b => decide (a < b)) (Behind fun a b => decide (a < b))
      (⟨[1, 2, 3], [1, 2, 3], [], false⟩ : SessionSendTask Nat) := by
    refine .step h₁ (show Behind _ _ (.pushList [2, 3]) from ?_) (by simp [step, pushList, merge])
    intro x hx
    obtain rfl := List.mem_singleton.mp hx
    rfl
  exact .step h₂ (show Behind _ _ (.invoke [.done, .done, .done]) from trivial) rfl

/-- A task waits, and a list is pushed whose task has the lower address: it
completes first. -/
theorem not_inOrder_lower_address : ∃ s : SessionSendTask Nat,
    Runs.Reachable init (step fun a b => decide (a < b)) (fun _ _ => True) s ∧ ¬ InOrder s := by
  refine ⟨⟨[2], [2, 1], [1], false⟩, ?_, fun h => ?_⟩
  · have h₁ : Runs.Reachable init (step fun a b => decide (a < b)) (fun _ _ => True)
        (⟨[2], [2], [], false⟩ : SessionSendTask Nat) :=
      .step .start trivial (show step _ _ (.push 2) = _ from rfl)
    have h₂ : Runs.Reachable init (step fun a b => decide (a < b)) (fun _ _ => True)
        (⟨[1, 2], [2, 1], [], false⟩ : SessionSendTask Nat) :=
      .step h₁ trivial (show step _ _ (.pushList [1]) = _ by simp [step, pushList, merge])
    exact .step h₂ trivial (show step _ _ (.invoke [.done, .again]) = _ from rfl)
  · have hw := h.whole rfl
    exact absurd hw (by decide)

end SessionSendTask

end Sstoraged
