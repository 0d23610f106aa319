import Mathlib.Data.List.Basic
import Mathlib.Tactic.Common

namespace Sstoraged.Transfer

variable {α : Type}

/-- An attempt to send the data that is left, and how much of it was taken. An error is
below 0 and takes nothing. -/
structure Attempt (α : Type) where
  rest : List α
  size : Int

def Attempt.taken (a : Attempt α) : List α := a.rest.take a.size.toNat

def delivered (as : List (Attempt α)) : List α := as.flatMap Attempt.taken

/-- Each attempt starts where the one before it stopped. -/
inductive Resumes : List α → List (Attempt α) → List α → Prop
  | nil (rest : List α) : Resumes rest [] rest
  | cons {rest rest' : List α} {size : Int} {as : List (Attempt α)}
      (h : Resumes (rest.drop size.toNat) as rest') : Resumes rest (⟨rest, size⟩ :: as) rest'

variable {rest rest' rest'' : List α} {as as' : List (Attempt α)}

theorem resumes_single (rest : List α) (size : Int) :
    Resumes rest [⟨rest, size⟩] (rest.drop size.toNat) :=
  .cons (.nil _)

theorem Resumes.append (h : Resumes rest as rest') (h' : Resumes rest' as' rest'') :
    Resumes rest (as ++ as') rest'' := by
  induction h with
  | nil => exact h'
  | cons _ ih => exact .cons (ih h')

theorem Resumes.delivered_append (h : Resumes rest as rest') : delivered as ++ rest' = rest := by
  induction h with
  | nil rest => rfl
  | @cons rest rest' size as _ ih =>
    calc delivered (⟨rest, size⟩ :: as) ++ rest'
        = rest.take size.toNat ++ (delivered as ++ rest') := List.append_assoc ..
      _ = rest := by rw [ih, List.take_append_drop]

theorem Resumes.delivered_initial (h : Resumes rest as rest') : delivered as <+: rest :=
  ⟨rest', h.delivered_append⟩

theorem Resumes.delivered_eq_iff (h : Resumes rest as rest') : delivered as = rest ↔ rest' = [] := by
  have happ := h.delivered_append
  refine ⟨fun heq => ?_, fun hnil => ?_⟩
  · rw [heq] at happ
    exact List.append_right_eq_self.mp happ
  · rwa [hnil, List.append_nil] at happ

end Sstoraged.Transfer
