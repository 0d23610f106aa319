import Mathlib.Data.List.TakeWhile
import Mathlib.Tactic.Common

namespace Sstoraged

/-- The ordered index of the multi-index container. It keeps pointers in a tree
and reads their keys again at each operation. -/
structure LbaIndex where
  Tree : Type
  empty : Tree
  toList : Tree → List Nat
  insert : (Nat → Nat) → Nat → Tree → Tree
  erase : Nat → Tree → Tree
  /-- How many elements stand before the lower bound of a key. -/
  lowerBound : (Nat → Nat) → Nat → Tree → Nat

namespace LbaIndex

def Sorted (key : Nat → Nat) (ps : List Nat) : Prop := ps.Pairwise (fun p q => key p ≤ key q)

/-- What the container documents. The place of an insertion and of a lower
bound is only promised while the keys are still in order. -/
structure Lawful (ix : LbaIndex) : Prop where
  toList_empty : ix.toList ix.empty = []
  toList_insert : ∀ key p t, ∃ l r, ix.toList t = l ++ r ∧
    ix.toList (ix.insert key p t) = l ++ p :: r ∧
    (Sorted key (ix.toList t) → (∀ q ∈ l, key q ≤ key p) ∧ ∀ q ∈ r, key p < key q)
  toList_erase : ∀ p t, ix.toList (ix.erase p t) = (ix.toList t).erase p
  lowerBound_spec : ∀ key x t, Sorted key (ix.toList t) → ∃ l r, ix.toList t = l ++ r ∧
    ix.lowerBound key x t = l.length ∧ (∀ q ∈ l, key q < x) ∧ ∀ q ∈ r, x ≤ key q

/-- The index kept as a list in traversal order. -/
def ofList : LbaIndex where
  Tree := List Nat
  empty := []
  toList := id
  insert key p t := t.takeWhile (fun q => key q ≤ key p) ++ p :: t.dropWhile (fun q => key q ≤ key p)
  erase p t := t.erase p
  lowerBound key x t := (t.takeWhile (fun q => key q < x)).length

theorem dropWhile_of_sorted {key : Nat → Nat} {P : Nat → Bool}
    (hP : ∀ p q, key p ≤ key q → P p = false → P q = false) (ps : List Nat)
    (h : Sorted key ps) : ∀ q ∈ ps.dropWhile P, P q = false := by
  induction ps with
  | nil => simp
  | cons p ps ih =>
    obtain ⟨hp, hs⟩ := List.pairwise_cons.mp h
    cases hc : P p with
    | true => simpa [List.dropWhile_cons, hc] using ih hs
    | false =>
      rw [List.dropWhile_cons_of_neg (by simp [hc])]
      intro q hq
      rcases List.mem_cons.mp hq with rfl | hq
      · exact hc
      · exact hP p q (hp q hq) hc

theorem lawful_ofList : Lawful ofList where
  toList_empty := rfl
  toList_insert key p t := by
    refine ⟨_, _, List.takeWhile_append_dropWhile.symm, rfl, fun h => ⟨fun q hq => ?_, fun q hq => ?_⟩⟩
    · simpa using List.mem_takeWhile_imp hq
    · have hd := dropWhile_of_sorted (P := fun q => decide (key q ≤ key p))
        (fun a b hab ha => by simp only [decide_eq_false_iff_not] at *; omega) t h q hq
      simpa using hd
  toList_erase _ _ := rfl
  lowerBound_spec key x t h := by
    refine ⟨_, _, List.takeWhile_append_dropWhile.symm, rfl, fun q hq => ?_, fun q hq => ?_⟩
    · simpa using List.mem_takeWhile_imp hq
    · have hd := dropWhile_of_sorted (P := fun q => decide (key q < x))
        (fun a b hab ha => by simp only [decide_eq_false_iff_not] at *; omega) t h q hq
      simpa using hd

end LbaIndex

end Sstoraged
