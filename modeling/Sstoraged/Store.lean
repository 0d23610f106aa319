import Mathlib.Tactic.Common

namespace Sstoraged

/-- Values stored one behind the other from an address on. -/
structure Store (α : Type) where
  addr : Nat
  vals : List α

namespace Store

variable {α : Type}

def apply (w : Store α) (m : Nat → α) : Nat → α := fun i =>
  if w.addr ≤ i then w.vals[i - w.addr]?.getD (m i) else m i

/-- Store one block after the other. -/
def run (ws : List (Store α)) (m : Nat → α) : Nat → α := ws.foldl (fun m w => w.apply m) m

def Covers (w : Store α) (i : Nat) : Prop := w.addr ≤ i ∧ i < w.addr + w.vals.length

instance (w : Store α) (i : Nat) : Decidable (w.Covers i) :=
  inferInstanceAs (Decidable (w.addr ≤ i ∧ i < w.addr + w.vals.length))

def Covered (ws : List (Store α)) (i : Nat) : Prop := ∃ w ∈ ws, w.Covers i

theorem apply_add (w : Store α) (m : Nat → α) {j : Nat} (h : j < w.vals.length) :
    w.apply m (w.addr + j) = w.vals[j] := by
  rw [apply, if_pos (Nat.le_add_right _ _), Nat.add_sub_cancel_left, List.getElem?_eq_getElem h,
    Option.getD_some]

theorem apply_of_not_covers {w : Store α} {i : Nat} (h : ¬ w.Covers i) (m : Nat → α) :
    w.apply m i = m i := by
  rw [apply]
  split
  · rename_i hle
    have hlen : w.vals.length ≤ i - w.addr := Nat.le_of_not_lt fun hlt => h ⟨hle, by omega⟩
    rw [List.getElem?_eq_none hlen, Option.getD_none]
  · rfl

theorem apply_of_covers {w : Store α} {i : Nat} (h : w.Covers i) (m m' : Nat → α) :
    w.apply m i = w.apply m' i := by
  obtain ⟨j, rfl⟩ := Nat.exists_eq_add_of_le h.1
  have hj : j < w.vals.length := Nat.lt_of_add_lt_add_left h.2
  rw [w.apply_add m hj, w.apply_add m' hj]

theorem apply_append (a : Nat) (xs ys : List α) (m : Nat → α) :
    (Store.mk (a + xs.length) ys).apply ((Store.mk a xs).apply m) = (Store.mk a (xs ++ ys)).apply m := by
  funext i
  by_cases hi : a + xs.length ≤ i
  · have hfirst : a ≤ i := Nat.le_of_add_right_le hi
    have hlen : xs.length ≤ i - a := by omega
    simp only [apply, if_pos hi, if_pos hfirst, List.getElem?_append_right hlen,
      List.getElem?_eq_none hlen,
      Option.getD_none, Nat.sub_sub]
  · simp only [apply, if_neg hi]
    split
    · rw [List.getElem?_append_left (by omega)]
    · rfl

theorem apply_congr (w : Store α) {m m' : Nat → α} {i : Nat} (h : m i = m' i) :
    w.apply m i = w.apply m' i := by
  simp only [apply, h]

@[simp] theorem run_nil (m : Nat → α) : run [] m = m := rfl

@[simp] theorem run_cons (w : Store α) (ws : List (Store α)) (m : Nat → α) :
    run (w :: ws) m = run ws (w.apply m) := rfl

theorem run_append (ws ws' : List (Store α)) (m : Nat → α) : run (ws ++ ws') m = run ws' (run ws m) :=
  List.foldl_append

theorem run_congr (ws : List (Store α)) {m m' : Nat → α} {i : Nat} (h : m i = m' i) :
    run ws m i = run ws m' i := by
  induction ws generalizing m m' with
  | nil => exact h
  | cons w ws ih => exact ih (w.apply_congr h)

theorem run_of_not_covered {ws : List (Store α)} {i : Nat} (h : ¬ Covered ws i) (m : Nat → α) :
    run ws m i = m i := by
  induction ws generalizing m with
  | nil => rfl
  | cons w ws ih =>
    rw [run_cons, ih fun ⟨v, hv, hc⟩ => h ⟨v, List.mem_cons_of_mem _ hv, hc⟩]
    exact apply_of_not_covers (fun hc => h ⟨w, List.mem_cons_self, hc⟩) m

theorem run_of_covered {ws : List (Store α)} {i : Nat} (h : Covered ws i) (m m' : Nat → α) :
    run ws m i = run ws m' i := by
  obtain ⟨w, hw, hc⟩ := h
  obtain ⟨before, after, rfl⟩ := List.append_of_mem hw
  rw [run_append, run_append, run_cons, run_cons]
  exact run_congr after (apply_of_covers hc _ _)

/-- What some stores leave behind does not depend on what was there before just if they
cover all of it. -/
theorem run_eq_iff_covered [Nontrivial α] (ws : List (Store α)) (i : Nat) :
    (∀ m m', run ws m i = run ws m' i) ↔ Covered ws i := by
  refine ⟨fun h => ?_, run_of_covered⟩
  by_contra hc
  obtain ⟨x, y, hne⟩ := exists_pair_ne α
  have heq := h (fun _ => x) fun _ => y
  rw [run_of_not_covered hc, run_of_not_covered hc] at heq
  exact hne heq

end Store

end Sstoraged
