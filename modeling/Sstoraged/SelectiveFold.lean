import Mathlib.Data.List.Basic
import Mathlib.Order.MinMax

namespace Sstoraged

/-- An operation that takes one of its arguments, the same in every order. -/
structure Selective {A : Type} (f : A → A → A) : Prop where
  assoc : ∀ a b c, f (f a b) c = f a (f b c)
  comm : ∀ a b, f a b = f b a
  pick : ∀ a b, f a b = a ∨ f a b = b

namespace Selective

theorem min {A : Type} [LinearOrder A] : Selective (Min.min : A → A → A) :=
  ⟨min_assoc, min_comm, min_choice⟩

theorem max {A : Type} [LinearOrder A] : Selective (Max.max : A → A → A) :=
  ⟨max_assoc, max_comm, max_choice⟩

theorem or : Selective (· || ·) := ⟨by decide, by decide, by decide⟩

theorem and : Selective (· && ·) := ⟨by decide, by decide, by decide⟩

variable {A : Type} {f : A → A → A} {l l' : List A} {x y a b : A}

theorem idem (h : Selective f) (a : A) : f a a = a := (h.pick a a).elim id id

theorem trans (h : Selective f) {c : A} (hab : f a b = a) (hbc : f b c = b) : f a c = a :=
  calc f a c = f (f a b) c := by rw [hab]
    _ = f a (f b c) := h.assoc a b c
    _ = a := by rw [hbc, hab]

theorem foldl_mem (h : Selective f) : l.foldl f x ∈ x :: l := by
  induction l generalizing x with
  | nil => exact List.mem_cons_self
  | cons b l ih =>
    obtain heq | hmem := List.mem_cons.mp (ih (x := f x b))
    · obtain hx | hb := h.pick x b
      · exact List.mem_cons.mpr (.inl (heq.trans hx))
      · exact List.mem_cons_of_mem _ (List.mem_cons.mpr (.inl (heq.trans hb)))
    · exact List.mem_cons_of_mem _ (List.mem_cons_of_mem _ hmem)

theorem foldl_le (h : Selective f) : ∀ v ∈ x :: l, f (l.foldl f x) v = l.foldl f x := by
  induction l generalizing x with
  | nil =>
    intro v hv
    obtain rfl := List.mem_singleton.mp hv
    exact h.idem v
  | cons b l ih =>
    have hfirst := ih (x := f x b) _ List.mem_cons_self
    intro v hv
    obtain rfl | hv := List.mem_cons.mp hv
    · apply h.trans hfirst
      rw [h.assoc, h.comm b v, ← h.assoc, h.idem]
    obtain rfl | hv := List.mem_cons.mp hv
    · apply h.trans hfirst
      rw [h.assoc, h.idem]
    · exact ih v (List.mem_cons_of_mem _ hv)

theorem foldl_eq_iff (h : Selective f) (hsub : l ⊆ l') : l.foldl f x = l'.foldl f y ↔
    (∀ v ∈ y :: l', ∃ u ∈ x :: l, f u v = u) ∧ ∃ v ∈ y :: l', f v x = v := by
  constructor
  · intro heq
    refine ⟨fun v hv => ⟨l.foldl f x, h.foldl_mem, ?_⟩, l'.foldl f y, h.foldl_mem, ?_⟩
    · rw [heq]
      exact h.foldl_le v hv
    · rw [← heq]
      exact h.foldl_le x List.mem_cons_self
  · rintro ⟨hall, v, hv, hvx⟩
    obtain ⟨u, hu, huy⟩ := hall _ h.foldl_mem
    have hle : f (l.foldl f x) (l'.foldl f y) = l.foldl f x := h.trans (h.foldl_le u hu) huy
    have hge : f (l'.foldl f y) (l.foldl f x) = l'.foldl f y := by
      obtain heq | hmem := List.mem_cons.mp (h.foldl_mem (l := l) (x := x))
      · rw [heq]
        exact h.trans (h.foldl_le v hv) hvx
      · exact h.foldl_le _ (List.mem_cons_of_mem _ (hsub hmem))
    rw [← hle, h.comm, hge]

theorem foldl_le_foldl_iff {l l' : List Nat} {x y : Nat} : l.foldl Min.min x ≤ l'.foldl Min.min y ↔
    ∃ u ∈ x :: l, ∀ v ∈ y :: l', u ≤ v := by
  constructor
  · intro hle
    refine ⟨_, Selective.min.foldl_mem, fun v hv => Nat.le_trans hle ?_⟩
    rw [← Selective.min.foldl_le v hv]
    exact Nat.min_le_right _ _
  · rintro ⟨u, hu, hall⟩
    refine Nat.le_trans ?_ (hall _ Selective.min.foldl_mem)
    rw [← Selective.min.foldl_le u hu]
    exact Nat.min_le_right _ _

end Selective

end Sstoraged
