import Mathlib.Data.List.Basic
import Mathlib.Data.List.Induction
import Mathlib.Tactic.Common
import Mathlib.Tactic.ByContra

namespace Sstoraged.Overlay

variable {W A V : Type} (covers : W → A → Bool) (val : W → A → V)

/-- One write laid over a store: it replaces the addresses it covers and
leaves every other address alone. -/
def store (w : W) (f : A → V) : A → V := fun a => if covers w a then val w a else f a

def replay (f : A → V) (ws : List W) : A → V := ws.foldl (fun g w => store covers val w g) f

/-- The last write of the list that covers the address. -/
def lastWriter (ws : List W) (a : A) : Option W := ws.reverse.find? (fun w => covers w a)

/-- What an observer of the whole log expects to read. -/
def expected (f : A → V) (ws : List W) (a : A) : V :=
  match lastWriter covers ws a with
  | some w => val w a
  | none => f a

@[simp] theorem replay_nil (f : A → V) : replay covers val f [] = f := rfl

@[simp] theorem replay_cons (f : A → V) (w : W) (ws : List W) :
    replay covers val f (w :: ws) = replay covers val (store covers val w f) ws := rfl

theorem replay_append (f : A → V) (ws vs : List W) :
    replay covers val f (ws ++ vs) = replay covers val (replay covers val f ws) vs :=
  List.foldl_append

theorem lastWriter_concat (ws : List W) (w : W) (a : A) :
    lastWriter covers (ws ++ [w]) a = if covers w a then some w else lastWriter covers ws a := by
  cases h : covers w a <;> simp [lastWriter, h]

theorem replay_eq_expected (f : A → V) (ws : List W) (a : A) :
    replay covers val f ws a = expected covers val f ws a := by
  induction ws using List.reverseRecOn with
  | nil => rfl
  | append_singleton ws w ih =>
    rw [replay_append, replay_cons, replay_nil, expected, lastWriter_concat]
    cases h : covers w a with
    | true => simp [store, h]
    | false => simpa [store, h, expected] using ih

theorem expected_concat (f : A → V) (ws : List W) (w : W) :
    expected covers val f (ws ++ [w]) = store covers val w (expected covers val f ws) := by
  funext a
  rw [← replay_eq_expected, replay_append, replay_cons, replay_nil]
  simp only [store, replay_eq_expected]

theorem replay_outside (f : A → V) (ws : List W) (a : A) (h : ∀ w ∈ ws, covers w a = false) :
    replay covers val f ws a = f a := by
  induction ws generalizing f with
  | nil => rfl
  | cons w ws ih =>
    rw [replay_cons, ih _ fun v hv => h v (List.mem_cons_of_mem _ hv)]
    simp [store, h w (by simp)]

theorem store_comm (w v : W) (f : A → V) (h : ∀ a, ¬(covers w a = true ∧ covers v a = true)) :
    store covers val w (store covers val v f) = store covers val v (store covers val w f) := by
  funext a
  have ha := h a
  cases hw : covers w a <;> cases hv : covers v a <;> simp_all [store]

theorem replay_bring_forward (f : A → V) (w : W) (ws vs : List W)
    (h : ∀ v ∈ ws, ∀ a, ¬(covers w a = true ∧ covers v a = true)) :
    replay covers val (store covers val w f) (ws ++ vs) = replay covers val f (ws ++ w :: vs) := by
  induction ws generalizing f with
  | nil => rfl
  | cons v ws ih =>
    have hv := store_comm covers val v w f fun a hc => h v (by simp) a hc.symm
    simp only [List.cons_append, replay_cons]
    rw [hv, ih _ fun u hu => h u (List.mem_cons_of_mem _ hu)]

/-- The position of the last write of a log that covers the address. -/
def IsLast (ws : List W) (a : A) (j : Nat) : Prop :=
  (∃ w, ws[j]? = some w ∧ covers w a = true) ∧
    ∀ k w, j < k → ws[k]? = some w → covers w a = false

theorem IsLast.lt {ws : List W} {a : A} {j : Nat} (h : IsLast covers ws a j) : j < ws.length := by
  obtain ⟨⟨w, hw, -⟩, -⟩ := h
  exact (List.getElem?_eq_some_iff.mp hw).1

theorem IsLast.unique {ws : List W} {a : A} {i j : Nat} (hi : IsLast covers ws a i)
    (hj : IsLast covers ws a j) : i = j := by
  obtain ⟨⟨w, hw, hcw⟩, hi⟩ := hi
  obtain ⟨⟨v, hv, hcv⟩, hj⟩ := hj
  rcases Nat.lt_trichotomy i j with h | h | h
  · simp [hi j v h hv] at hcv
  · exact h
  · simp [hj i w h hw] at hcw

theorem isLast_concat (ws : List W) (w : W) (a : A) (j : Nat) :
    IsLast covers (ws ++ [w]) a j ↔
      (covers w a = true ∧ j = ws.length) ∨ (covers w a = false ∧ IsLast covers ws a j) := by
  constructor
  · rintro ⟨⟨v, hv, hc⟩, hlast⟩
    cases hw : covers w a with
    | true =>
      refine .inl ⟨rfl, ?_⟩
      have hlt := (List.getElem?_eq_some_iff.mp hv).1
      rw [List.length_append, List.length_singleton] at hlt
      by_contra hne
      have := hlast ws.length w (by omega) (by simp)
      simp [hw] at this
    | false =>
      have hj : j < ws.length := by
        have hlt := (List.getElem?_eq_some_iff.mp hv).1
        rw [List.length_append, List.length_singleton] at hlt
        by_contra hge
        have hje : j = ws.length := by omega
        subst hje
        simp only [List.getElem?_concat_length, Option.some.injEq] at hv
        subst hv
        simp [hw] at hc
      refine .inr ⟨rfl, ⟨v, by rwa [List.getElem?_append_left hj] at hv, hc⟩, fun k u hk hu => ?_⟩
      have hkl := (List.getElem?_eq_some_iff.mp hu).1
      exact hlast k u hk (by rwa [List.getElem?_append_left hkl])
  · rintro (⟨hw, rfl⟩ | ⟨hw, ⟨v, hv, hc⟩, hlast⟩)
    · refine ⟨⟨w, by simp, hw⟩, fun k u hk hu => ?_⟩
      have hkl := (List.getElem?_eq_some_iff.mp hu).1
      simp at hkl
      omega
    · have hj := (List.getElem?_eq_some_iff.mp hv).1
      refine ⟨⟨v, by rwa [List.getElem?_append_left hj], hc⟩, fun k u hk hu => ?_⟩
      by_cases hkl : k < ws.length
      · exact hlast k u hk (by rwa [List.getElem?_append_left hkl] at hu)
      · have hkl' := (List.getElem?_eq_some_iff.mp hu).1
        rw [List.length_append, List.length_singleton] at hkl'
        have hke : k = ws.length := by omega
        subst hke
        simp only [List.getElem?_concat_length, Option.some.injEq] at hu
        rwa [← hu]

theorem isLast_or_none (ws : List W) (a : A) :
    (∃ j, IsLast covers ws a j) ∨ ∀ w ∈ ws, covers w a = false := by
  induction ws using List.reverseRecOn with
  | nil => exact .inr (by simp)
  | append_singleton ws w ih =>
    cases hw : covers w a with
    | true => exact .inl ⟨ws.length, (isLast_concat covers ws w a _).mpr (.inl ⟨hw, rfl⟩)⟩
    | false =>
      rcases ih with ⟨j, hj⟩ | hn
      · exact .inl ⟨j, (isLast_concat covers ws w a _).mpr (.inr ⟨hw, hj⟩)⟩
      · refine .inr fun v hv => ?_
        rcases List.mem_append.mp hv with hv | hv
        · exact hn v hv
        · rwa [List.mem_singleton.mp hv]

theorem expected_of_isLast (f : A → V) {ws : List W} {a : A} {j : Nat} {w : W}
    (h : IsLast covers ws a j) (hw : ws[j]? = some w) : expected covers val f ws a = val w a := by
  induction ws using List.reverseRecOn with
  | nil => simp at hw
  | append_singleton ws v ih =>
    rcases (isLast_concat covers ws v a j).mp h with ⟨hv, rfl⟩ | ⟨hv, hj⟩
    · simp only [List.getElem?_concat_length, Option.some.injEq] at hw
      subst hw
      simp [expected, lastWriter_concat, hv]
    · rw [List.getElem?_append_left hj.lt] at hw
      simpa [expected, lastWriter_concat, hv] using ih hj hw

theorem expected_of_none (f : A → V) {ws : List W} {a : A} (h : ∀ w ∈ ws, covers w a = false) :
    expected covers val f ws a = f a := by
  rw [← replay_eq_expected, replay_outside covers val f ws a h]

/-- Addresses whose last writer is in the part of the log already applied
read the same from the prefix as from the whole log. -/
theorem replay_take_of_isLast (f : A → V) {ws : List W} {a : A} {j k : Nat}
    (h : IsLast covers ws a j) (hjk : j < k) :
    replay covers val f (ws.take k) a = expected covers val f ws a := by
  rw [← replay_eq_expected]
  conv_rhs => rw [← List.take_append_drop k ws, replay_append]
  refine (replay_outside covers val _ _ a fun w hw => ?_).symm
  obtain ⟨i, hi, rfl⟩ := List.getElem_of_mem hw
  exact h.2 (k + i) _ (by omega) (by rw [List.getElem_drop]; exact List.getElem?_eq_getElem _)

end Sstoraged.Overlay
