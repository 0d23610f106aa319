import Mathlib.Data.List.Pairwise
import Mathlib.Data.List.TakeWhile
import Mathlib.Order.Basic
import Mathlib.Order.Lattice
import Mathlib.Tactic.Common

namespace Sstoraged.SortedMap

variable {κ α : Type} {m l r : List (κ × α)} {k x : κ} {v : α}

theorem of_mem_takeWhile {P : κ → Prop} [DecidablePred P] {e : κ × α}
    (he : e ∈ m.takeWhile fun e => decide (P e.1)) : P e.1 :=
  of_decide_eq_true (List.mem_takeWhile_imp (p := fun e : κ × α => decide (P e.1)) he)

variable [LinearOrder κ]

/-- A map as the list of its entries in the order of their keys. -/
def Sorted (m : List (κ × α)) : Prop := m.Pairwise fun x y => x.1 < y.1

/-- Set the value of a key. -/
def assign (m : List (κ × α)) (k : κ) (v : α) : List (κ × α) :=
  (m.takeWhile fun e => decide (e.1 < k)) ++ (k, v) :: m.dropWhile fun e => decide (e.1 ≤ k)

/-- The last entry whose key is not above `k`. -/
def floor (m : List (κ × α)) (k : κ) : Option (κ × α) := (m.filter fun e => decide (e.1 ≤ k)).getLast?

theorem le_of_floor {e : κ × α} (h : floor m k = some e) : e ∈ m ∧ e.1 ≤ k := by
  have hmem := List.mem_filter.mp (List.mem_of_getLast? h)
  exact ⟨hmem.1, of_decide_eq_true hmem.2⟩

theorem floor_eq_none_iff : floor m k = none ↔ ∀ e ∈ m, k < e.1 := by
  rw [floor, List.getLast?_eq_none_iff, List.filter_eq_nil_iff]
  simp only [decide_eq_true_eq, not_le]

theorem sorted_split (h : Sorted (l ++ (k, v) :: r)) : (∀ e ∈ l, e.1 < k) ∧ ∀ e ∈ r, k < e.1 := by
  obtain ⟨-, hr, hlr⟩ := List.pairwise_append.mp h
  exact ⟨fun e he => hlr e he _ List.mem_cons_self, (List.pairwise_cons.mp hr).1⟩

theorem floor_append (hl : ∀ e ∈ l, e.1 ≤ x) (hr : ∀ e ∈ r, x < e.1) :
    floor (l ++ r) x = l.getLast? := by
  have hself : l.filter (fun e => decide (e.1 ≤ x)) = l :=
    List.filter_eq_self.mpr fun e he => decide_eq_true (hl e he)
  have hnil : r.filter (fun e => decide (e.1 ≤ x)) = [] :=
    List.filter_eq_nil_iff.mpr fun e he => mt of_decide_eq_true (not_le.mpr (hr e he))
  rw [floor, List.filter_append, hself, hnil, List.append_nil]

theorem floor_split (hs : Sorted (l ++ (k, v) :: r)) (hk : k ≤ x) (hr : ∀ e ∈ r, x < e.1) :
    floor (l ++ (k, v) :: r) x = some (k, v) := by
  have hl : ∀ e ∈ l ++ [(k, v)], e.1 ≤ x := by
    intro e he
    obtain he | he := List.mem_append.mp he
    · exact ((sorted_split hs).1 e he).le.trans hk
    · exact List.mem_singleton.mp he ▸ hk
  rw [List.append_cons, floor_append hl hr]
  exact List.getLast?_concat

theorem floor_cons {e : κ × α} (y : κ × α) (h : floor m x = some e) : floor (y :: m) x = some e := by
  unfold floor at h ⊢
  rw [List.filter_cons]
  split
  · rw [List.getLast?_cons, h]
    rfl
  · exact h

theorem exists_split_of_floor (hs : Sorted m) (h : floor m x = some (k, v)) :
    ∃ l r, m = l ++ (k, v) :: r ∧ k ≤ x ∧ ∀ e ∈ r, x < e.1 := by
  obtain ⟨hmem, hle⟩ := le_of_floor h
  obtain ⟨l, r, rfl⟩ := List.append_of_mem hmem
  refine ⟨l, r, rfl, hle, fun e he => not_le.mp fun hex => ?_⟩
  -- the last entry up to `x` is in `r` then
  have hfilter : e ∈ r.filter fun e => decide (e.1 ≤ x) := List.mem_filter.mpr ⟨he, decide_eq_true hex⟩
  obtain ⟨y, hy⟩ := Option.ne_none_iff_exists'.mp
    (mt List.getLast?_eq_none_iff.mp (List.ne_nil_of_mem hfilter))
  have hlast : floor (l ++ (k, v) :: r) x = some y := by
    rw [List.append_cons, floor, List.filter_append, List.getLast?_append, hy]
    rfl
  obtain rfl := Option.some.inj (h.symm.trans hlast)
  have hyr := (List.mem_filter.mp (List.mem_of_getLast? hy)).1
  exact lt_irrefl _ ((sorted_split hs).2 _ hyr)

theorem not_of_mem_dropWhile {P : κ → Prop} [DecidablePred P] (hs : Sorted m)
    (hdown : ∀ a b, a < b → P b → P a)
    {e : κ × α} (he : e ∈ m.dropWhile fun e => decide (P e.1)) : ¬ P e.1 := by
  induction m with
  | nil => exact absurd he List.not_mem_nil
  | cons y m ih =>
    obtain ⟨hy, hm⟩ := List.pairwise_cons.mp hs
    rw [List.dropWhile_cons] at he
    split at he
    · exact ih hm he
    · next hk =>
      have hky : ¬ P y.1 := mt decide_eq_true hk
      obtain rfl | he := List.mem_cons.mp he
      · exact hky
      · exact mt (hdown _ _ (hy e he)) hky

/-- A lower bound of a key that steps back from a larger one: the entry that the key
falls to, or else the first. -/
theorem stepBack_eq (hs : Sorted m) (k : κ) :
    (if !(m.takeWhile fun e => decide (e.1 < k)).isEmpty &&
        (m.dropWhile fun e => decide (e.1 < k)).head?.all (fun e => decide (k < e.1)) then
      (m.takeWhile fun e => decide (e.1 < k)).getLast?
    else (m.dropWhile fun e => decide (e.1 < k)).head?) = (floor m k).or m.head? := by
  have hm := List.takeWhile_append_dropWhile (p := fun e : κ × α => decide (e.1 < k)) (l := m)
  have hbelow : ∀ e ∈ m.takeWhile fun e => decide (e.1 < k), e.1 < k :=
    fun e he => of_mem_takeWhile (P := (· < k)) he
  have habove : ∀ e ∈ m.dropWhile fun e => decide (e.1 < k), k ≤ e.1 :=
    fun e he => not_lt.mp (not_of_mem_dropWhile (P := (· < k)) hs (fun _ _ => lt_trans) he)
  generalize m.takeWhile (fun e => decide (e.1 < k)) = l at hm hbelow ⊢
  generalize m.dropWhile (fun e => decide (e.1 < k)) = r at hm habove ⊢
  subst hm
  by_cases hr : ∀ e ∈ r, k < e.1
  · rw [floor_append (fun e he => (hbelow e he).le) hr]
    have hall : r.head?.all (fun e => decide (k < e.1)) = true := by
      cases r with
      | nil => rfl
      | cons e r => exact decide_eq_true (hr e List.mem_cons_self)
    rw [hall, Bool.and_true]
    cases l with
    | nil => rfl
    | cons y l =>
      rw [List.getLast?_cons]
      rfl
  · cases r with
    | nil => exact absurd (fun e he => absurd he List.not_mem_nil) hr
    | cons e r =>
      obtain ⟨y, v⟩ := e
      have hlater := (sorted_split hs).2
      have hky : k = y := by
        refine (habove _ List.mem_cons_self).antisymm (not_lt.mp fun hlt => hr ?_)
        exact List.forall_mem_cons.mpr ⟨hlt, fun e he => hlt.trans (hlater e he)⟩
      subst hky
      rw [floor_split hs le_rfl hlater]
      simp only [List.head?_cons, Option.all_some, lt_irrefl, decide_false, Bool.and_false,
        Bool.false_eq_true, if_false,
        Option.some_or]

theorem sorted_assign (hs : Sorted m) (k : κ) (v : α) : Sorted (assign m k v) := by
  have hdrop : ∀ e ∈ m.dropWhile fun e => decide (e.1 ≤ k), k < e.1 :=
    fun e he => not_le.mp (not_of_mem_dropWhile (P := (· ≤ k)) hs (fun _ _ hab hb => hab.le.trans hb) he)
  refine List.pairwise_append.mpr ⟨?_, ?_, ?_⟩
  · exact List.Pairwise.sublist (List.takeWhile_sublist _) hs
  · exact List.pairwise_cons.mpr ⟨hdrop, List.Pairwise.sublist (List.dropWhile_sublist _) hs⟩
  · intro e he f hf
    have hek : e.1 < k := of_mem_takeWhile (P := (· < k)) he
    obtain rfl | hf := List.mem_cons.mp hf
    · exact hek
    · exact hek.trans (hdrop f hf)

theorem mem_of_mem_assign {e : κ × α} (h : e ∈ assign m k v) : e ∈ m ∨ e = (k, v) := by
  obtain h | h := List.mem_append.mp h
  · exact .inl ((List.takeWhile_subset _) h)
  · obtain rfl | h := List.mem_cons.mp h
    · exact .inr rfl
    · exact .inl ((List.dropWhile_subset _) h)

theorem assign_of_lt (h : ∀ e ∈ m, e.1 < k) : assign m k v = m ++ [(k, v)] := by
  have htake : m.takeWhile (fun e => decide (e.1 < k)) = m :=
    List.takeWhile_eq_self_iff.mpr fun e he => decide_eq_true (h e he)
  have hdrop : m.dropWhile (fun e => decide (e.1 ≤ k)) = [] :=
    List.dropWhile_eq_nil_iff.mpr fun e he => decide_eq_true (h e he).le
  rw [assign, htake, hdrop]

theorem assign_cons_of_lt {e : κ × α} (h : e.1 < k) : assign (e :: m) k v = e :: assign m k v := by
  simp [assign, h, h.le]

theorem assign_cons_of_gt {e : κ × α} (h : k < e.1) : assign (e :: m) k v = (k, v) :: e :: m := by
  simp [assign, h.not_gt, h.not_ge]

theorem assign_cons_self {w : α} (hs : Sorted ((k, w) :: m)) :
    assign ((k, w) :: m) k v = (k, v) :: m := by
  cases m with
  | nil => simp [assign]
  | cons e m =>
    have hlt : k < e.1 := (List.pairwise_cons.mp hs).1 e (List.mem_cons_self ..)
    simp [assign, hlt.not_ge]

section lookup

variable [BEq κ] [LawfulBEq κ]

theorem lookup_eq_none (h : ∀ e ∈ m, k < e.1) : m.lookup k = none :=
  List.lookup_eq_none_iff.mpr fun e he => bne_iff_ne.mpr (h e he).ne

theorem lookup_cons_eq (m : List (κ × α)) (k x : κ) (v : α) :
    ((k, v) :: m).lookup x = if x = k then some v else m.lookup x := by
  rw [List.lookup_cons]
  by_cases h : x = k
  · simp [h]
  · rw [beq_false_of_ne h, if_neg h]

theorem lookup_assign (hs : Sorted m) (k x : κ) (v : α) :
    (assign m k v).lookup x = if x = k then some v else m.lookup x := by
  induction m with
  | nil => exact lookup_cons_eq [] k x v
  | cons e m ih =>
    obtain ⟨hfirst, hsorted⟩ := List.pairwise_cons.mp hs
    obtain ⟨y, w⟩ := e
    obtain hlt | rfl | hgt := lt_trichotomy y k
    · rw [assign_cons_of_lt hlt, lookup_cons_eq, lookup_cons_eq, ih hsorted]
      by_cases hx : x = y
      · simp [hx, hlt.ne]
      · simp [hx]
    · rw [assign_cons_self hs, lookup_cons_eq, lookup_cons_eq]
      by_cases hx : x = y <;> simp [hx]
    · rw [assign_cons_of_gt hgt, lookup_cons_eq]

theorem eq_of_lookup {m' : List (κ × α)} (hs : Sorted m) (hs' : Sorted m')
    (h : ∀ k, m.lookup k = m'.lookup k) : m = m' := by
  induction m generalizing m' with
  | nil =>
    cases m' with
    | nil => rfl
    | cons e m' =>
      obtain ⟨y, w⟩ := e
      simpa [lookup_cons_eq] using h y
  | cons e m ih =>
    obtain ⟨k, v⟩ := e
    obtain ⟨hfirst, hsorted⟩ := List.pairwise_cons.mp hs
    cases m' with
    | nil => simpa [lookup_cons_eq] using h k
    | cons e' m' =>
      obtain ⟨k', v'⟩ := e'
      obtain ⟨hfirst', hsorted'⟩ := List.pairwise_cons.mp hs'
      have hself := h k
      have hself' := h k'
      rw [lookup_cons_eq, if_pos rfl, lookup_cons_eq] at hself
      rw [lookup_cons_eq, lookup_cons_eq, if_pos rfl] at hself'
      -- the smaller of the first keys would be missing on the other side
      have hk : k = k' := by
        obtain hlt | heq | hgt := lt_trichotomy k k'
        · rw [if_neg hlt.ne, lookup_eq_none fun e he => hlt.trans (hfirst' e he)] at hself
          cases hself
        · exact heq
        · rw [if_neg hgt.ne, lookup_eq_none fun e he => hgt.trans (hfirst e he)] at hself'
          cases hself'
      subst hk
      obtain rfl : v = v' := by simpa using hself
      refine congrArg _ (ih hsorted hsorted' fun x => ?_)
      by_cases hx : x = k
      · rw [hx, lookup_eq_none hfirst, lookup_eq_none hfirst']
      · simpa [lookup_cons_eq, hx] using h x

end lookup

end Sstoraged.SortedMap
