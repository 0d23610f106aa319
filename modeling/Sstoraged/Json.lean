import Mathlib.Data.List.Basic
import Sstoraged.Outcome

namespace Sstoraged.Json

/-- The values of a JSON library, as far as they hold texts. -/
inductive Value
  | null
  | string (s : String)
  | array (vs : List Value)

namespace Value

def asString : Value → Except (Failure String) String
  | null => .ok ""
  | string s => .ok s
  | array _ => .error .assertion

/-- Only an array is appended to; null becomes one. -/
def append : Value → Value → Except (Failure String) Value
  | null, w => .ok (array [w])
  | string _, _ => .error .assertion
  | array vs, w => .ok (array (vs ++ [w]))

end Value

/-- The members of an object, by keys. -/
abbrev Members (K : Type) := List (K × Value)

namespace Members

variable {K : Type}

/-- The names of the members, in the order of the names. -/
def getMemberNames (name : K → String) (ms : Members K) : List K :=
  (ms.map Prod.fst).mergeSort fun a b => decide (name a ≤ name b)

theorem mem_getMemberNames {name : K → String} {ms : Members K} {key : K} :
    key ∈ ms.getMemberNames name ↔ key ∈ ms.map Prod.fst := List.mem_mergeSort

variable [DecidableEq K]

def isMember (ms : Members K) (key : K) : Bool := (ms.lookup key).isSome

def get (ms : Members K) (key : K) : Value := (ms.lookup key).getD .null

def set (ms : Members K) (key : K) (v : Value) : Members K :=
  match ms with
  | [] => [(key, v)]
  | (k, w) :: ms => if key = k then (k, v) :: ms else (k, w) :: set ms key v

theorem set_append_of_not_mem {ms : Members K} {key : K} (h : key ∉ ms.map Prod.fst)
    (ms' : Members K) (v : Value) :
    (ms ++ ms').set key v = ms ++ ms'.set key v := by
  induction ms with
  | nil => rfl
  | cons m ms ih =>
    obtain ⟨k, w⟩ := m
    obtain ⟨hk, hms⟩ := not_or.mp (List.mem_cons.not.mp h)
    rw [List.cons_append, set, if_neg hk, ih hms]
    rfl

theorem set_of_not_mem {ms : Members K} {key : K} (h : key ∉ ms.map Prod.fst) (v : Value) :
    ms.set key v = ms ++ [(key, v)] := by
  have happend := set_append_of_not_mem h [] v
  rwa [List.append_nil] at happend

theorem lookup_of_not_mem {ms : Members K} {key : K} (h : key ∉ ms.map Prod.fst) :
    ms.lookup key = none := by
  refine List.lookup_eq_none_iff.mpr fun m hm => ?_
  exact bne_iff_ne.mpr fun heq => h (List.mem_map.mpr ⟨m, hm, heq.symm⟩)

theorem get_of_not_mem {ms : Members K} {key : K} (h : key ∉ ms.map Prod.fst) : ms.get key = .null := by
  rw [get, lookup_of_not_mem h, Option.getD_none]

theorem lookup_of_mem {ms : Members K} (hnodup : (ms.map Prod.fst).Nodup) {m : K × Value} (hm : m ∈ ms) :
    ms.lookup m.1 = some m.2 := by
  induction ms with
  | nil => exact absurd hm List.not_mem_nil
  | cons m' ms ih =>
    obtain ⟨hfirst, hnodup⟩ := List.nodup_cons.mp hnodup
    rw [List.lookup_cons]
    obtain rfl | hm := List.mem_cons.mp hm
    · rw [beq_self_eq_true]
    · have hne : m.1 ≠ m'.1 := fun heq => hfirst (List.mem_map.mpr ⟨m, hm, heq⟩)
      rw [beq_false_of_ne hne]
      exact ih hnodup hm

theorem lookup_set_self (ms : Members K) (key : K) (v : Value) : (ms.set key v).lookup key = some v := by
  induction ms with
  | nil => exact List.lookup_cons_self
  | cons m ms ih =>
    obtain ⟨k, w⟩ := m
    rw [set]
    by_cases hk : key = k
    · subst hk
      rw [if_pos rfl]
      exact List.lookup_cons_self
    · rw [if_neg hk, List.lookup_cons, beq_false_of_ne hk]
      exact ih

theorem lookup_set_of_ne {ms : Members K} {key k : K} {v : Value} (h : k ≠ key) :
    (ms.set key v).lookup k = ms.lookup k := by
  induction ms with
  | nil => rw [set, List.lookup_cons, beq_false_of_ne h]
  | cons m ms ih =>
    obtain ⟨k', w⟩ := m
    rw [set]
    by_cases hk : key = k'
    · subst hk
      rw [if_pos rfl, List.lookup_cons, List.lookup_cons, beq_false_of_ne h]
    · rw [if_neg hk, List.lookup_cons, List.lookup_cons, ih]

end Members

end Sstoraged.Json
