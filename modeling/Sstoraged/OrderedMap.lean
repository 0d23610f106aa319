import Mathlib.Data.List.InsertIdx
import Mathlib.Data.List.Nodup

namespace Sstoraged

/-- A map whose entries keep the order in which they were added. -/
structure OrderedMap (K V : Type) where
  entries : List (K × V)
  nodup : (entries.map Prod.fst).Nodup

namespace OrderedMap

variable {K V : Type}

def keys (m : OrderedMap K V) : List K := m.entries.map Prod.fst

def values (m : OrderedMap K V) : List V := m.entries.map Prod.snd

def add (m : OrderedMap K V) (key : K) (value : V) (h : key ∉ m.keys) : OrderedMap K V where
  entries := m.entries ++ [(key, value)]
  nodup := by
    rw [List.map_append]
    refine List.nodup_append.mpr ⟨m.nodup, List.nodup_singleton _, fun a ha b hb heq => h ?_⟩
    rw [heq, List.mem_singleton.mp hb] at ha
    exact ha

/-- Without the entry at a position. -/
def eraseAt (m : OrderedMap K V) (i : Nat) : OrderedMap K V where
  entries := m.entries.eraseIdx i
  nodup := m.nodup.sublist ((List.eraseIdx_sublist m.entries i).map _)

variable {m : OrderedMap K V} {i j : Nat}

theorem length_keys (m : OrderedMap K V) : m.keys.length = m.entries.length := List.length_map ..

theorem length_values (m : OrderedMap K V) : m.values.length = m.entries.length := List.length_map ..

theorem values_add {key : K} (value : V) (h : key ∉ m.keys) :
    (m.add key value h).values = m.values ++ [value] :=
  List.map_append

theorem values_eraseAt (m : OrderedMap K V) (i : Nat) : (m.eraseAt i).values = m.values.eraseIdx i :=
  (List.eraseIdx_map ..).symm

theorem index_unique {key : K} (hi : m.keys[i]? = some key) (hj : m.keys[j]? = some key) : i = j := by
  obtain ⟨hlt, hi⟩ := List.getElem?_eq_some_iff.mp hi
  obtain ⟨hlt', hj⟩ := List.getElem?_eq_some_iff.mp hj
  exact m.nodup.getElem_inj_iff.mp (hi.trans hj.symm)

end OrderedMap

end Sstoraged
