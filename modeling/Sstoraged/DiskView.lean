import Sstoraged.HandleMap

namespace Sstoraged.DiskView

open DiskWriter HandleMap

variable {handles : List (Nat × LowHandle)}

/-- What the files hold for an address of the volume. -/
def view (handles : List (Nat × LowHandle)) (disk : Disk) (a : Nat) : UInt8 :=
  (placeAt handles a).elim 0 disk

/-- The address has a place in the files that no other address has. -/
def Own (handles : List (Nat × LowHandle)) (a : Nat) : Prop :=
  ∃ place, ∀ b, placeAt handles b = some place ↔ b = a

theorem Own.isSome {a : Nat} (h : Own handles a) : (placeAt handles a).isSome := by
  obtain ⟨place, hplace⟩ := h
  rw [(hplace a).mpr rfl]
  rfl

theorem Own.eq {a b : Nat} {place : String × Nat} (h : Own handles a)
    (ha : placeAt handles a = some place)
    (hb : placeAt handles b = some place) : b = a := by
  obtain ⟨place', hplace⟩ := h
  obtain rfl := Option.some.inj (ha.symm.trans ((hplace a).mpr rfl))
  exact (hplace b).mp hb

theorem view_eq {disk : Disk} {a : Nat} {place : String × Nat} (h : placeAt handles a = some place) :
    view handles disk a = disk place := by
  rw [view, h, Option.elim_some]

theorem view_update {disk : Disk} {a : Nat} {place : String × Nat} {v : UInt8} (h : Own handles a)
    (ha : placeAt handles a = some place) :
    view handles (Function.update disk place v) = Function.update (view handles disk) a v := by
  funext b
  by_cases hb : b = a
  · subst hb
    rw [view_eq ha, Function.update_self, Function.update_self]
  · rw [Function.update_of_ne hb, view, view]
    cases hplace : placeAt handles b with
    | none => rfl
    | some place' =>
      refine Function.update_of_ne ?_ _ _
      rintro rfl
      exact hb (h.eq ha hplace)

end Sstoraged.DiskView
