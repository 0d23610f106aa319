import Mathlib.Data.List.Lex
import Sstoraged.SortedMap

namespace Sstoraged.JsonText

scoped instance instLinearOrderUInt8 : LinearOrder UInt8 where
  le_refl := UInt8.le_refl
  le_trans _ _ _ := UInt8.le_trans
  le_antisymm _ _ := UInt8.le_antisymm
  le_total := UInt8.le_total
  lt_iff_le_not_ge _ _ := UInt8.lt_iff_le_and_ne.trans
    ⟨fun h => ⟨h.1, fun hge => h.2 (UInt8.le_antisymm h.1 hge)⟩,
      fun h => ⟨h.1, fun heq => h.2 (heq ▸ UInt8.le_refl _)⟩⟩
  toDecidableLE := inferInstance
  toDecidableLT := inferInstance
  toDecidableEq := inferInstance

/-- The bytes of a C string. Two of them are compared as `strcmp` does. -/
abbrev Text := List UInt8

def text (s : String) : Text := s.toList.map Char.toUInt8

/-- The real numbers of the C library, as `%lf` reads and `%.16g` prints them. Nothing is
said of what is read where the text was stored past the end of its buffer. -/
structure Doubles where
  Double : Type
  sscanf : Text → Option Double
  overrun : Text → Option Double
  sprintf : Double → Text

/-- The values of the JSON library. The members of an object are in the order of their names. -/
inductive Value (R : Type)
  | null
  | int (n : Int32)
  | uint (n : UInt64)
  | real (r : R)
  | string (s : Text)
  | boolean (b : Bool)
  | array (vs : List (Value R))
  | object (ms : List (Text × Value R))

namespace Value

variable {R : Type}

@[induction_eliminator]
theorem recParts {P : Value R → Prop} (null : P null) (int : ∀ n, P (int n)) (uint : ∀ n, P (uint n))
    (real : ∀ r, P (real r)) (string : ∀ s, P (string s)) (boolean : ∀ b, P (boolean b))
    (array : ∀ vs, (∀ v ∈ vs, P v) → P (array vs)) (object : ∀ ms, (∀ m ∈ ms, P m.2) → P (object ms))
    (v : Value R) : P v :=
  @Value.rec R P (fun vs => ∀ v ∈ vs, P v) (fun ms => ∀ m ∈ ms, P m.2) (fun m => P m.2)
    null int uint real string boolean array object
    (List.forall_mem_nil _) (fun _ _ hv hvs => List.forall_mem_cons.mpr ⟨hv, hvs⟩)
    (List.forall_mem_nil _) (fun _ _ hm hms => List.forall_mem_cons.mpr ⟨hm, hms⟩) (fun _ _ h => h) v

/-- The texts have no NUL in them, and an object has each name once. -/
inductive Proper : Value R → Prop
  | null : Proper null
  | int (n : Int32) : Proper (int n)
  | uint (n : UInt64) : Proper (uint n)
  | real (r : R) : Proper (real r)
  | string {s : Text} (hs : 0 ∉ s) : Proper (string s)
  | boolean (b : Bool) : Proper (boolean b)
  | array {vs : List (Value R)} (hvs : ∀ v ∈ vs, Proper v) : Proper (array vs)
  | object {ms : List (Text × Value R)} (hsorted : SortedMap.Sorted ms) (hnames : ∀ m ∈ ms, 0 ∉ m.1)
      (hms : ∀ m ∈ ms, Proper m.2) : Proper (object ms)

end Value

end Sstoraged.JsonText
