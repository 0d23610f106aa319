import Mathlib.Logic.Basic

namespace Sstoraged

variable {N S T A B : Type}

/-- The ways in which a handler has no result: it returns false, uses a null pointer,
or does not return (it throws, divides by zero or runs for ever). -/
inductive Stop (N S : Type)
  | failed (s : S)
  | null (p : N)
  | aborted

def Stop.map (f : S → T) : Stop N S → Stop N T
  | .failed s => .failed (f s)
  | .null p => .null p
  | .aborted => .aborted

abbrev Outcome (N S A : Type) := Except (Stop N S) A

/-- What there is in place of a result: an assertion that fails, or an exception. -/
inductive Failure (T : Type)
  | assertion
  | thrown (what : T)
  deriving DecidableEq

theorem of_bind_ok {E : Type} {x : Except E A} {f : A → Except E B} {b : B} (h : x >>= f = .ok b) :
    ∃ a, x = .ok a ∧ f a = .ok b := by
  match x, h with
  | .ok a, h => exact ⟨a, rfl, h⟩

namespace Outcome

/-- A result where there is one. -/
def ofOption : Option A → Outcome N S A
  | some a => .ok a
  | none => .error .aborted

/-- The null pointer that was used. -/
def nullOf : Outcome N S A → Option N
  | .error (.null p) => some p
  | _ => none

theorem eq_of_nullOf {x : Outcome N S A} {p : N} (h : nullOf x = some p) : x = .error (.null p) := by
  match x, h with
  | .error (.null _), h => rw [Option.some.inj h]

/-- The handler returns, true or false. -/
def Returns : Outcome N S A → Prop
  | .ok _ | .error (.failed _) => True
  | .error (.null _) | .error .aborted => False

/-- A postcondition: for the result, for the state in which false is returned, and
for the null pointers that may be used. -/
def Ends (null : N → Prop) (failed : S → Prop) (ok : A → Prop) : Outcome N S A → Prop
  | .ok a => ok a
  | .error (.failed s) => failed s
  | .error (.null p) => null p
  | .error .aborted => True

variable {null : N → Prop} {failed : S → Prop} {ok : A → Prop}

theorem Ends.of_ok {x : Outcome N S A} {a : A} (h : Ends null failed ok x) (hx : x = .ok a) : ok a := by
  rw [hx] at h
  exact h

theorem Ends.mono {failed' : S → Prop} {ok' : A → Prop} {x : Outcome N S A} (h : Ends null failed ok x)
    (hf : ∀ s, failed s → failed' s) (ho : ∀ a, ok a → ok' a) : Ends null failed' ok' x := by
  match x, h with
  | .ok a, h => exact ho a h
  | .error (.failed s), h => exact hf s h
  | .error (.null _), h => exact h
  | .error .aborted, _ => trivial

theorem Ends.mono_null {null' : N → Prop} {x : Outcome N S A} (h : Ends null failed ok x)
    (hn : ∀ p, null p → null' p) : Ends null' failed ok x := by
  match x, h with
  | .ok _, h => exact h
  | .error (.failed _), h => exact h
  | .error (.null p), h => exact hn p h
  | .error .aborted, _ => trivial

theorem Ends.bind {post : B → Prop} {x : Outcome N S A} {f : A → Outcome N S B}
    (h : Ends null failed ok x)
    (hf : ∀ a, ok a → Ends null failed post (f a)) : Ends null failed post (x >>= f) := by
  match x, h with
  | .ok a, h => exact hf a h
  | .error (.failed _), h => exact h
  | .error (.null _), h => exact h
  | .error .aborted, _ => trivial

theorem Ends.mapStop {failed' : T → Prop} {x : Outcome N S A} {g : S → T} (h : Ends null failed ok x)
    (hg : ∀ s, failed s → failed' (g s)) : Ends null failed' ok (x.mapError (Stop.map g)) := by
  match x, h with
  | .ok _, h => exact h
  | .error (.failed s), h => exact hg s h
  | .error (.null _), h => exact h
  | .error .aborted, _ => trivial

theorem ends_trivial (x : Outcome N S A) : Ends (fun _ => True) (fun _ => True) (fun _ => True) x := by
  match x with
  | .ok _ | .error (.failed _) | .error (.null _) | .error .aborted => trivial

theorem ends_ofOption {x : Option A} : Ends (N := N) null failed ok (ofOption x) ↔
    ∀ a, x = some a → ok a := by
  cases x with
  | none => exact ⟨fun _ _ h => (Option.some_ne_none _ h.symm).elim, fun _ => trivial⟩
  | some a =>
    refine ⟨fun h b hb => ?_, fun h => h a rfl⟩
    rw [← Option.some.inj hb]
    exact h

theorem returns_bind {x : Outcome N S A} {f : A → Outcome N S B} :
    Returns (x >>= f) ↔ Returns x ∧ ∀ a, x = .ok a → Returns (f a) := by
  match x with
  | .ok a => exact ⟨fun h => ⟨trivial, fun _ ha => Except.ok.inj ha ▸ h⟩, fun h => h.2 a rfl⟩
  | .error (.failed _) => exact ⟨fun _ => ⟨trivial, nofun⟩, And.left⟩
  | .error (.null _) | .error .aborted => exact ⟨False.elim, And.left⟩

theorem returns_mapStop {x : Outcome N S A} {g : S → T} : Returns (x.mapError (Stop.map g)) ↔
    Returns x := by
  match x with
  | .ok _ | .error (.failed _) | .error (.null _) | .error .aborted => exact Iff.rfl

theorem returns_ofOption {x : Option A} : (ofOption x : Outcome N S A).Returns ↔ x.isSome = true := by
  cases x with
  | none => exact ⟨False.elim, nofun⟩
  | some a => exact ⟨fun _ => rfl, fun _ => trivial⟩

theorem of_mapError_ok {x : Outcome N S A} {f : Stop N S → Stop N T} {a : A} (h : x.mapError f = .ok a) :
    x = .ok a := by
  match x, h with
  | .ok _, h => exact congrArg _ (Except.ok.inj h)

theorem of_ofOption_ok {x : Option A} {a : A} (h : (ofOption x : Outcome N S A) = .ok a) :
    x = some a := by
  match x, h with
  | some _, h => exact congrArg _ (Except.ok.inj h)

end Outcome

end Sstoraged
