import Sstoraged.JsonSurvival

namespace Sstoraged.JsonText

open Reader
open ConfigBinder (cstr)

variable {D : Doubles} {fuel : Nat} {r r' : Reader} {ok : Bool}

theorem not_mem_cstr (t : Text) : 0 ∉ cstr t := fun h => by simpa using List.mem_takeWhile_imp h

theorem proper_decodeNumber {t : Text} {v : Value D.Double} (h : decodeNumber D t = .ok v) :
    v.Proper := by
  have hdouble : ∀ v, decodeDouble D t = .ok v → v.Proper := by
    intro v h
    unfold decodeDouble at h
    split at h
    · cases h
      exact .real _
    · cases h
  simp only [decodeNumber] at h
  split_ifs at h
  · exact hdouble v h
  · split at h
    · cases h
    · exact hdouble v h
    · cases h
      exact .int _
  · split at h
    · cases h
    · exact hdouble v h
    · split_ifs at h <;> cases h
      · exact .int _
      · exact .uint _

/-- The members of an object that keeps its promises. -/
def ProperMembers (ms : List (Text × Value D.Double)) : Prop :=
  SortedMap.Sorted ms ∧ (∀ m ∈ ms, 0 ∉ m.1) ∧ ∀ m ∈ ms, m.2.Proper

theorem ProperMembers.assign {ms : List (Text × Value D.Double)} (h : ProperMembers ms)
    {v : Value D.Double}
    (hv : v.Proper) (name : Text) : ProperMembers (SortedMap.assign ms (cstr name) v) := by
  obtain ⟨hsorted, hnames, hms⟩ := h
  refine ⟨SortedMap.sorted_assign hsorted _ v, fun m hm => ?_, fun m hm => ?_⟩
  · obtain hm | rfl := SortedMap.mem_of_mem_assign hm
    · exact hnames m hm
    · exact not_mem_cstr name
  · obtain hm | rfl := SortedMap.mem_of_mem_assign hm
    · exact hms m hm
    · exact hv

theorem ProperMembers.member {ms : List (Text × Value D.Double)} (h : ProperMembers ms) (name : Text) :
    (member D ms name).Proper := by
  rw [Reader.member]
  cases hlookup : ms.lookup name with
  | none => exact .null
  | some v =>
    obtain ⟨_, _, rfl, -⟩ := List.lookup_eq_some_iff.mp hlookup
    exact h.2.2 (name, v) (by simp)

/-- Whatever is read keeps the promises, also where an error stops the reader. -/
structure Keeps (D : Doubles) (fuel : Nat) : Prop where
  value : ∀ {current v : Value D.Double} {r r' ok}, readValue D fuel current r = some (ok, v, r') →
    current.Proper → v.Proper
  elements : ∀ {vs : List (Value D.Double)} {v r r' ok}, readArray D fuel vs r = some (ok, v, r') →
    (∀ w ∈ vs, w.Proper) → v.Proper
  members : ∀ {ms : List (Text × Value D.Double)} {last v r r' ok},
    readObject D fuel last ms r = some (ok, v, r') →
    ProperMembers ms → v.Proper

theorem eq_of_recovered {o : Option Reader} {ok' : Bool} {w v : Value D.Double}
    (h : o.map (ok', w, ·) = some (ok, v, r')) : v = w := by
  obtain ⟨_, -, heq⟩ := Option.map_eq_some_iff.mp h
  exact (Prod.mk.inj (Prod.mk.inj heq).2).1.symm

theorem keeps_elements (ih : Keeps D fuel) {vs : List (Value D.Double)} {v : Value D.Double}
    (h : readArray D (fuel + 1) vs r = some (ok, v, r')) (hvs : ∀ w ∈ vs, w.Proper) : v.Proper := by
  unfold readArray at h
  split at h
  · cases h
  · next ok' w r₁ hvalue =>
    have hvs : ∀ w' ∈ vs ++ [w], w'.Proper :=
      List.forall_mem_append.mpr ⟨hvs, List.forall_mem_singleton.mpr (ih.value hvalue .null)⟩
    simp only at h
    split_ifs at h
    · rw [eq_of_recovered h]
      exact .array hvs
    · cases h
      exact .array hvs
    · exact ih.elements h hvs
    · rw [eq_of_recovered h]
      exact .array hvs

theorem keeps_members (ih : Keeps D fuel) {ms : List (Text × Value D.Double)} {last : Text}
    {v : Value D.Double}
    (h : readObject D (fuel + 1) last ms r = some (ok, v, r')) (hms : ProperMembers ms) : v.Proper := by
  have hobject {ms : List (Text × Value D.Double)} (h : ProperMembers ms) : (Value.object ms).Proper :=
    .object h.1 h.2.1 h.2.2
  unfold readObject at h
  split at h
  · cases h
  · split_ifs at h
    · cases h
      exact hobject hms
    · rw [eq_of_recovered h]
      exact hobject hms
    · split at h
      · rw [eq_of_recovered h]
        exact hobject hms
      · next name _ =>
        simp only at h
        split_ifs at h
        · rw [eq_of_recovered h]
          exact hobject hms
        · split at h
          · cases h
          · next w _ hvalue =>
            have hms := hms.assign (ih.value hvalue (hms.member _)) name
            split_ifs at h
            · rw [eq_of_recovered h]
              exact hobject hms
            · cases h
              exact hobject hms
            · exact ih.members h hms
            · rw [eq_of_recovered h]
              exact hobject hms

theorem keeps_value (ih : Keeps D fuel) {current v : Value D.Double}
    (h : readValue D (fuel + 1) current r = some (ok, v, r')) (hcurrent : current.Proper) :
    v.Proper := by
  unfold readValue at h
  split at h
  · cases h
  · split at h
    · exact ih.members h ⟨.nil, List.forall_mem_nil _, List.forall_mem_nil _⟩
    · simp only at h
      split_ifs at h
      · cases h
        exact .array (List.forall_mem_nil _)
      · exact ih.elements h (List.forall_mem_nil _)
    · split at h
      · cases h
        exact hcurrent
      · next hnumber =>
        cases h
        exact proper_decodeNumber hnumber
    · split at h <;> cases h
      · exact hcurrent
      · exact .string (not_mem_cstr _)
    · cases h
      exact .boolean _
    · cases h
      exact .boolean _
    · cases h
      exact .null
    · cases h
      exact hcurrent

theorem keeps (fuel : Nat) : Keeps D fuel := by
  induction fuel with
  | zero =>
    refine ⟨fun h _ => ?_, fun h _ => ?_, fun h _ => ?_⟩
    · rw [readValue] at h
      cases h
    · rw [readArray] at h
      cases h
    · rw [readObject] at h
      cases h
  | succ fuel ih => exact ⟨keeps_value ih, keeps_elements ih, keeps_members ih⟩

/-- In what a document leaves, each object has its names once and in order, and no text has
a NUL in it, also when the document is refused. -/
theorem parse_proper {document : Text} {root v : Value D.Double} {errors : List ErrorInfo}
    (h : parse D fuel document root = some (ok, v, errors)) (hroot : root.Proper) : v.Proper := by
  unfold parse at h
  split at h
  · cases h
  · next hvalue =>
    obtain ⟨-, -, heq⟩ := Option.map_eq_some_iff.mp h
    obtain ⟨-, heq⟩ := Prod.mk.inj heq
    obtain ⟨rfl, -⟩ := Prod.mk.inj heq
    exact (keeps fuel).value hvalue hroot

theorem parse_proper_refused : ∃ v errors,
    parse wholeDoubles 20 (text "[true,]") .null = some (false, v, errors) ∧ v.Proper := by
  have h : (parse wholeDoubles 20 (text "[true,]") .null).map Prod.fst = some false := by decide +kernel
  obtain ⟨⟨_, v, errors⟩, hparse, rfl⟩ := Option.map_eq_some_iff.mp h
  exact ⟨v, errors, hparse, parse_proper hparse .null⟩

end Sstoraged.JsonText
