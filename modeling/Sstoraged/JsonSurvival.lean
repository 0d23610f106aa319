import Sstoraged.JsonRoundTrip

namespace Sstoraged.JsonText

open Reader
open ConfigBinder (cstr)

section texts

variable {content decoded s t : Text}

theorem decodeString_length {stop : Text} (h : decodeString stop content = .ok decoded) :
    decoded.length ≤ content.length ∧
      (decoded.length = content.length → ∀ c ∈ content, c ≠ '"'.toUInt8 ∧ c ≠ '\\'.toUInt8) := by
  fun_induction decodeString stop content generalizing decoded with
  | case1 => cases h; simp
  | case2 => cases h; simp
  | case3 => cases h
  | case4 escape current c _ _ ih =>
    obtain ⟨decoded, hdecoded, rfl⟩ := map_ok h
    have hle := (ih hdecoded).1
    simp only [List.length_cons]
    exact ⟨by omega, fun heq => by omega⟩
  | case5 escape _ a b c d current _ ih =>
    obtain ⟨unicode, -, hdecoded⟩ := of_bind_ok h
    have hle := (ih hdecoded).1
    simp only [List.length_cons]
    exact ⟨by omega, fun heq => by omega⟩
  | case6 => cases h
  | case7 => cases h
  | case8 c current hquote hback ih =>
    obtain ⟨decoded, hdecoded, rfl⟩ := map_ok h
    obtain ⟨hle, heq⟩ := ih hdecoded
    simp only [List.length_cons]
    exact ⟨by omega, fun h => List.forall_mem_cons.mpr ⟨⟨hquote, hback⟩, heq (by omega)⟩⟩

theorem gap_eq_nil {g : Text} (hg : Gap g) (h : g ++ t = '"'.toUInt8 :: s) : g = [] := by
  have hblank {b t : Text} (hb : Blank b) (h : b ++ t = '"'.toUInt8 :: s) : b = [] := by
    cases b with
    | nil => rfl
    | cons c b =>
      obtain ⟨rfl, -⟩ := List.cons.inj h
      exact absurd (hb _ (List.mem_cons_self ..)) (by decide)
  cases hg with
  | blank hb => exact hblank hb h
  | @comment b c g hb hc hg =>
    rw [List.append_assoc] at h
    obtain rfl := hblank hb h
    have hslash : ¬ '/'.toUInt8 = '"'.toUInt8 := by decide
    cases hc <;> exact absurd (List.cons.inj h).1 hslash

variable {D : Doubles}

/-- A text comes back as it was exactly when there is nothing in it to escape. -/
theorem parse_write_string_iff (h0 : 0 ∉ s) (root : Value D.Double) :
    Settles (fun fuel => parse D fuel (write D (.string s)) root) (2 * (write D (.string s)).length + 1)
      (true, .string s, []) ↔ ∀ c ∈ s, c ≠ '"'.toUInt8 ∧ c ≠ '\\'.toUInt8 := by
  have hwrite : write D (.string s) = '"'.toUInt8 :: (s ++ ['"'.toUInt8, '\n'.toUInt8]) := by
    rw [write, writeValue, valueToQuotedString, ConfigBinder.cstr_eq h0]
    simp [StyledWriter.pushValue, StyledWriter.add, text]
  constructor
  · intro h
    obtain ⟨t, rest, heq, ht, -⟩ := spells_of_parse (h _ (Nat.lt_succ_self _))
    rw [hwrite] at heq
    generalize hv : Phrase.value (Value.string s) = p at ht
    cases ht with
    | @string g content decoded hg hc hd =>
      obtain ⟨rfl⟩ : s = cstr decoded := by
        injection hv with hv
        injection hv
      rw [List.append_assoc] at heq
      obtain rfl := gap_eq_nil hg heq.symm
      obtain ⟨hle, hclean⟩ := decodeString_length hd
      have hcstr : (cstr decoded).length ≤ decoded.length := (List.takeWhile_prefix _).length_le
      have heq : cstr decoded ++ ['"'.toUInt8, '\n'.toUInt8] = content ++ '"'.toUInt8 :: rest := by
        simpa using heq
      have hlength := congrArg List.length heq
      simp only [List.length_append, List.length_cons, List.length_nil] at hlength
      have hrest : rest ≠ [] := by
        rintro rfl
        have hquote : ¬ '\n'.toUInt8 = '"'.toUInt8 := by decide
        exact hquote (by simpa using congrArg List.getLast? heq)
      have hpos := List.length_pos_iff.mpr hrest
      obtain ⟨hcontent, -⟩ := List.append_inj heq (by omega)
      rw [hcontent]
      exact hclean (by omega)
    | @number g t v hg ht _ =>
      rw [List.append_assoc] at heq
      obtain rfl := gap_eq_nil hg heq.symm
      cases ht with
      | number hc =>
        obtain ⟨rfl, -⟩ := List.cons.inj heq
        exact absurd hc (by decide)
    | _ => cases hv
  · intro h
    have hclean : Clean s := fun c hc => ⟨fun h => h0 (h ▸ hc), h c hc⟩
    obtain ⟨t, heq, ht, hends⟩ := spells_write (Writable.string (D := D) hclean)
    exact heq ▸ parse_of_spells ht hends root

theorem parse_write_quote : Settles
    (fun fuel => parse wholeDoubles fuel (write wholeDoubles (.string (text "a\"b"))) .null)
    (2 * (write wholeDoubles (.string (text "a\"b"))).length + 1) (true, .string (text "a\"b"), []) ↔
      ∀ c ∈ text "a\"b", c ≠ '"'.toUInt8 ∧ c ≠ '\\'.toUInt8 :=
  parse_write_string_iff (by decide) .null

end texts

section numbers

variable {D : Doubles} {t rest : Text}

/-- A whole number is read as its low 32 bits, whatever its size, until doubles take over.
On the way nothing wraps, and the conversion stores inside its buffer just if the length of
the number that it converts is not negative as an `int` and does not fill the buffer. -/
theorem parse_digits (hne : t ≠ []) (ht : ∀ c ∈ t, IsDigit c) (hrest : EndsNumber rest)
    {v : Value D.Double}
    (hv : (if decimal 0 t < 18446744073709551610 then .ok (.int (Int32.ofNat (decimal 0 t)))
      else decodeDouble D t) = .ok v) (root : Value D.Double) :
    Settles (fun fuel => parse D fuel (t ++ rest) root) (2 * (t ++ rest).length + 1) (true, v, []) ∧
      Unwrapped (maxUInt / 10) 0 t ∧
      ((∀ store ∈ decodeNumberStores t, InBuffer store) ↔ (18446744073709551610 ≤ decimal 0 t →
        0 ≤ Int32.ofNat t.length ∧ Int32.ofNat t.length ≠ bufferSize)) := by
  refine ⟨?_, unwrapped threshold_le 0 t, numberStores_inside_iff hne ht⟩
  rw [← decodeNumber_digits D hne ht] at hv
  refine parse_of_spells ?_ (v.ends_of_endsNumber hrest) root
  obtain ⟨c, t, rfl⟩ := List.exists_cons_of_ne_nil hne
  exact .number gap_nil (spelling_digits ht) hv

theorem parse_digits_overflow : Settles
    (fun fuel => parse wholeDoubles fuel (text "4294967301" ++ text " ") .null)
    (2 * (text "4294967301" ++ text " ").length + 1) (true, .int 5, []) ∧
      Unwrapped (maxUInt / 10) 0 (text "4294967301") ∧
      ((∀ store ∈ decodeNumberStores (text "4294967301"), InBuffer store) ↔
        (18446744073709551610 ≤ decimal 0 (text "4294967301") →
          0 ≤ Int32.ofNat (text "4294967301").length ∧
            Int32.ofNat (text "4294967301").length ≠ bufferSize)) := by
  have hdigits : (text "4294967301").all (fun c => decide ('0'.toUInt8 ≤ c ∧ c ≤ '9'.toUInt8)) =
      true := rfl
  have hdigits : ∀ c ∈ text "4294967301", '0'.toUInt8 ≤ c ∧ c ≤ '9'.toUInt8 := fun c hc =>
    of_decide_eq_true (List.all_eq_true.mp hdigits c hc)
  refine parse_digits (by decide) hdigits ?_ rfl .null
  rintro c ⟨rfl⟩
  decide

end numbers

section values

variable {D : Doubles}

/-- The values that come back as they were. -/
inductive Kept (D : Doubles) : Value D.Double → Prop
  | null : Kept D .null
  | int {n : Int32} (hn : ¬ n < 0) : Kept D (.int n)
  | real {r : D.Double} (h : decodeNumber D (D.sprintf r) = .ok (.real r)) : Kept D (.real r)
  | string (s : Text) : Kept D (.string s)
  | boolean (b : Bool) : Kept D (.boolean b)
  | array {vs : List (Value D.Double)} (hvs : ∀ v ∈ vs, Kept D v) : Kept D (.array vs)
  | object {ms : List (Text × Value D.Double)} (hms : ∀ m ∈ ms, Kept D m.2) : Kept D (.object ms)

end values

end Sstoraged.JsonText
