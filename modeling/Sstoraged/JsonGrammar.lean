import Sstoraged.JsonTokens
import Sstoraged.Outcome

namespace Sstoraged.JsonText

open Reader
open ConfigBinder (cstr)

def Blank (b : Text) : Prop := ∀ c ∈ b, isSpace c = true

/-- Blanks with comments among them. -/
inductive Gap : Text → Prop
  | blank {b : Text} (hb : Blank b) : Gap b
  | comment {b t g : Text} (hb : Blank b) (ht : Comment t) (hg : Gap g) : Gap (b ++ (t ++ g))

/-- What the functions of the reader read. The members of an object are read behind a name,
into the members that are there. -/
inductive Phrase (R : Type)
  | value (v : Value R)
  | elements (vs : List (Value R))
  | member (name : Text) (v : Value R)
  | members (name : Text) (before after : List (Text × Value R))

/-- The texts of phrases. Those of elements and of members have the closing bracket. A comma
may stand in front of the brace behind an empty name. -/
inductive Spells (D : Doubles) : Phrase D.Double → Text → Prop
  | null {g : Text} (hg : Gap g) : Spells D (.value .null) (g ++ text "null")
  | true {g : Text} (hg : Gap g) : Spells D (.value (.boolean true)) (g ++ text "true")
  | false {g : Text} (hg : Gap g) : Spells D (.value (.boolean false)) (g ++ text "false")
  | number {g t : Text} {v : Value D.Double} (hg : Gap g) (ht : Spelling .number t)
      (hv : decodeNumber D t = .ok v) :
      Spells D (.value v) (g ++ t)
  | string {g content decoded : Text} (hg : Gap g) (hc : Quotable content)
      (hd : decodeString [] content = .ok decoded) :
      Spells D (.value (.string (cstr decoded))) (g ++ '"'.toUInt8 :: (content ++ ['"'.toUInt8]))
  | empty {g b : Text} (hg : Gap g) (hb : Blank b) :
      Spells D (.value (.array [])) (g ++ '['.toUInt8 :: (b ++ [']'.toUInt8]))
  | array {g t : Text} {vs : List (Value D.Double)} (hg : Gap g) (h : Spells D (.elements vs) t) :
      Spells D (.value (.array vs)) (g ++ '['.toUInt8 :: t)
  | object {g t : Text} {ms : List (Text × Value D.Double)} (hg : Gap g)
      (h : Spells D (.members [] [] ms) t) :
      Spells D (.value (.object ms)) (g ++ '{'.toUInt8 :: t)
  | last {t b : Text} {v : Value D.Double} (h : Spells D (.value v) t) (hb : Blank b) :
      Spells D (.elements [v]) (t ++ (b ++ [']'.toUInt8]))
  | next {t b t' : Text} {v : Value D.Double} {vs : List (Value D.Double)}
      (h : Spells D (.value v) t) (hb : Blank b)
      (h' : Spells D (.elements vs) t') : Spells D (.elements (v :: vs)) (t ++ (b ++ ','.toUInt8 :: t'))
  | member {g content name b t : Text} {v : Value D.Double} (hg : Gap g) (hc : Quotable content)
      (hd : decodeString [] content = .ok name) (hb : Blank b) (h : Spells D (.value v) t) :
      Spells D (.member name v) (g ++ '"'.toUInt8 :: (content ++ '"'.toUInt8 :: (b ++ ':'.toUInt8 :: t)))
  | close {g : Text} {ms : List (Text × Value D.Double)} (hg : Gap g) :
      Spells D (.members [] ms ms) (g ++ ['}'.toUInt8])
  | lastMember {name name' t b : Text} {v : Value D.Double} {ms : List (Text × Value D.Double)}
      (h : Spells D (.member name' v) t) (hb : Blank b) :
      Spells D (.members name ms (SortedMap.assign ms (cstr name') v)) (t ++ (b ++ ['}'.toUInt8]))
  | nextMember {name name' t b t' : Text} {v : Value D.Double} {ms ms' : List (Text × Value D.Double)}
      (h : Spells D (.member name' v) t) (hb : Blank b)
      (h' : Spells D (.members name' (SortedMap.assign ms (cstr name') v) ms') t') :
      Spells D (.members name ms ms') (t ++ (b ++ ','.toUInt8 :: t'))

/-- A number does not go on behind its text. -/
def Value.Ends {R : Type} (rest : Text) : Value R → Prop
  | .int _ | .uint _ | .real _ => EndsNumber rest
  | _ => True

section tokens

variable {type : TokenType} {b g t rest : Text} {errors : List ErrorInfo}

theorem skipSpaces_append (hb : Blank b) (t : Text) : skipSpaces (b ++ t) = skipSpaces t :=
  List.dropWhile_append_of_pos hb

theorem exists_of_skipSpaces (t : Text) : ∃ b, Blank b ∧ t = b ++ skipSpaces t :=
  ⟨t.takeWhile isSpace, fun _ hc => List.mem_takeWhile_imp hc, List.takeWhile_append_dropWhile.symm⟩

theorem isSpace_of_beginsNumber {c : UInt8} (h : beginsNumber c = true) : isSpace c = false := by
  have hall : (text "0123456789-").all (!isSpace ·) = true := rfl
  simpa using List.all_eq_true.mp hall c (mem_of_beginsNumber h)

theorem spelling_begins (h : Spelling type t) :
    ∃ c t', t = c :: t' ∧ isSpace c = false ∧ (c = ']'.toUInt8 → type = .arrayEnd) := by
  cases h with
  | number hc =>
    refine ⟨_, _, rfl, isSpace_of_beginsNumber hc, ?_⟩
    rintro rfl
    exact absurd hc (by decide)
  | comment h => cases h <;> exact ⟨_, _, rfl, by decide, by decide⟩
  | _ => exact ⟨_, _, rfl, by decide, by decide⟩

theorem skipSpaces_spelling (h : Spelling type t) (rest : Text) :
    skipSpaces (t ++ rest) = t ++ rest := by
  obtain ⟨c, t, rfl, hc, -⟩ := spelling_begins h
  exact List.dropWhile_cons_of_neg (Bool.not_eq_true _ ▸ hc)

theorem readToken_append (hb : Blank b) (h : Spelling type t)
    (hrest : type = .number → EndsNumber rest) :
    readToken ⟨b ++ (t ++ rest), errors⟩ = (⟨type, t ++ rest, rest⟩, ⟨rest, errors⟩) := by
  simp only [readToken, skipSpaces_append hb, skipSpaces_spelling h, scan_append h hrest]

theorem text_token (type : TokenType) (t rest : Text) : Token.text ⟨type, t ++ rest, rest⟩ = t := by
  simp [Token.text]

theorem skipCommentTokens_append (hg : Gap g) (h : Spelling type t) (hne : type ≠ .comment)
    (hrest : type = .number → EndsNumber rest) {fuel : Nat} (hfuel : g.length < fuel) :
    skipCommentTokens fuel ⟨g ++ (t ++ rest), errors⟩ = some
      (⟨type, t ++ rest, rest⟩, ⟨rest, errors⟩) := by
  induction hg generalizing fuel with
  | blank hb =>
    obtain ⟨fuel, rfl⟩ := Nat.exists_eq_add_one_of_ne_zero (Nat.ne_zero_of_lt hfuel)
    unfold skipCommentTokens readUntil
    rw [readToken_append hb h hrest]
    exact if_pos (decide_eq_true hne)
  | @comment b c g hb hc hg ih =>
    obtain ⟨fuel, rfl⟩ := Nat.exists_eq_add_one_of_ne_zero (Nat.ne_zero_of_lt hfuel)
    have hpos : 0 < c.length := by cases hc <;> simp [text]
    have hfuel : g.length < fuel := by
      simp only [List.length_append] at hfuel
      omega
    unfold skipCommentTokens readUntil
    rw [List.append_assoc, List.append_assoc, readToken_append hb (.comment hc)
      (fun heq => by cases heq)]
    exact ih hfuel

end tokens

section strings

variable {content decoded stop : Text}

theorem decodeUnicode_ok {behind digits : Text} {n unicode : Nat}
    (h : decodeUnicodeEscapeSequence behind n digits = .ok unicode) (behind' : Text) :
    decodeUnicodeEscapeSequence behind' n digits = .ok unicode := by
  induction digits generalizing n with
  | nil => exact h
  | cons c digits ih =>
    unfold decodeUnicodeEscapeSequence at h ⊢
    split at h
    · cases h
    · exact ih h

theorem map_ok {A B E : Type} {f : A → B} {x : Except E A} {b : B} (h : x.map f = .ok b) :
    ∃ a, x = .ok a ∧ f a = b := by
  cases x with
  | error => cases h
  | ok a => exact ⟨a, rfl, Except.ok.inj h⟩

theorem decodeString_ok (h : decodeString stop content = .ok decoded) (stop' : Text) :
    decodeString stop' content = .ok decoded := by
  fun_induction decodeString stop content generalizing decoded with
  | case1 => exact h
  | case2 =>
    rw [decodeString.eq_def]
    exact h
  | case3 => cases h
  | case4 escape current c hunescape _ ih =>
    obtain ⟨_, hdecoded, rfl⟩ := map_ok h
    rw [decodeString.eq_def]
    simp only [hunescape, ih hdecoded]
    rfl
  | case5 escape hunescape a b c d current hquote ih =>
    obtain ⟨unicode, hunicode, hdecoded⟩ := of_bind_ok h
    rw [decodeString.eq_def]
    simp only [hunescape, decodeUnicode_ok hunicode (current ++ stop'), if_neg hquote]
    exact ih hdecoded
  | case6 => cases h
  | case7 => cases h
  | case8 c current hquote hback ih =>
    obtain ⟨_, hdecoded, rfl⟩ := map_ok h
    rw [decodeString.eq_def]
    simp only [if_neg hquote, if_neg hback, ih hdecoded]
    rfl

theorem quoted_token (type : TokenType) (content rest : Text) :
    quoted ⟨type, ('"'.toUInt8 :: (content ++ ['"'.toUInt8])) ++ rest, rest⟩ = content := by
  rw [quoted, text_token, List.tail_cons, List.dropLast_concat]

end strings

end Sstoraged.JsonText
