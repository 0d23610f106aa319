import Mathlib.Tactic.FinCases
import Mathlib.Tactic.IntervalCases
import Sstoraged.JsonReader

namespace Sstoraged.JsonText

open Reader

/-- What may stand between two quotes. -/
inductive Quotable : Text → Prop
  | nil : Quotable []
  | plain {c : UInt8} {t : Text} (hquote : c ≠ '"'.toUInt8) (hback : c ≠ '\\'.toUInt8)
      (ht : Quotable t) :
      Quotable (c :: t)
  | escape (e : UInt8) {t : Text} (ht : Quotable t) : Quotable ('\\'.toUInt8 :: e :: t)

/-- A comment, with what ends it. -/
inductive Comment : Text → Prop
  | block {body : Text} (h : ¬ text "*/" <:+: body) : Comment (text "/*" ++ body ++ text "*/")
  | line {body : Text} {c : UInt8} (h : ∀ d ∈ body, ¬ (d = '\r'.toUInt8 ∨ d = '\n'.toUInt8))
      (hc : c = '\r'.toUInt8 ∨ c = '\n'.toUInt8) : Comment (text "//" ++ body ++ [c])

/-- The first character of a number. -/
def beginsNumber (c : UInt8) : Bool := decide ('0'.toUInt8 ≤ c ∧ c ≤ '9'.toUInt8) || c == '-'.toUInt8

/-- The texts of the tokens. -/
inductive Spelling : TokenType → Text → Prop
  | objectBegin : Spelling .objectBegin ['{'.toUInt8]
  | objectEnd : Spelling .objectEnd ['}'.toUInt8]
  | arrayBegin : Spelling .arrayBegin ['['.toUInt8]
  | arrayEnd : Spelling .arrayEnd [']'.toUInt8]
  | string {content : Text} (h : Quotable content) :
      Spelling .string ('"'.toUInt8 :: (content ++ ['"'.toUInt8]))
  | number {c : UInt8} {t : Text} (hc : beginsNumber c = true) (ht : ∀ d ∈ t, inNumber d = true) :
      Spelling .number (c :: t)
  | true : Spelling .true (text "true")
  | false : Spelling .false (text "false")
  | null : Spelling .null (text "null")
  | arraySeparator : Spelling .arraySeparator [','.toUInt8]
  | memberSeparator : Spelling .memberSeparator [':'.toUInt8]
  | comment {t : Text} (h : Comment t) : Spelling .comment t

/-- A number can end here. -/
def EndsNumber (rest : Text) : Prop := ∀ c ∈ rest.head?, inNumber c = false

section strings

theorem readString_cons (c : UInt8) (rest : Text) : readString (c :: rest) =
    if c = '\\'.toUInt8 then readString rest.tail else if c = '"'.toUInt8 then (true, rest)
      else readString rest := by
  cases rest with
  | nil =>
    by_cases hback : c = '\\'.toUInt8
    · rw [if_pos hback, hback]
      rfl
    · rw [if_neg hback, readString]
      by_cases hquote : c = '"'.toUInt8 <;> simp [hquote, readString]
  | cons e rest => rw [readString, List.tail_cons]

theorem readString_append {content : Text} (h : Quotable content) (rest : Text) :
    readString (content ++ '"'.toUInt8 :: rest) = (true, rest) := by
  induction h with
  | nil => rw [List.nil_append, readString_cons, if_neg (by decide), if_pos rfl]
  | plain hquote hback _ ih => rw [List.cons_append, readString_cons, if_neg hback, if_neg hquote, ih]
  | escape e _ ih =>
    rw [List.cons_append, readString_cons, if_pos rfl, List.cons_append, List.tail_cons, ih]

theorem exists_of_readString {t rest : Text} (h : readString t = (true, rest)) :
    ∃ content, Quotable content ∧ t = content ++ '"'.toUInt8 :: rest := by
  fun_induction readString t with
  | case1 => cases h
  | case2 c =>
    obtain ⟨hc, rfl⟩ := Prod.mk.inj h
    exact ⟨[], .nil, by rw [of_decide_eq_true hc, List.nil_append]⟩
  | case3 e t ih =>
    obtain ⟨content, hcontent, rfl⟩ := ih h
    exact ⟨'\\'.toUInt8 :: e :: content, .escape e hcontent, rfl⟩
  | case4 e t hback =>
    obtain ⟨-, rfl⟩ := Prod.mk.inj h
    exact ⟨[], .nil, rfl⟩
  | case5 c e t hback hquote ih =>
    obtain ⟨content, hcontent, heq⟩ := ih h
    exact ⟨c :: content, .plain hquote hback hcontent, by rw [heq, List.cons_append]⟩

end strings

section comments

theorem infix_cons_iff (c : UInt8) (body : Text) : text "*/" <:+: c :: body ↔
    c = '*'.toUInt8 ∧ body.head? = some '/'.toUInt8 ∨ text "*/" <:+: body := by
  rw [List.infix_cons_iff]
  refine or_congr_left ?_
  cases body with
  | nil => simp [text]
  | cons d body => simp [text, eq_comm]

theorem readCStyleComment_append {body : Text} (h : ¬ text "*/" <:+: body) (rest : Text) :
    readCStyleComment (body ++ (text "*/" ++ rest)) = (true, rest) := by
  induction body with
  | nil => rfl
  | cons c body ih =>
    rw [infix_cons_iff, not_or] at h
    rw [List.cons_append, readCStyleComment, if_neg, ih h.2]
    rintro ⟨hc, hhead⟩
    cases body with
    | nil =>
      have hstar : '*'.toUInt8 ≠ '/'.toUInt8 := by decide
      exact hstar (Option.some.inj hhead)
    | cons d body => exact h.1 ⟨hc, hhead⟩

theorem exists_of_readCStyleComment {t rest : Text} (h : readCStyleComment t = (true, rest)) :
    ∃ body, ¬ text "*/" <:+: body ∧ t = body ++ (text "*/" ++ rest) := by
  fun_induction readCStyleComment t with
  | case1 => cases h
  | case2 c t hend =>
    obtain ⟨-, rfl⟩ := Prod.mk.inj h
    obtain ⟨rfl, hhead⟩ := hend
    obtain ⟨t', rfl⟩ := List.head?_eq_some_iff.mp hhead
    exact ⟨[], by decide, rfl⟩
  | case3 c t hend ih =>
    obtain ⟨body, hbody, rfl⟩ := ih h
    refine ⟨c :: body, ?_, rfl⟩
    rw [infix_cons_iff, not_or]
    refine ⟨fun hin => hend ⟨hin.1, ?_⟩, hbody⟩
    rw [List.head?_append, hin.2]
    rfl

theorem readCppStyleComment_append {body : Text} {c : UInt8}
    (h : ∀ d ∈ body, ¬ (d = '\r'.toUInt8 ∨ d = '\n'.toUInt8))
    (hc : c = '\r'.toUInt8 ∨ c = '\n'.toUInt8) (rest : Text) :
    readCppStyleComment (body ++ c :: rest) = rest := by
  induction body with
  | nil => exact if_pos hc
  | cons d body ih =>
    obtain ⟨hd, hbody⟩ := List.forall_mem_cons.mp h
    rw [List.cons_append, readCppStyleComment, if_neg hd, ih hbody]

theorem readCppStyleComment_cases (t : Text) : readCppStyleComment t = [] ∨
    ∃ body c, (∀ d ∈ body, ¬ (d = '\r'.toUInt8 ∨ d = '\n'.toUInt8)) ∧
      (c = '\r'.toUInt8 ∨ c = '\n'.toUInt8) ∧
      t = body ++ c :: readCppStyleComment t := by
  fun_induction readCppStyleComment t with
  | case1 => exact .inl rfl
  | case2 c t hc => exact .inr ⟨[], c, List.forall_mem_nil _, hc, rfl⟩
  | case3 d t hd ih =>
    refine ih.imp_right fun ⟨body, c, hbody, hc, heq⟩ =>
      ⟨d :: body, c, List.forall_mem_cons.mpr ⟨hd, hbody⟩, hc, ?_⟩
    exact congrArg (d :: ·) heq

theorem readComment_append {t : Text} (h : Comment ('/'.toUInt8 :: t)) (rest : Text) :
    readComment (t ++ rest) = (true, rest) := by
  generalize hs : '/'.toUInt8 :: t = s at h
  cases h with
  | @block body h =>
    obtain rfl : t = '*'.toUInt8 :: (body ++ text "*/") := (List.cons.inj hs).2
    rw [List.cons_append, readComment, if_pos rfl, List.append_assoc, readCStyleComment_append h]
  | @line body c h hc =>
    obtain rfl : t = '/'.toUInt8 :: (body ++ [c]) := (List.cons.inj hs).2
    rw [List.cons_append, readComment, if_neg (by decide), if_pos rfl, List.append_assoc,
      List.singleton_append,
      readCppStyleComment_append h hc]

theorem exists_of_readComment {t rest : Text} (h : readComment t = (true, rest)) :
    rest = [] ∨ ∃ comment, Comment ('/'.toUInt8 :: comment) ∧ t = comment ++ rest := by
  cases t with
  | nil => cases h
  | cons c t =>
    rw [readComment] at h
    split at h
    · next hc =>
      obtain ⟨body, hbody, rfl⟩ := exists_of_readCStyleComment h
      exact .inr ⟨'*'.toUInt8 :: (body ++ text "*/"), .block hbody, by rw [hc]; simp⟩
    · split at h
      · next hc =>
        obtain ⟨-, rfl⟩ := Prod.mk.inj h
        refine (readCppStyleComment_cases t).imp_right fun ⟨body, d, hbody, hd, heq⟩ => ?_
        refine ⟨'/'.toUInt8 :: (body ++ [d]), .line hbody hd, ?_⟩
        rw [hc, List.cons_append, List.append_assoc, List.singleton_append, ← heq]
      · cases h

end comments

section numbers

theorem readNumber_append {t rest : Text} (ht : ∀ d ∈ t, inNumber d = true) (hrest : EndsNumber rest) :
    readNumber (t ++ rest) = rest := by
  rw [readNumber, List.dropWhile_append_of_pos ht]
  cases rest with
  | nil => rfl
  | cons c rest => exact List.dropWhile_cons_of_neg (Bool.not_eq_true _ ▸ hrest c rfl)

theorem exists_of_readNumber (t : Text) :
    ∃ digits, (∀ d ∈ digits, inNumber d = true) ∧ t = digits ++ readNumber t ∧
      EndsNumber (readNumber t) := by
  refine ⟨t.takeWhile inNumber, fun d hd => List.mem_takeWhile_imp hd,
    List.takeWhile_append_dropWhile.symm, ?_⟩
  intro c hc
  have hnot := List.head?_dropWhile_not inNumber t
  rw [← readNumber, Option.mem_def.mp hc] at hnot
  exact hnot

theorem mem_of_beginsNumber {c : UInt8} (h : beginsNumber c = true) : c ∈ text "0123456789-" := by
  obtain hdigit | rfl := ((Bool.or_eq_true ..).mp h).imp of_decide_eq_true eq_of_beq
  · have hlow : 48 ≤ c.toNat := UInt8.le_iff_toNat_le.mp hdigit.1
    have hhigh : c.toNat ≤ 57 := UInt8.le_iff_toNat_le.mp hdigit.2
    rw [← UInt8.ofNat_toNat (x := c)]
    interval_cases c.toNat <;> decide
  · decide

end numbers

theorem ofUInt8_toUInt8 (c : UInt8) : (Char.ofUInt8 c).toUInt8 = c :=
  UInt8.toUInt8_toUInt32 c

theorem eq_of_ofUInt8 {c : UInt8} {d : Char} (h : Char.ofUInt8 c = d) : c = d.toUInt8 :=
  (ofUInt8_toUInt8 c).symm.trans (congrArg Char.toUInt8 h)

theorem scan_number {c : UInt8} (h : beginsNumber c = true) (rest : Text) :
    scan (c :: rest) = (.number, readNumber rest) := by
  have hmem := mem_of_beginsNumber h
  simp [text] at hmem
  rcases hmem with rfl | rfl | rfl | rfl | rfl | rfl | rfl | rfl | rfl | rfl | rfl <;> rfl

/-- A token is scanned as what it is, whatever follows it; only a number goes on as far as
it can. -/
theorem scan_append {type : TokenType} {t rest : Text} (h : Spelling type t)
    (hrest : type = .number → EndsNumber rest) : scan (t ++ rest) = (type, rest) := by
  cases h with
  | string h =>
    change ifOk .string (readString ((_ ++ _) ++ rest)) = _
    rw [List.append_assoc, List.singleton_append, readString_append h]
    rfl
  | number hc ht => rw [List.cons_append, scan_number hc, readNumber_append ht (hrest rfl)]
  | comment h =>
    obtain ⟨t', rfl⟩ : ∃ t', t = '/'.toUInt8 :: t' := by cases h <;> exact ⟨_, rfl⟩
    change ifOk .comment (readComment (t' ++ rest)) = _
    rw [readComment_append h]
    rfl
  | _ => rfl

theorem matchPattern_true {pattern t rest : Text} (h : matchPattern pattern t = (true, rest)) :
    t = pattern ++ rest := by
  unfold matchPattern at h
  split at h
  · next hp =>
    obtain ⟨-, rfl⟩ := Prod.mk.inj h
    exact (List.prefix_iff_eq_append.mp (List.isPrefixOf_iff_prefix.mp hp)).symm
  · cases h

theorem ifOk_eq {type type' : TokenType} {read : Bool × Text} {rest : Text}
    (h : ifOk type read = (type', rest))
    (herror : type' ≠ .error) : type' = type ∧ read = (true, rest) := by
  obtain ⟨ok, t⟩ := read
  cases ok with
  | false => exact absurd (Prod.mk.inj h).1.symm herror
  | true =>
    obtain ⟨rfl, rfl⟩ := Prod.mk.inj h
    exact ⟨rfl, rfl⟩

/-- What is scanned is the text of a token, with a number as long as it can be. -/
def Scanned (type : TokenType) (t rest : Text) : Prop :=
  ∃ token, Spelling type token ∧ t = token ++ rest ∧ (type = .number → EndsNumber rest)

section scanned

variable {type type' : TokenType} {c : UInt8} {d : Char} {word t rest : Text}

theorem scanned_single (hd : Spelling type' [d.toUInt8]) (hc : Char.ofUInt8 c = d)
    (hne : type' ≠ .number)
    (h : (type', t) = (type, rest)) : Scanned type (c :: t) rest := by
  obtain ⟨rfl, rfl⟩ := Prod.mk.inj h
  obtain rfl := eq_of_ofUInt8 hc
  exact ⟨[d.toUInt8], hd, rfl, fun heq => absurd heq hne⟩

theorem scanned_word (hword : Spelling type' (d.toUInt8 :: word)) (hc : Char.ofUInt8 c = d)
    (hne : type' ≠ .number)
    (herror : type ≠ .error) (h : ifOk type' (matchPattern word t) = (type, rest)) :
    Scanned type (c :: t) rest := by
  obtain ⟨rfl, hmatch⟩ := ifOk_eq h herror
  obtain rfl := eq_of_ofUInt8 hc
  obtain rfl := matchPattern_true hmatch
  exact ⟨d.toUInt8 :: word, hword, rfl, fun heq => absurd heq hne⟩

theorem scanned_number (hd : beginsNumber d.toUInt8 = true) (hc : Char.ofUInt8 c = d)
    (h : (TokenType.number, readNumber t) = (type, rest)) : Scanned type (c :: t) rest := by
  obtain ⟨rfl, rfl⟩ := Prod.mk.inj h
  obtain rfl := eq_of_ofUInt8 hc
  obtain ⟨digits, hdigits, heq, hends⟩ := exists_of_readNumber t
  exact ⟨d.toUInt8 :: digits, .number hd hdigits, congrArg (d.toUInt8 :: ·) heq, fun _ => hends⟩

theorem scanned_string (hc : Char.ofUInt8 c = '"') (herror : type ≠ .error)
    (h : ifOk .string (readString t) = (type, rest)) : Scanned type (c :: t) rest := by
  obtain ⟨rfl, hread⟩ := ifOk_eq h herror
  obtain rfl := eq_of_ofUInt8 hc
  obtain ⟨content, hcontent, rfl⟩ := exists_of_readString hread
  exact ⟨_, .string hcontent, by simp, fun heq => by cases heq⟩

theorem scanned_comment (hc : Char.ofUInt8 c = '/') (herror : type ≠ .error)
    (h : ifOk .comment (readComment t) = (type, rest)) : Scanned type (c :: t) rest ∨
      type = .comment ∧ rest = [] := by
  obtain ⟨rfl, hread⟩ := ifOk_eq h herror
  obtain rfl := eq_of_ofUInt8 hc
  obtain hnil | ⟨comment, hcomment, rfl⟩ := exists_of_readComment hread
  · exact .inr ⟨rfl, hnil⟩
  · exact .inl ⟨_, .comment hcomment, rfl, fun heq => by cases heq⟩

theorem scanned_of_scan (h : scan t = (type, rest)) (hend : type ≠ .endOfStream)
    (herror : type ≠ .error) :
    Scanned type t rest ∨ type = .comment ∧ rest = [] := by
  cases t with
  | nil => exact absurd (Prod.mk.inj h).1.symm hend
  | cons c t =>
    unfold scan at h
    dsimp only at h
    split at h
    case h_1 hc => exact .inl (scanned_single .objectBegin hc (by decide) h)
    case h_2 hc => exact .inl (scanned_single .objectEnd hc (by decide) h)
    case h_3 hc => exact .inl (scanned_single .arrayBegin hc (by decide) h)
    case h_4 hc => exact .inl (scanned_single .arrayEnd hc (by decide) h)
    case h_5 hc => exact .inl (scanned_string hc herror h)
    case h_6 hc => exact scanned_comment hc herror h
    case h_18 hc => exact .inl (scanned_word .true hc (by decide) herror h)
    case h_19 hc => exact .inl (scanned_word .false hc (by decide) herror h)
    case h_20 hc => exact .inl (scanned_word .null hc (by decide) herror h)
    case h_21 hc => exact .inl (scanned_single .arraySeparator hc (by decide) h)
    case h_22 hc => exact .inl (scanned_single .memberSeparator hc (by decide) h)
    case h_23 => exact absurd (Prod.mk.inj h).1.symm hend
    case h_24 => exact absurd (Prod.mk.inj h).1.symm herror
    all_goals
      refine .inl (scanned_number ?_ ‹_› h)
      decide

end scanned

end Sstoraged.JsonText
