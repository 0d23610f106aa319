import Sstoraged.JsonParsing

namespace Sstoraged.JsonText

open Reader
open ConfigBinder (cstr)

variable {D : Doubles}

section suffixes

theorem readString_suffix (t : Text) : (readString t).2 <:+ t := by
  fun_induction readString t with
  | case1 => exact List.suffix_rfl
  | case2 c => exact List.nil_suffix
  | case3 e t ih => exact ih.trans ((List.suffix_cons e t).trans (List.suffix_cons _ _))
  | case4 e t => exact List.suffix_cons _ _
  | case5 c e t _ _ ih => exact ih.trans (List.suffix_cons _ _)

theorem readCStyleComment_suffix (t : Text) : (readCStyleComment t).2 <:+ t := by
  fun_induction readCStyleComment t with
  | case1 => exact List.suffix_rfl
  | case2 c t => exact (List.tail_suffix t).trans (List.suffix_cons c t)
  | case3 c t _ ih => exact ih.trans (List.suffix_cons c t)

theorem readCppStyleComment_suffix (t : Text) : readCppStyleComment t <:+ t := by
  fun_induction readCppStyleComment t with
  | case1 => exact List.suffix_rfl
  | case2 c t => exact List.suffix_cons c t
  | case3 c t _ ih => exact ih.trans (List.suffix_cons c t)

theorem readComment_suffix (t : Text) : (readComment t).2 <:+ t := by
  cases t with
  | nil => exact List.suffix_rfl
  | cons c t =>
    rw [readComment]
    split
    · exact (readCStyleComment_suffix t).trans (List.suffix_cons c t)
    · split
      · exact (readCppStyleComment_suffix t).trans (List.suffix_cons c t)
      · exact List.suffix_cons c t

theorem matchPattern_suffix (pattern t : Text) : (matchPattern pattern t).2 <:+ t := by
  unfold matchPattern
  split
  · exact List.drop_suffix _ _
  · exact List.suffix_rfl

theorem scan_suffix (c : UInt8) (t : Text) : (scan (c :: t)).2 <:+ t := by
  unfold scan
  dsimp only
  split
  case h_5 => exact readString_suffix t
  case h_6 => exact readComment_suffix t
  case h_18 => exact matchPattern_suffix _ t
  case h_19 => exact matchPattern_suffix _ t
  case h_20 => exact matchPattern_suffix _ t
  all_goals first | exact List.suffix_rfl | exact List.dropWhile_suffix _

end suffixes

/-- All but finitely little fuel gives one result. -/
def Settles {A : Type} (f : Nat → Option A) (bound : Nat) (a : A) : Prop :=
  ∀ fuel, bound < fuel → f fuel = some a

theorem Settles.mono {A : Type} {f : Nat → Option A} {bound bound' : Nat} {a : A} (h : Settles f bound a)
    (hle : bound ≤ bound') : Settles f bound' a := fun fuel hlt => h fuel (Nat.lt_of_le_of_lt hle hlt)

theorem Settles.unique {A : Type} {f : Nat → Option A} {bound bound' : Nat} {a a' : A}
    (h : Settles f bound a)
    (h' : Settles f bound' a') : a = a' := by
  have hlt := Nat.lt_succ_of_le (le_max_left bound bound')
  have hlt' := Nat.lt_succ_of_le (le_max_right bound bound')
  exact Option.some.inj ((h _ hlt).symm.trans (h' _ hlt'))

section tokens

variable {r : Reader}

theorem readToken_suffix (r : Reader) : r.readToken.1.start <:+ r.current ∧
    r.readToken.2.current <:+ r.readToken.1.start := by
  refine ⟨List.dropWhile_suffix _, ?_⟩
  change (scan (skipSpaces r.current)).2 <:+ skipSpaces r.current
  cases skipSpaces r.current with
  | nil => exact List.suffix_rfl
  | cons c t => exact (scan_suffix c t).trans (List.suffix_cons c t)

/-- A token stands in a text from one location to a later one, and does not begin with a blank. -/
structure Token.Inside (t : Text) (token : Token) : Prop where
  start : token.start <:+ t
  stop : token.stop <:+ token.start
  solid : ∀ c ∈ token.start.head?, isSpace c = false

theorem Token.Inside.mono {token : Token} {t t' : Text} (h : token.Inside t) (hsuffix : t <:+ t') :
    token.Inside t' :=
  ⟨h.start.trans hsuffix, h.stop, h.solid⟩

theorem readToken_inside (r : Reader) : r.readToken.1.Inside r.current := by
  obtain ⟨hstart, hstop⟩ := readToken_suffix r
  refine ⟨hstart, hstop, fun c hc => ?_⟩
  have hhead := List.head?_dropWhile_not isSpace r.current
  change (skipSpaces r.current).head? = some c at hc
  rw [skipSpaces] at hc
  rw [hc] at hhead
  simpa using hhead

theorem readToken_length (h : r.readToken.1.type ≠ .endOfStream) :
    r.readToken.2.current.length < r.current.length := by
  have hskip := (List.dropWhile_suffix (l := r.current) isSpace).length_le
  change (scan (skipSpaces r.current)).1 ≠ .endOfStream at h
  change (scan (skipSpaces r.current)).2.length < r.current.length
  change (skipSpaces r.current).length ≤ _ at hskip
  cases hstart : skipSpaces r.current with
  | nil =>
    rw [hstart] at h
    exact absurd rfl h
  | cons c t =>
    have hscan := (scan_suffix c t).length_le
    rw [hstart, List.length_cons] at hskip
    omega

theorem readUntil_succ (stop : TokenType → Bool) (fuel : Nat) (r : Reader) :
    readUntil stop (fuel + 1) r =
    if stop r.readToken.1.type then some r.readToken else readUntil stop fuel r.readToken.2 := rfl

theorem readUntil_settles (stop : TokenType → Bool) (hstop : stop .endOfStream = true) (r : Reader) :
    ∃ token r', Settles (fun fuel => readUntil stop fuel r) r.current.length (token, r') ∧
      token.Inside r.current ∧ r'.current <:+ r.current ∧ r'.errors = r.errors ∧
      (token.type ≠ .endOfStream → r'.current.length < r.current.length) := by
  induction hn : r.current.length using Nat.strong_induction_on generalizing r with
  | _ n ih =>
    subst hn
    obtain ⟨hstart, hrest⟩ := readToken_suffix r
    cases hs : stop r.readToken.1.type with
    | true =>
      refine ⟨r.readToken.1, r.readToken.2, fun fuel hlt => ?_, readToken_inside r,
        hrest.trans hstart, rfl, readToken_length⟩
      obtain ⟨fuel, rfl⟩ := Nat.exists_eq_add_one_of_ne_zero (Nat.ne_zero_of_lt hlt)
      change readUntil stop (fuel + 1) r = _
      rw [readUntil_succ, if_pos hs]
    | false =>
      have hne : r.readToken.1.type ≠ .endOfStream := by
        intro heq
        rw [heq, hstop] at hs
        cases hs
      have hlength := readToken_length hne
      obtain ⟨token, r', hsettles, htoken, hcurrent, herrors, hless⟩ := ih _ hlength r.readToken.2 rfl
      have hall := hrest.trans hstart
      refine ⟨token, r', fun fuel hlt => ?_, htoken.mono hall, hcurrent.trans hall, herrors,
        fun h => (hless h).trans hlength⟩
      obtain ⟨fuel, rfl⟩ := Nat.exists_eq_add_one_of_ne_zero (Nat.ne_zero_of_lt hlt)
      change readUntil stop (fuel + 1) r = _
      rw [readUntil_succ, hs]
      exact hsettles fuel (by omega)

end tokens

section values

/-- An error is about a place of the document. -/
def ErrorInfo.Inside (document : Text) (e : ErrorInfo) : Prop :=
  e.token.Inside document ∧ ∀ l ∈ e.extra, l <:+ document

/-- The reader goes on from here to there, and reports one error if it fails. -/
structure Answers (r : Reader) (ok : Bool) (r' : Reader) : Prop where
  rest : r'.current <:+ r.current
  errors : ok = true ∧ r'.errors = r.errors ∨ ok = false ∧ ∃ e, r'.errors = r.errors ++ [e] ∧
    e.Inside r.current

theorem ErrorInfo.Inside.mono {e : ErrorInfo} {t t' : Text} (h : e.Inside t) (hsuffix : t <:+ t') :
    e.Inside t' :=
  ⟨h.1.mono hsuffix, fun l hl => (h.2 l hl).trans hsuffix⟩

variable {r r₁ r' : Reader} {ok : Bool}

theorem Answers.before (h : Answers r₁ ok r') (hrest : r₁.current <:+ r.current)
    (herrors : r₁.errors = r.errors) :
    Answers r ok r' := by
  refine ⟨h.rest.trans hrest, h.errors.imp ?_ ?_⟩
  · exact fun ⟨hok, heq⟩ => ⟨hok, heq.trans herrors⟩
  · exact fun ⟨hok, e, heq, he⟩ => ⟨hok, e, by rw [heq, herrors], he.mono hrest⟩

theorem Answers.recovered {r₂ : Reader} (h : Answers r false r₁) (hrest : r₂.current <:+ r₁.current)
    (herrors : r₂.errors = r₁.errors) : Answers r false r₂ := by
  refine ⟨hrest.trans h.rest, .inr ⟨rfl, ?_⟩⟩
  obtain ⟨hok, -⟩ | ⟨-, e, heq, he⟩ := h.errors
  · cases hok
  · exact ⟨e, herrors.trans heq, he⟩

theorem answers_ok (hrest : r'.current <:+ r.current) (herrors : r'.errors = r.errors) :
    Answers r true r' :=
  ⟨hrest, .inl ⟨rfl, herrors⟩⟩

theorem answers_addError {complaint : Complaint} {token : Token} (hrest : r₁.current <:+ r.current)
    (herrors : r₁.errors = r.errors) (hstart : token.Inside r.current)
    (hextra : ∀ l ∈ complaint.2, l <:+ r.current) :
    Answers r false (r₁.addError complaint token) :=
  ⟨hrest, .inr ⟨rfl, ⟨token, complaint.1, complaint.2⟩, congrArg (· ++ _) herrors, hstart, hextra⟩⟩

theorem recoverFromError_settles (type : TokenType) (r : Reader) :
    ∃ r', Settles (fun fuel => recoverFromError fuel type r) r.current.length r' ∧
      r'.current <:+ r.current ∧
      r'.errors = r.errors := by
  obtain ⟨token, r', hsettles, -, hcurrent, herrors, -⟩ :=
    readUntil_settles (fun t => decide (t = type ∨ t = .endOfStream)) (decide_eq_true (.inr rfl)) r
  exact ⟨r', fun fuel hlt => congrArg (Option.map Prod.snd) (hsettles fuel hlt), hcurrent, herrors⟩

theorem decodeUnicode_error {behind digits : Text} {n : Nat} {complaint : Complaint}
    (h : decodeUnicodeEscapeSequence behind n digits = .error complaint) :
    ∀ l ∈ complaint.2, l <:+ digits ++ behind := by
  induction digits generalizing n with
  | nil => cases h
  | cons c digits ih =>
    unfold decodeUnicodeEscapeSequence at h
    split at h
    · obtain rfl := Except.error.inj h
      rintro l ⟨⟩
      exact List.suffix_cons c _
    · exact fun l hl => (ih h l hl).trans (List.suffix_cons c _)

theorem map_error {A B E : Type} {f : A → B} {x : Except E A} {e : E} (h : x.map f = .error e) :
    x = .error e := by
  cases x with
  | error => exact congrArg Except.error (Except.error.inj h)
  | ok a => cases h

theorem decodeString_error {stop t : Text} {complaint : Complaint}
    (h : decodeString stop t = .error complaint) :
    ∀ l ∈ complaint.2, l <:+ t ++ stop := by
  fun_induction decodeString stop t with
  | case1 => cases h
  | case2 => cases h
  | case3 =>
    obtain rfl := Except.error.inj h
    rintro l ⟨⟩
    exact List.suffix_append _ _
  | case4 escape current c hunescape _ ih =>
    exact fun l hl => (ih (map_error h) l hl).trans (List.suffix_append ['\\'.toUInt8, escape] _)
  | case5 escape hunescape a b c d current hquote ih =>
    have hsuffix : current ++ stop <:+ '\\'.toUInt8 :: escape :: a :: b :: c :: d :: current ++ stop :=
      List.suffix_append ['\\'.toUInt8, escape, a, b, c, d] _
    cases hunicode : decodeUnicodeEscapeSequence (current ++ stop) 0 [a, b, c, d] with
    | error complaint' =>
      rw [hunicode] at h
      obtain rfl := Except.error.inj h
      exact fun l hl => (decodeUnicode_error hunicode l hl).trans
        (List.suffix_append ['\\'.toUInt8, escape] _)
    | ok unicode =>
      rw [hunicode] at h
      exact fun l hl => (ih h l hl).trans hsuffix
  | case6 escape hunescape current =>
    obtain rfl := Except.error.inj h
    rintro l ⟨⟩
    exact List.suffix_append ['\\'.toUInt8, escape] _
  | case7 escape current =>
    obtain rfl := Except.error.inj h
    rintro l ⟨⟩
    exact List.suffix_append ['\\'.toUInt8, escape] _
  | case8 c current _ _ ih => exact fun l hl => (ih (map_error h) l hl).trans (List.suffix_cons c _)

end values

section answers

variable {r : Reader}

theorem quoted_suffix {g : Text} {token : Token} {r' : Reader} (h : TokenAt g token r r')
    (hstring : token.type = .string) :
    quoted token ++ closing token <:+ token.start := by
  obtain ⟨t, ht, -, heq, -, -⟩ := h
  rw [hstring] at ht
  cases ht with
  | @string content hc =>
  rw [heq, quoted_token]
  simp [closing, List.suffix_cons]

variable (D) in
/-- The functions of the reader settle on a text of some length. -/
structure Returns (n : Nat) : Prop where
  value : ∀ r : Reader, r.current.length = n → ∀ current, ∃ ok v r',
    Settles (fun fuel => readValue D fuel current r) (2 * n + 1) (ok, v, r') ∧ Answers r ok r'
  elements : ∀ r : Reader, r.current.length = n → ∀ before, ∃ ok v r',
    Settles (fun fuel => readArray D fuel before r) (2 * n + 2) (ok, v, r') ∧ Answers r ok r'
  members : ∀ r : Reader, r.current.length = n → ∀ last ms, ∃ ok v r',
    Settles (fun fuel => readObject D fuel last ms r) (2 * n + 2) (ok, v, r') ∧ Answers r ok r'

theorem returns_value (ih : ∀ m < r.current.length, Returns D m) (current : Value D.Double) : ∃ ok v r',
    Settles (fun fuel => readValue D fuel current r) (2 * r.current.length + 1) (ok, v, r') ∧
      Answers r ok r' := by
  obtain ⟨token, r₁, hskip, hstart, hrest, herrors, hless⟩ :=
    readUntil_settles (fun type => decide (type ≠ .comment)) (by decide) r
  -- what the function does is read off for each type of token
  have hsucc : ∀ {x}, (∀ fuel, 2 * r.current.length < fuel →
    (readValue D (fuel + 1) current r = some x)) →
      Settles (fun fuel => readValue D fuel current r) (2 * r.current.length + 1) x := by
    intro x hx fuel hlt
    obtain ⟨fuel, rfl⟩ := Nat.exists_eq_add_one_of_ne_zero (Nat.ne_zero_of_lt hlt)
    exact hx fuel (by omega)
  have hat (hend : token.type ≠ .endOfStream) (herror : token.type ≠ .error) :=
    gap_of_skipCommentTokens (hskip (r.current.length + 1) (Nat.lt_succ_self _)) hend herror
  have hfail (complaint : Complaint) (h : ∀ l ∈ complaint.2, l <:+ r.current) :
      Answers r false (r₁.addError complaint token) := answers_addError hrest herrors hstart h
  have hread (fuel : Nat) (hlt : 2 * r.current.length < fuel) :
    skipCommentTokens fuel r = some (token, r₁) :=
    hskip fuel (by omega)
  cases htype : token.type with
  | objectBegin =>
    have hlt := hless (by rw [htype]; decide)
    obtain ⟨ok, v, r', hsettles, hanswers⟩ := (ih _ hlt).members r₁ rfl [] []
    refine ⟨ok, v, r', hsucc fun fuel hfuel => ?_, hanswers.before hrest herrors⟩
    rw [readValue, hread fuel hfuel]
    simp only [htype]
    exact hsettles fuel (by omega)
  | arrayBegin =>
    have hlt := hless (by rw [htype]; decide)
    have hspaces : skipSpaces r₁.current <:+ r₁.current := List.dropWhile_suffix _
    by_cases hempty : (skipSpaces r₁.current).head? = some ']'.toUInt8
    · have hanswers : Answers r true (readToken ⟨skipSpaces r₁.current, r₁.errors⟩).2 := by
        have hsuffix := readToken_suffix ⟨skipSpaces r₁.current, r₁.errors⟩
        exact answers_ok ((hsuffix.2.trans hsuffix.1).trans (hspaces.trans hrest)) herrors
      refine ⟨true, .array [], _, hsucc fun fuel hfuel => ?_, hanswers⟩
      rw [readValue, hread fuel hfuel]
      simp only [htype, if_pos hempty]
    · obtain ⟨ok, v, r', hsettles, hanswers⟩ := (ih _ hlt).elements r₁ rfl []
      refine ⟨ok, v, r', hsucc fun fuel hfuel => ?_, hanswers.before hrest herrors⟩
      rw [readValue, hread fuel hfuel]
      simp only [htype, if_neg hempty, readArray_skipSpaces]
      exact hsettles fuel (by omega)
  | number =>
    cases hdecoded : decodeNumber D token.text with
    | error message =>
      refine ⟨false, current, _, hsucc fun fuel hfuel => ?_, hfail (message, none) (by rintro _ ⟨⟩)⟩
      rw [readValue, hread fuel hfuel]
      simp only [htype, hdecoded]
    | ok v =>
      refine ⟨true, v, r₁, hsucc fun fuel hfuel => ?_, answers_ok hrest herrors⟩
      rw [readValue, hread fuel hfuel]
      simp only [htype, hdecoded]
  | string =>
    obtain ⟨g, -, htokenAt⟩ := hat (by rw [htype]; decide) (by rw [htype]; decide)
    cases hdecoded : decodeString (closing token) (quoted token) with
    | error complaint =>
      have hplace := fun l hl => (decodeString_error hdecoded l hl).trans
        ((quoted_suffix htokenAt htype).trans hstart.1)
      refine ⟨false, current, _, hsucc fun fuel hfuel => ?_, hfail complaint hplace⟩
      rw [readValue, hread fuel hfuel]
      simp only [htype, hdecoded]
    | ok decoded =>
      refine ⟨true, .string (cstr decoded), r₁, hsucc fun fuel hfuel => ?_, answers_ok hrest herrors⟩
      rw [readValue, hread fuel hfuel]
      simp only [htype, hdecoded]
  | true =>
    refine ⟨true, .boolean true, r₁, hsucc fun fuel hfuel => ?_, answers_ok hrest herrors⟩
    rw [readValue, hread fuel hfuel]
    simp only [htype]
  | false =>
    refine ⟨true, .boolean false, r₁, hsucc fun fuel hfuel => ?_, answers_ok hrest herrors⟩
    rw [readValue, hread fuel hfuel]
    simp only [htype]
  | null =>
    refine ⟨true, .null, r₁, hsucc fun fuel hfuel => ?_, answers_ok hrest herrors⟩
    rw [readValue, hread fuel hfuel]
    simp only [htype]
  | _ =>
    refine ⟨false, current, _, hsucc fun fuel hfuel => ?_,
      hfail (text "Syntax error: value, object or array expected.", none) (by rintro _ ⟨⟩)⟩
    rw [readValue, hread fuel hfuel]
    simp only [htype]

theorem failed_recovers {r₁ : Reader} {complaint : Complaint} {token : Token} (type : TokenType)
    (hanswers : Answers r false (r₁.addError complaint token)) :
    ∃ r', Settles (fun fuel => (r₁.addError complaint token).recoverFromError fuel type)
      r.current.length r' ∧
      Answers r false r' := by
  obtain ⟨r', hsettles, hrest, herrors⟩ := recoverFromError_settles type (r₁.addError complaint token)
  exact ⟨r', hsettles.mono hanswers.rest.length_le, hanswers.recovered hrest herrors⟩

theorem returns_elements (hvalue : ∀ current, ∃ ok v r',
      Settles (fun fuel => readValue D fuel current r) (2 * r.current.length + 1) (ok, v, r') ∧
        Answers r ok r')
    (ih : ∀ m < r.current.length, Returns D m) (before : List (Value D.Double)) : ∃ ok v r',
    Settles (fun fuel => readArray D fuel before r) (2 * r.current.length + 2) (ok, v, r') ∧
      Answers r ok r' := by
  obtain ⟨ok, v, r₁, hread, hanswers⟩ := hvalue .null
  have hsucc : ∀ {x}, (∀ fuel, 2 * r.current.length + 1 < fuel →
    (readArray D (fuel + 1) before r = some x)) →
      Settles (fun fuel => readArray D fuel before r) (2 * r.current.length + 2) x := by
    intro x hx fuel hlt
    obtain ⟨fuel, rfl⟩ := Nat.exists_eq_add_one_of_ne_zero (Nat.ne_zero_of_lt hlt)
    exact hx fuel (by omega)
  have hread (fuel : Nat) (hlt : 2 * r.current.length + 1 < fuel) :
    readValue D fuel .null r = some (ok, v, r₁) :=
    hread fuel hlt
  have hle := hanswers.rest.length_le
  cases ok with
  | false =>
    obtain ⟨r₂, hrecover, hrest, herrors⟩ := recoverFromError_settles .arrayEnd r₁
    refine ⟨false, .array (before ++ [v]), r₂, hsucc fun fuel hfuel => ?_,
      hanswers.recovered hrest herrors⟩
    rw [readArray, hread fuel hfuel]
    exact congrArg (Option.map _) (hrecover fuel (by omega))
  | true =>
    obtain ⟨-, herrors⟩ | ⟨hfalse, -⟩ := hanswers.errors
    · obtain ⟨hstart, hrest⟩ := readToken_suffix r₁
      have hrest := hrest.trans (hstart.trans hanswers.rest)
      by_cases hend : r₁.readToken.1.type = .arrayEnd
      · refine ⟨true, .array (before ++ [v]), r₁.readToken.2, hsucc fun fuel hfuel => ?_,
          answers_ok hrest herrors⟩
        rw [readArray, hread fuel hfuel]
        simp [hend]
      · by_cases hsep : r₁.readToken.1.type = .arraySeparator
        · have hlt := readToken_length (r := r₁) (by rw [hsep]; decide)
          obtain ⟨ok, w, r', hsettles, hnext⟩ :=
            (ih _ (Nat.lt_of_lt_of_le hlt hle)).elements r₁.readToken.2 rfl (before ++ [v])
          refine ⟨ok, w, r', hsucc fun fuel hfuel => ?_, hnext.before hrest herrors⟩
          rw [readArray, hread fuel hfuel]
          simp only [hsep]
          exact hsettles fuel (by omega)
        · have hfailed : Answers r false (r₁.readToken.2.addError
              (text "Missing ',' or ']' in array declaration", none) r₁.readToken.1) :=
            answers_addError hrest herrors ((readToken_inside r₁).mono hanswers.rest) (by rintro _ ⟨⟩)
          obtain ⟨r₂, hrecover, hanswers⟩ := failed_recovers .arrayEnd hfailed
          refine ⟨false, .array (before ++ [v]), r₂, hsucc fun fuel hfuel => ?_, hanswers⟩
          rw [readArray, hread fuel hfuel]
          simp only [hend, hsep]
          exact congrArg (Option.map _) (hrecover fuel (by omega))
    · cases hfalse

theorem returns_afterMember {r₁ : Reader} (ih : ∀ m < r.current.length, Returns D m)
    (hle : r₁.current <:+ r.current)
    (herrors : r₁.errors = r.errors) (name : Text) (ms : List (Text × Value D.Double)) : ∃ ok v r',
    Settles (fun fuel => afterMember D fuel name ms r₁) (2 * r.current.length) (ok, v, r') ∧
      Answers r ok r' := by
  obtain ⟨hstart, hrest⟩ := readToken_suffix r₁
  have hrest := hrest.trans (hstart.trans hle)
  by_cases hend : r₁.readToken.1.type = .objectEnd
  · refine ⟨true, .object ms, r₁.readToken.2, fun fuel _ => ?_, answers_ok hrest herrors⟩
    simp [afterMember, hend]
  · by_cases hsep : r₁.readToken.1.type = .arraySeparator
    · have hlt := Nat.lt_of_lt_of_le (readToken_length (r := r₁) (by rw [hsep]; decide)) hle.length_le
      obtain ⟨ok, w, r', hsettles, hnext⟩ := (ih _ hlt).members r₁.readToken.2 rfl name ms
      refine ⟨ok, w, r', fun fuel hfuel => ?_, hnext.before hrest herrors⟩
      simp only [afterMember, hsep]
      exact hsettles fuel (by omega)
    · have hfailed : Answers r false (r₁.readToken.2.addError
          (text "Missing ',' or '\x7d' in object declaration", none) r₁.readToken.1) :=
        answers_addError hrest herrors ((readToken_inside r₁).mono hle) (by rintro _ ⟨⟩)
      obtain ⟨r₂, hrecover, hanswers⟩ := failed_recovers .objectEnd hfailed
      refine ⟨false, .object ms, r₂, fun fuel hfuel => ?_, hanswers⟩
      simp only [afterMember, hend, hsep]
      exact congrArg (Option.map _) (hrecover fuel (by omega))

theorem returns_members (ih : ∀ m < r.current.length, Returns D m) (last : Text)
    (ms : List (Text × Value D.Double)) :
    ∃ ok v r', Settles (fun fuel => readObject D fuel last ms r) (2 * r.current.length + 2)
      (ok, v, r') ∧ Answers r ok r' := by
  obtain ⟨tokenName, r₁, hskip, hstart, hrest, herrors, hless⟩ :=
    readUntil_settles (fun type => decide (type ≠ .comment)) (by decide) r
  have hsucc : ∀ {x}, (∀ fuel, 2 * r.current.length + 1 < fuel →
    (readObject D (fuel + 1) last ms r = some x)) →
      Settles (fun fuel => readObject D fuel last ms r) (2 * r.current.length + 2) x := by
    intro x hx fuel hlt
    obtain ⟨fuel, rfl⟩ := Nat.exists_eq_add_one_of_ne_zero (Nat.ne_zero_of_lt hlt)
    exact hx fuel (by omega)
  have hat (hend : tokenName.type ≠ .endOfStream) (herror : tokenName.type ≠ .error) :=
    gap_of_skipCommentTokens (hskip (r.current.length + 1) (Nat.lt_succ_self _)) hend herror
  have hread (fuel : Nat) (hlt : 2 * r.current.length + 1 < fuel) :
    skipCommentTokens fuel r = some (tokenName, r₁) :=
    hskip fuel (by omega)
  by_cases hclose : tokenName.type = .objectEnd ∧ last = []
  · refine ⟨true, .object ms, r₁, hsucc fun fuel hfuel => ?_, answers_ok hrest herrors⟩
    rw [readObject, hread fuel hfuel]
    exact if_pos hclose
  by_cases hstring : tokenName.type = .string
  · obtain ⟨g, -, htokenAt⟩ := hat (by rw [hstring]; decide) (by rw [hstring]; decide)
    have hlt := hless (by rw [hstring]; decide)
    cases hdecoded : decodeString (closing tokenName) (quoted tokenName) with
    | error complaint =>
      have hplace := fun l hl => (decodeString_error hdecoded l hl).trans
        ((quoted_suffix htokenAt hstring).trans hstart.1)
      obtain ⟨r₂, hrecover, hanswers⟩ :=
        failed_recovers .objectEnd (answers_addError hrest herrors hstart hplace)
      refine ⟨false, .object ms, r₂, hsucc fun fuel hfuel => ?_, hanswers⟩
      rw [readObject, hread fuel hfuel]
      simp only [hstring, hdecoded]
      exact congrArg (Option.map _) (hrecover fuel (by omega))
    | ok name =>
      obtain ⟨hstart₁, hrest₁⟩ := readToken_suffix r₁
      have hrest₁ := hrest₁.trans (hstart₁.trans hrest)
      by_cases hcolon : r₁.readToken.1.type = .memberSeparator
      · have hlt₁ := (readToken_length (r := r₁) (by rw [hcolon]; decide)).trans hlt
        obtain ⟨ok, w, r₂, hvalue, hanswers⟩ :=
          (ih _ hlt₁).value r₁.readToken.2 rfl (Reader.member D ms (cstr name))
        have hanswers := hanswers.before hrest₁ herrors
        cases ok with
        | false =>
          obtain ⟨r₃, hrecover, hrest₂, herrors₂⟩ := recoverFromError_settles .objectEnd r₂
          refine ⟨false, .object (SortedMap.assign ms (cstr name) w), r₃, hsucc fun fuel hfuel => ?_,
            hanswers.recovered hrest₂ herrors₂⟩
          have hrecover := hrecover fuel (Nat.lt_of_le_of_lt hanswers.rest.length_le (by omega))
          have hvalue : readValue D fuel _ r₁.readToken.2 = _ := hvalue fuel (by omega)
          rw [readObject, hread fuel hfuel]
          simp only [hstring, hdecoded, hcolon, hvalue]
          exact congrArg (Option.map _) hrecover
        | true =>
          obtain ⟨-, herrors₂⟩ | ⟨hfalse, -⟩ := hanswers.errors
          · obtain ⟨ok, v, r', hsettles, hlast⟩ :=
              returns_afterMember ih hanswers.rest herrors₂ name (SortedMap.assign ms (cstr name) w)
            refine ⟨ok, v, r', hsucc fun fuel hfuel => ?_, hlast⟩
            have hvalue : readValue D fuel _ r₁.readToken.2 = _ := hvalue fuel (by omega)
            rw [readObject, hread fuel hfuel]
            simp only [hstring, hdecoded, hcolon, hvalue]
            exact hsettles fuel (by omega)
          · cases hfalse
      · have hfailed : Answers r false (r₁.readToken.2.addError
            (text "Missing ':' after object member name", none) r₁.readToken.1) :=
          answers_addError hrest₁ herrors ((readToken_inside r₁).mono hrest) (by rintro _ ⟨⟩)
        obtain ⟨r₂, hrecover, hanswers⟩ := failed_recovers .objectEnd hfailed
        refine ⟨false, .object ms, r₂, hsucc fun fuel hfuel => ?_, hanswers⟩
        rw [readObject, hread fuel hfuel]
        dsimp only
        rw [if_neg hclose, if_neg (not_not.mpr hstring), hdecoded]
        dsimp only
        rw [if_pos hcolon]
        exact congrArg (Option.map _) (hrecover fuel (by omega))
  · have hfailed : Answers r false (r₁.addError (text "Missing '\x7d' or object member name",
      none) tokenName) :=
      answers_addError hrest herrors hstart (by rintro _ ⟨⟩)
    obtain ⟨r₂, hrecover, hanswers⟩ := failed_recovers .objectEnd hfailed
    refine ⟨false, .object ms, r₂, hsucc fun fuel hfuel => ?_, hanswers⟩
    rw [readObject, hread fuel hfuel]
    dsimp only
    rw [if_neg hclose, if_pos hstring]
    exact congrArg (Option.map _) (hrecover fuel (by omega))

theorem returns (n : Nat) : Returns D n := by
  induction n using Nat.strong_induction_on with
  | _ n ih =>
    have hvalue : ∀ r : Reader, r.current.length = n → ∀ current, ∃ ok v r',
        Settles (fun fuel => readValue D fuel current r) (2 * n + 1) (ok, v, r') ∧ Answers r ok r' := by
      rintro r rfl current
      exact returns_value ih current
    refine ⟨hvalue, ?_, ?_⟩
    · rintro r rfl before
      exact returns_elements (hvalue r rfl) ih before
    · rintro r rfl last ms
      exact returns_members ih last ms

end answers

section parse

theorem settles_of_readValue {document : Text} {root v : Value D.Double} {ok : Bool} {r : Reader}
    (hvalue : Settles (fun fuel => readValue D fuel root ⟨document, []⟩)
      (2 * document.length + 1) (ok, v, r))
    (hle : r.current.length ≤ document.length) :
    Settles (fun fuel => parse D fuel document root) (2 * document.length + 1) (ok, v, r.errors) := by
  obtain ⟨token, r', hskip, -⟩ := readUntil_settles (fun type => decide (type ≠ .comment)) (by decide) r
  intro fuel hfuel
  have hvalue : readValue D fuel root ⟨document, []⟩ = some (ok, v, r) := hvalue fuel hfuel
  have hskip : skipCommentTokens fuel r = some (token, r') := hskip fuel (by omega)
  simp only [parse, hvalue, hskip, Option.map_some]

theorem parse_of_spells {t rest : Text} {v : Value D.Double} (ht : Spells D (.value v) t)
    (hends : v.Ends rest)
    (root : Value D.Double) :
    Settles (fun fuel => parse D fuel (t ++ rest) root) (2 * (t ++ rest).length + 1) (true, v, []) := by
  refine settles_of_readValue (r := ⟨rest, []⟩) ?_ ?_
  · intro fuel hfuel
    obtain ⟨fuel, rfl⟩ := Nat.exists_eq_add_one_of_ne_zero (Nat.ne_zero_of_lt hfuel)
    simp only [List.length_append] at hfuel
    exact reads_of_spells ht hends [] (by omega) root
  · simp

theorem spells_of_parse {document : Text} {root v : Value D.Double} {fuel : Nat}
    {errors : List ErrorInfo}
    (h : parse D fuel document root = some (true, v, errors)) :
    ∃ t rest, document = t ++ rest ∧ Spells D (.value v) t ∧ v.Ends rest := by
  unfold parse at h
  split at h
  · cases h
  · next ok w r hvalue =>
    obtain ⟨-, -, heq⟩ := Option.map_eq_some_iff.mp h
    obtain ⟨hok, heq⟩ := Prod.mk.inj heq
    obtain ⟨rfl, -⟩ := Prod.mk.inj heq
    subst hok
    obtain ⟨t, ht, hcurrent, -, hends⟩ := (sound _).value hvalue
    exact ⟨t, r.current, hcurrent, ht, hends⟩

/-- Reading a document comes to an end, with a result that does not depend on the fuel. It
fails with one error, about a place of the document. -/
theorem parse_settles (document : Text) (root : Value D.Double) : ∃ ok v errors,
    Settles (fun fuel => parse D fuel document root) (2 * document.length + 1) (ok, v, errors) ∧
      (ok = true ∧ errors = [] ∨ ok = false ∧ ∃ e, errors = [e] ∧ e.Inside document) := by
  obtain ⟨ok, v, r, hvalue, hanswers⟩ := (returns (D := D) document.length).value ⟨document, []⟩ rfl root
  exact ⟨ok, v, r.errors, settles_of_readValue hvalue hanswers.rest.length_le, hanswers.errors⟩

/-- The documents that are accepted, and the values that they give. What follows the value
is not looked at. -/
theorem parse_iff (document : Text) (root v : Value D.Double) :
    Settles (fun fuel => parse D fuel document root) (2 * document.length + 1) (true, v, []) ↔
      ∃ t rest, document = t ++ rest ∧ Spells D (.value v) t ∧ v.Ends rest := by
  constructor
  · exact fun h => spells_of_parse (h (2 * document.length + 2) (Nat.lt_succ_self _))
  · rintro ⟨t, rest, rfl, ht, hends⟩
    exact parse_of_spells ht hends root

end parse

end Sstoraged.JsonText
