import Mathlib.Data.List.DropRight
import Sstoraged.JsonGrammar

namespace Sstoraged.JsonText

open Reader
open ConfigBinder (cstr)

variable {D : Doubles}

section spelled

/-- What the reader does behind a member. -/
def afterMember (D : Doubles) (fuel : Nat) (name : Text) (ms : List (Text × Value D.Double))
    (r : Reader) :
    Option (Bool × Value D.Double × Reader) :=
  let (comma, r) := r.readToken
  if comma.type = .objectEnd then some (true, .object ms, r)
  else if comma.type = .arraySeparator then readObject D fuel name ms r
  else (r.addErrorAndRecover fuel "Missing ',' or '\x7d' in object declaration" comma
    .objectEnd).map (false, .object ms, ·)

/-- The reader reads a phrase in front of a rest. -/
def Phrase.Reads (D : Doubles) (fuel : Nat) (r r' : Reader) : Phrase D.Double → Prop
  | .value v => ∀ current, readValue D fuel current r = some (true, v, r')
  | .elements vs => ∀ before, readArray D fuel before r = some (true, .array (before ++ vs), r')
  | .member name v => ∀ fuel', fuel = fuel' + 1 → ∀ last ms,
      readObject D fuel last ms r = afterMember D fuel' name (SortedMap.assign ms (cstr name) v) r'
  | .members last ms ms' => readObject D fuel last ms r = some (true, .object ms', r')

def Phrase.Ends {R : Type} (rest : Text) : Phrase R → Prop
  | .value v | .member _ v => v.Ends rest
  | _ => True

theorem Value.ends_of_endsNumber {R : Type} {rest : Text} (h : EndsNumber rest) (v : Value R) :
    v.Ends rest := by
  cases v <;> first | exact h | exact trivial

theorem readToken_skipSpaces (t : Text) (errors : List ErrorInfo) :
    readToken ⟨skipSpaces t, errors⟩ = readToken ⟨t, errors⟩ := by
  simp only [readToken, skipSpaces, List.dropWhile_idempotent isSpace t]

theorem readValue_skipSpaces (fuel : Nat) (current : Value D.Double) (t : Text)
    (errors : List ErrorInfo) :
    readValue D fuel current ⟨skipSpaces t, errors⟩ = readValue D fuel current ⟨t, errors⟩ := by
  cases fuel with
  | zero => rfl
  | succ fuel =>
    have hskip : skipCommentTokens fuel ⟨skipSpaces t, errors⟩ = skipCommentTokens fuel ⟨t, errors⟩ := by
      cases fuel with
      | zero => rfl
      | succ fuel =>
        rw [skipCommentTokens, readUntil, readToken_skipSpaces, skipCommentTokens, readUntil]
    rw [readValue, hskip, readValue]

theorem readArray_skipSpaces (fuel : Nat) (before : List (Value D.Double)) (t : Text)
    (errors : List ErrorInfo) :
    readArray D fuel before ⟨skipSpaces t, errors⟩ = readArray D fuel before ⟨t, errors⟩ := by
  cases fuel with
  | zero => rfl
  | succ fuel => rw [readArray, readValue_skipSpaces, readArray]

theorem endsNumber_of_decodeDouble {t rest : Text} {v : Value D.Double} (h : decodeDouble D t = .ok v)
    (hends : v.Ends rest) : EndsNumber rest := by
  unfold decodeDouble at h
  split at h
  · rwa [← Except.ok.inj h] at hends
  · cases h

theorem endsNumber_of_ends {t rest : Text} {v : Value D.Double} (h : decodeNumber D t = .ok v)
    (hends : v.Ends rest) :
    EndsNumber rest := by
  unfold decodeNumber at h
  split at h
  · exact endsNumber_of_decodeDouble h hends
  · dsimp only at h
    split at h
    · cases h
    · exact endsNumber_of_decodeDouble h hends
    · split at h
      · rwa [← Except.ok.inj h] at hends
      · split at h <;> rwa [← Except.ok.inj h] at hends

theorem exists_first {g token : Text} {type : TokenType} (hg : Gap g)
    (h : Spelling type token) (t : Text) :
    ∃ b type' token' t', Blank b ∧ Spelling type' token' ∧ (type' = .comment ∨ type' = type) ∧
      g ++ (token ++ t) = b ++ (token' ++ t') := by
  cases hg with
  | blank hb => exact ⟨_, type, token, t, hb, h, .inr rfl, rfl⟩
  | @comment b c g hb hc hg =>
    exact ⟨b, .comment, c, g ++ (token ++ t), hb, .comment hc, .inl rfl, by simp⟩

theorem first_of_value {v : Value D.Double} {t : Text} (h : Spells D (.value v) t) :
    ∃ b type token t', Blank b ∧ Spelling type token ∧ type ≠ .arrayEnd ∧ t = b ++ (token ++ t') := by
  have hfirst : ∃ g type token t', Gap g ∧ Spelling type token ∧ type ≠ .arrayEnd ∧
      t = g ++ (token ++ t') := by
    cases h with
    | null hg => exact ⟨_, _, _, [], hg, .null, by decide, by simp⟩
    | true hg => exact ⟨_, _, _, [], hg, .true, by decide, by simp⟩
    | false hg => exact ⟨_, _, _, [], hg, .false, by decide, by simp⟩
    | number hg ht hv => exact ⟨_, _, _, [], hg, ht, by decide, by simp⟩
    | string hg hc hd => exact ⟨_, _, _, [], hg, .string hc, by decide, by simp⟩
    | empty hg hb => exact ⟨_, _, _, _, hg, .arrayBegin, by decide, rfl⟩
    | array hg h => exact ⟨_, _, _, _, hg, .arrayBegin, by decide, rfl⟩
    | object hg h => exact ⟨_, _, _, _, hg, .objectBegin, by decide, rfl⟩
  obtain ⟨g, type, token, t', hg, htoken, hne, rfl⟩ := hfirst
  obtain ⟨b, type', token', t'', hb, htoken', hor, heq⟩ := exists_first hg htoken t'
  refine ⟨b, type', token', t'', hb, htoken', ?_, heq⟩
  obtain rfl | rfl := hor
  · decide
  · exact hne

theorem head_elements {vs : List (Value D.Double)} {t : Text} (h : Spells D (.elements vs) t)
    (rest : Text) :
    (skipSpaces (t ++ rest)).head? ≠ some ']'.toUInt8 := by
  have hfirst : ∃ v t' t'', Spells D (.value v) t' ∧ t = t' ++ t'' := by
    cases h with
    | last h hb => exact ⟨_, _, _, h, rfl⟩
    | next h hb h' => exact ⟨_, _, _, h, rfl⟩
  obtain ⟨v, t', t'', hv, rfl⟩ := hfirst
  obtain ⟨b, type, token, t', hb, htoken, hne, rfl⟩ := first_of_value hv
  rw [List.append_assoc, List.append_assoc, skipSpaces_append hb, List.append_assoc,
    skipSpaces_spelling htoken]
  obtain ⟨c, token, rfl, -, hc⟩ := spelling_begins htoken
  exact fun hhead => hne (hc (Option.some.inj hhead))

theorem inNumber_of_isSpace {c : UInt8} (h : isSpace c = true) : inNumber c = false := by
  unfold isSpace at h
  split at h
  case h_5 => cases h
  all_goals
    obtain rfl := eq_of_ofUInt8 ‹_›
    rfl

theorem endsNumber_bracket {b : Text} (hb : Blank b) {c : UInt8} (hc : inNumber c = false)
    (rest : Text) :
    EndsNumber (b ++ c :: rest) := by
  intro d hd
  cases b with
  | nil => rwa [← Option.some.inj hd]
  | cons e b =>
    obtain rfl := Option.some.inj hd
    exact inNumber_of_isSpace (hb e List.mem_cons_self)

theorem reads_of_spells {p : Phrase D.Double} {t : Text} (h : Spells D p t) {rest : Text}
    (hrest : p.Ends rest)
    (errors : List ErrorInfo) {fuel : Nat} (hfuel : 2 * t.length < fuel) :
    p.Reads D (fuel + 1) ⟨t ++ rest, errors⟩ ⟨rest, errors⟩ := by
  induction h generalizing fuel rest with
  | @null g hg =>
    rw [List.length_append] at hfuel
    intro current
    rw [readValue, List.append_assoc, skipCommentTokens_append hg .null (by decide)
      (fun h => by cases h) (by omega)]
  | @true g hg =>
    rw [List.length_append] at hfuel
    intro current
    rw [readValue, List.append_assoc, skipCommentTokens_append hg .true (by decide)
      (fun h => by cases h) (by omega)]
  | @false g hg =>
    rw [List.length_append] at hfuel
    intro current
    rw [readValue, List.append_assoc, skipCommentTokens_append hg .false (by decide)
      (fun h => by cases h) (by omega)]
  | @number g t v hg ht hv =>
    rw [List.length_append] at hfuel
    intro current
    rw [readValue, List.append_assoc, skipCommentTokens_append hg ht (by decide)
      (fun _ => endsNumber_of_ends hv hrest)
      (by omega)]
    simp only [text_token, hv]
  | @string g content decoded hg hc hd =>
    rw [List.length_append] at hfuel
    intro current
    rw [readValue, List.append_assoc, skipCommentTokens_append hg (.string hc) (by decide)
      (fun h => by cases h) (by omega)]
    simp only [quoted_token, decodeString_ok hd]
  | @empty g b hg hb =>
    rw [List.length_append] at hfuel
    intro current
    have happ : (g ++ '['.toUInt8 :: (b ++ [']'.toUInt8])) ++ rest =
        g ++ (['['.toUInt8] ++ (b ++ ([']'.toUInt8] ++ rest))) := by simp
    rw [readValue, happ, skipCommentTokens_append hg .arrayBegin (by decide)
      (fun h => by cases h) (by omega)]
    simp only [skipSpaces_append hb, skipSpaces_spelling .arrayEnd]
    rfl
  | @array g t vs hg h ih =>
    rw [List.length_append, List.length_cons] at hfuel
    obtain ⟨fuel, rfl⟩ := Nat.exists_eq_add_one_of_ne_zero (Nat.ne_zero_of_lt hfuel)
    intro current
    have happ : (g ++ '['.toUInt8 :: t) ++ rest = g ++ (['['.toUInt8] ++ (t ++ rest)) := by simp
    rw [readValue, happ, skipCommentTokens_append hg .arrayBegin (by decide)
      (fun h => by cases h) (by omega)]
    simp only [if_neg (head_elements h rest), readArray_skipSpaces]
    exact ih trivial (by omega) []
  | @object g t ms hg h ih =>
    rw [List.length_append, List.length_cons] at hfuel
    obtain ⟨fuel, rfl⟩ := Nat.exists_eq_add_one_of_ne_zero (Nat.ne_zero_of_lt hfuel)
    intro current
    have happ : (g ++ '{'.toUInt8 :: t) ++ rest = g ++ (['{'.toUInt8] ++ (t ++ rest)) := by simp
    rw [readValue, happ, skipCommentTokens_append hg .objectBegin (by decide)
      (fun h => by cases h) (by omega)]
    exact ih trivial (by omega)
  | @last t b v h hb ih =>
    rw [List.length_append, List.length_append, List.length_singleton] at hfuel
    obtain ⟨fuel, rfl⟩ := Nat.exists_eq_add_one_of_ne_zero (Nat.ne_zero_of_lt hfuel)
    intro before
    have happ : (t ++ (b ++ [']'.toUInt8])) ++ rest = t ++ (b ++ ([']'.toUInt8] ++ rest)) := by simp
    have hends : v.Ends (b ++ ([']'.toUInt8] ++ rest)) :=
      v.ends_of_endsNumber (endsNumber_bracket hb rfl rest)
    have hbracket : readToken ⟨b ++ ([']'.toUInt8] ++ rest), errors⟩ =
      (⟨.arrayEnd, _, _⟩, ⟨rest, errors⟩) :=
      readToken_append hb .arrayEnd (fun h => by cases h)
    rw [readArray, happ, ih hends (by omega) .null]
    simp only [hbracket]
    rfl
  | @next t b t' v vs h hb h' ih ih' =>
    rw [List.length_append, List.length_append, List.length_cons] at hfuel
    obtain ⟨fuel, rfl⟩ := Nat.exists_eq_add_one_of_ne_zero (Nat.ne_zero_of_lt hfuel)
    intro before
    have happ : (t ++ (b ++ ','.toUInt8 :: t')) ++ rest = t ++
        (b ++ ([','.toUInt8] ++ (t' ++ rest))) := by simp
    have hends : v.Ends (b ++ ([','.toUInt8] ++ (t' ++ rest))) :=
      v.ends_of_endsNumber (endsNumber_bracket hb rfl _)
    have hcomma : readToken ⟨b ++ ([','.toUInt8] ++ (t' ++ rest)), errors⟩ =
        (⟨.arraySeparator, _, _⟩, ⟨t' ++ rest, errors⟩) :=
          readToken_append hb .arraySeparator (fun h => by cases h)
    have hnext : readArray D (fuel + 1) (before ++ [v]) ⟨t' ++ rest, errors⟩ =
        some (true, .array (before ++ [v] ++ vs), ⟨rest, errors⟩) :=
          ih' trivial (by omega) (before ++ [v])
    rw [readArray, happ, ih hends (by omega) .null]
    simp only [hcomma]
    rwa [List.append_assoc, List.singleton_append] at hnext
  | @member g content name b t v hg hc hd hb h ih =>
    simp only [List.length_append, List.length_cons] at hfuel
    intro fuel' hfuel' last ms
    obtain rfl := Nat.succ.inj hfuel'
    obtain ⟨fuel, rfl⟩ := Nat.exists_eq_add_one_of_ne_zero (Nat.ne_zero_of_lt hfuel)
    have happ : (g ++ '"'.toUInt8 :: (content ++ '"'.toUInt8 :: (b ++ ':'.toUInt8 :: t))) ++ rest =
        g ++ (('"'.toUInt8 :: (content ++ ['"'.toUInt8])) ++
          (b ++ ([':'.toUInt8] ++ (t ++ rest)))) := by simp
    rw [readObject, happ, skipCommentTokens_append hg (.string hc) (by decide)
      (fun h => by cases h) (by omega)]
    have hcolon : readToken ⟨b ++ ([':'.toUInt8] ++ (t ++ rest)), errors⟩ =
        (⟨.memberSeparator, _, _⟩, ⟨t ++ rest, errors⟩) :=
          readToken_append hb .memberSeparator (fun h => by cases h)
    have hvalue : ∀ current, readValue D (fuel + 1) current ⟨t ++ rest, errors⟩ =
      some (true, v, ⟨rest, errors⟩) :=
      ih hrest (by omega)
    simp only [quoted_token, decodeString_ok hd, hcolon, hvalue]
    rfl
  | @close g ms hg =>
    rw [List.length_append] at hfuel
    change readObject D (fuel + 1) [] ms ⟨(g ++ ['}'.toUInt8]) ++ rest, errors⟩ =
      some (true, .object ms, ⟨rest, errors⟩)
    rw [readObject, List.append_assoc, skipCommentTokens_append hg .objectEnd (by decide)
      (fun h => by cases h) (by omega)]
    rfl
  | @lastMember name name' t b v ms h hb ih =>
    rw [List.length_append, List.length_append, List.length_singleton] at hfuel
    have happ : (t ++ (b ++ ['}'.toUInt8])) ++ rest = t ++ (b ++ (['}'.toUInt8] ++ rest)) := by simp
    have hends : v.Ends (b ++ (['}'.toUInt8] ++ rest)) :=
      v.ends_of_endsNumber (endsNumber_bracket hb rfl rest)
    have hmember := ih hends (by omega) fuel rfl name ms
    rw [← happ, afterMember, readToken_append hb .objectEnd (fun h => by cases h)] at hmember
    exact hmember
  | @nextMember name name' t b t' v ms ms' h hb h' ih ih' =>
    rw [List.length_append, List.length_append, List.length_cons] at hfuel
    obtain ⟨fuel, rfl⟩ := Nat.exists_eq_add_one_of_ne_zero (Nat.ne_zero_of_lt hfuel)
    have happ : (t ++ (b ++ ','.toUInt8 :: t')) ++ rest = t ++
        (b ++ ([','.toUInt8] ++ (t' ++ rest))) := by simp
    have hends : v.Ends (b ++ ([','.toUInt8] ++ (t' ++ rest))) :=
      v.ends_of_endsNumber (endsNumber_bracket hb rfl _)
    have hmember := ih hends (by omega) (fuel + 1) rfl name ms
    rw [← happ, afterMember, readToken_append hb .arraySeparator (fun h => by cases h)] at hmember
    exact hmember.trans (ih' trivial (by omega))

end spelled

section read

/-- A token that was read behind a text. -/
def TokenAt (g : Text) (token : Token) (r r' : Reader) : Prop :=
  ∃ t, Spelling token.type t ∧ r.current = g ++ (t ++ r'.current) ∧
    token = ⟨token.type, t ++ r'.current, r'.current⟩ ∧ r'.errors = r.errors ∧
    (token.type = .number → EndsNumber r'.current)

variable {r r' : Reader} {token : Token} {fuel : Nat}

theorem tokenAt_of_readToken (h : r.readToken = (token, r')) (hend : token.type ≠ .endOfStream)
    (herror : token.type ≠ .error) :
    (∃ b, Blank b ∧ TokenAt b token r r') ∨ token.type = .comment ∧ r'.current = [] := by
  obtain ⟨rfl, rfl⟩ := Prod.mk.inj h
  refine (scanned_of_scan rfl hend herror).imp_left fun ⟨t, ht, heq, hends⟩ => ?_
  obtain ⟨b, hb, hcurrent⟩ := exists_of_skipSpaces r.current
  exact ⟨b, hb, t, ht, by rw [← heq, ← hcurrent], by rw [← heq], rfl, hends⟩

theorem exists_tokenAt (h : r.readToken = (token, r')) (hend : token.type ≠ .endOfStream)
    (herror : token.type ≠ .error)
    (hcomment : token.type ≠ .comment) : ∃ b, Blank b ∧ TokenAt b token r r' :=
  (tokenAt_of_readToken h hend herror).resolve_right fun hcut => hcomment hcut.1

theorem readUntil_nil (stop : TokenType → Bool) (hstop : stop .endOfStream = true)
    {errors : List ErrorInfo}
    (h : readUntil stop fuel ⟨[], errors⟩ = some (token, r')) : token.type = .endOfStream := by
  cases fuel with
  | zero => cases h
  | succ fuel =>
    rw [readUntil] at h
    obtain ⟨rfl, -⟩ := Prod.mk.inj (Option.some.inj ((if_pos hstop).symm.trans h))
    rfl

theorem gap_of_skipCommentTokens (h : skipCommentTokens fuel r = some (token, r'))
    (hend : token.type ≠ .endOfStream)
    (herror : token.type ≠ .error) : ∃ g, Gap g ∧ TokenAt g token r r' := by
  induction fuel generalizing r with
  | zero => cases h
  | succ fuel ih =>
    unfold skipCommentTokens readUntil at h
    cases htoken : r.readToken with
    | mk first r₁ =>
    rw [htoken] at h
    dsimp only at h
    split at h
    · next hstop =>
      obtain ⟨rfl, rfl⟩ := Prod.mk.inj (Option.some.inj h)
      obtain ⟨b, hb, hat⟩ := exists_tokenAt htoken hend herror (of_decide_eq_true hstop)
      exact ⟨b, .blank hb, hat⟩
    · next hstop =>
      have hcomment : first.type = .comment := Decidable.not_not.mp (mt decide_eq_true hstop)
      have hfirst := tokenAt_of_readToken htoken (by rw [hcomment]; decide) (by rw [hcomment]; decide)
      obtain ⟨b, hb, t, ht, hcurrent, -, herrors, -⟩ | ⟨-, hnil⟩ := hfirst
      · obtain ⟨g, hg, t', ht', hcurrent', heq, herrors', hends⟩ := ih h
        rw [hcomment] at ht
        have hc : Comment t := by
          cases ht with
          | comment hc => exact hc
        refine ⟨b ++ (t ++ g), .comment hb hc hg, t', ht', ?_, heq, herrors'.trans herrors, hends⟩
        rw [hcurrent, hcurrent', List.append_assoc, List.append_assoc]
      · obtain ⟨current, errors⟩ := r₁
        obtain rfl : current = [] := hnil
        exact absurd (readUntil_nil _ (by decide) h) hend

theorem not_recovered {o : Option Reader} {w v : Value D.Double} :
    o.map (false, w, ·) ≠ some (true, v, r') := by
  cases o <;> exact fun h => by cases h

theorem exists_blank {type : TokenType} {c : UInt8} (h : r.readToken = (token, r'))
    (htype : token.type = type)
    (hc : ∀ t, Spelling type t → t = [c]) (hend : type ≠ .endOfStream) (herror : type ≠ .error)
    (hcomment : type ≠ .comment) :
    ∃ b, Blank b ∧ r.current = b ++ c :: r'.current ∧ r'.errors = r.errors := by
  subst htype
  obtain ⟨b, hb, t, ht, hcurrent, -, herrors, -⟩ := exists_tokenAt h hend herror hcomment
  obtain rfl := hc t ht
  exact ⟨b, hb, hcurrent, herrors⟩

variable (D) in
/-- What has been read without an error is a text of the grammar. -/
structure Sound (fuel : Nat) : Prop where
  value : ∀ {current v r r'}, readValue D fuel current r = some (true, v, r') →
    ∃ t, Spells D (.value v) t ∧ r.current = t ++ r'.current ∧ r'.errors = r.errors ∧ v.Ends r'.current
  elements : ∀ {before v r r'}, readArray D fuel before r = some (true, v, r') →
    ∃ vs t, v = .array (before ++ vs) ∧ Spells D (.elements vs) t ∧ r.current = t ++ r'.current ∧
      r'.errors = r.errors
  members : ∀ {last ms v r r'}, readObject D fuel last ms r = some (true, v, r') →
    ∃ ms' t, v = .object ms' ∧ Spells D (.members last ms ms') t ∧ r.current = t ++ r'.current ∧
      r'.errors = r.errors

theorem sound_elements (ih : Sound D fuel) {before : List (Value D.Double)} {v : Value D.Double}
    (h : readArray D (fuel + 1) before r = some (true, v, r')) : ∃ vs t, v = .array (before ++ vs) ∧
      Spells D (.elements vs) t ∧ r.current = t ++ r'.current ∧ r'.errors = r.errors := by
  rw [readArray] at h
  split at h
  · cases h
  · next ok v₁ r₁ hvalue =>
    dsimp only at h
    split at h
    · exact absurd h not_recovered
    · next hok =>
      obtain rfl : ok = true := Bool.not_eq_false ok ▸ hok
      obtain ⟨t, ht, hcurrent, herrors, -⟩ := ih.value hvalue
      cases htoken : r₁.readToken with
      | mk token r₂ =>
      rw [htoken] at h
      dsimp only at h
      split at h
      · next hend =>
        obtain ⟨b, hb, hcurrent₁, herrors₁⟩ :=
          exists_blank htoken hend (fun _ ht => by cases ht; rfl) (by decide)
          (by decide) (by decide)
        obtain ⟨-, heq⟩ := Prod.mk.inj (Option.some.inj h)
        obtain ⟨rfl, rfl⟩ := Prod.mk.inj heq
        refine ⟨[v₁], t ++ (b ++ [']'.toUInt8]), rfl, .last ht hb, ?_, herrors₁.trans herrors⟩
        simp [hcurrent, hcurrent₁]
      · split at h
        · next hsep =>
          obtain ⟨b, hb, hcurrent₁, herrors₁⟩ :=
            exists_blank htoken hsep (fun _ ht => by cases ht; rfl) (by decide)
            (by decide) (by decide)
          obtain ⟨vs, t', rfl, hvs, hcurrent₂, herrors₂⟩ := ih.elements h
          refine ⟨v₁ :: vs, t ++ (b ++ ','.toUInt8 :: t'), by simp, .next ht hb hvs, ?_, ?_⟩
          · simp [hcurrent, hcurrent₁, hcurrent₂]
          · exact herrors₂.trans (herrors₁.trans herrors)
        · exact absurd h not_recovered

theorem member_of_readObject (ih : Sound D fuel) {last : Text} {ms : List (Text × Value D.Double)}
    {v : Value D.Double}
    (h : readObject D (fuel + 1) last ms r = some (true, v, r')) :
    (last = [] ∧ v = .object ms ∧ ∃ g, Gap g ∧ r.current = g ++ '}'.toUInt8 :: r'.current ∧
      r'.errors = r.errors) ∨
      ∃ name w t r₁, Spells D (.member name w) t ∧ r.current = t ++ r₁.current ∧ r₁.errors = r.errors ∧
        afterMember D fuel name (SortedMap.assign ms (cstr name) w) r₁ = some (true, v, r') := by
  rw [readObject] at h
  split at h
  · cases h
  · next tokenName r₁ hname =>
    split at h
    · next hclose =>
      obtain ⟨hend, rfl⟩ := hclose
      obtain ⟨g, hg, t, ht, hcurrent, -, herrors, -⟩ :=
        gap_of_skipCommentTokens hname (by rw [hend]; decide)
        (by rw [hend]; decide)
      rw [hend] at ht
      cases ht
      obtain ⟨-, heq⟩ := Prod.mk.inj (Option.some.inj h)
      obtain ⟨rfl, rfl⟩ := Prod.mk.inj heq
      exact .inl ⟨rfl, rfl, g, hg, hcurrent, herrors⟩
    · split at h
      · exact absurd h not_recovered
      · next hstring =>
        have hstring : tokenName.type = .string := Decidable.not_not.mp hstring
        obtain ⟨g, hg, t, ht, hcurrent, htoken, herrors, -⟩ :=
          gap_of_skipCommentTokens hname (by rw [hstring]; decide)
          (by rw [hstring]; decide)
        rw [hstring] at ht
        cases ht with
        | @string content hc =>
        rw [htoken, quoted_token] at h
        split at h
        · exact absurd h not_recovered
        · next name hdecoded =>
          cases hcolon : r₁.readToken with
          | mk colon r₂ =>
          rw [hcolon] at h
          dsimp only at h
          split at h
          · exact absurd h not_recovered
          · next hsep =>
            obtain ⟨b, hb, hcurrent₁, herrors₁⟩ := exists_blank hcolon (Decidable.not_not.mp hsep)
              (fun _ ht => by cases ht; rfl) (by decide) (by decide) (by decide)
            split at h
            · cases h
            · next ok w r₃ hvalue =>
              split at h
              · exact absurd h not_recovered
              · next hok =>
                obtain rfl : ok = true := Bool.not_eq_false ok ▸ hok
                obtain ⟨t, ht, hcurrent₂, herrors₂, -⟩ := ih.value hvalue
                refine .inr ⟨name, w, _, r₃, .member hg hc (decodeString_ok hdecoded []) hb ht, ?_,
                  herrors₂.trans (herrors₁.trans herrors), h⟩
                simp [hcurrent, hcurrent₁, hcurrent₂]

theorem sound_members (ih : Sound D fuel) {last : Text} {ms : List (Text × Value D.Double)}
    {v : Value D.Double}
    (h : readObject D (fuel + 1) last ms r = some (true, v, r')) : ∃ ms' t, v = .object ms' ∧
      Spells D (.members last ms ms') t ∧ r.current = t ++ r'.current ∧ r'.errors = r.errors := by
  obtain ⟨rfl, rfl, g, hg, hcurrent, herrors⟩ | ⟨name, w, t, r₁, ht, hcurrent, herrors, h⟩ :=
    member_of_readObject ih h
  · exact ⟨ms, g ++ ['}'.toUInt8], rfl, .close hg, by simp [hcurrent], herrors⟩
  · cases hcomma : r₁.readToken with
    | mk comma r₂ =>
    rw [afterMember, hcomma] at h
    dsimp only at h
    split at h
    · next hend =>
      obtain ⟨b, hb, hcurrent₁, herrors₁⟩ :=
        exists_blank hcomma hend (fun _ ht => by cases ht; rfl) (by decide)
        (by decide) (by decide)
      obtain ⟨-, heq⟩ := Prod.mk.inj (Option.some.inj h)
      obtain ⟨rfl, rfl⟩ := Prod.mk.inj heq
      refine ⟨_, t ++ (b ++ ['}'.toUInt8]), rfl, .lastMember ht hb, ?_, herrors₁.trans herrors⟩
      simp [hcurrent, hcurrent₁]
    · split at h
      · next hsep =>
        obtain ⟨b, hb, hcurrent₁, herrors₁⟩ :=
          exists_blank hcomma hsep (fun _ ht => by cases ht; rfl) (by decide)
          (by decide) (by decide)
        obtain ⟨ms', t', rfl, hms, hcurrent₂, herrors₂⟩ := ih.members h
        refine ⟨ms', t ++ (b ++ ','.toUInt8 :: t'), rfl, .nextMember ht hb hms, ?_, ?_⟩
        · simp [hcurrent, hcurrent₁, hcurrent₂]
        · exact herrors₂.trans (herrors₁.trans herrors)
      · exact absurd h not_recovered

theorem sound_value (ih : Sound D fuel) {current v : Value D.Double}
    (h : readValue D (fuel + 1) current r = some (true, v, r')) :
    ∃ t, Spells D (.value v) t ∧ r.current = t ++ r'.current ∧ r'.errors = r.errors ∧
      v.Ends r'.current := by
  rw [readValue] at h
  split at h
  · cases h
  · next token r₁ htoken =>
    have hat (hend : token.type ≠ .endOfStream) (herror : token.type ≠ .error) :=
      gap_of_skipCommentTokens htoken hend herror
    cases htype : token.type <;> rw [htype] at h hat <;> dsimp only at h
    case objectBegin =>
      obtain ⟨g, hg, t, ht, hcurrent, -, herrors, -⟩ := hat (by decide) (by decide)
      rw [htype] at ht
      cases ht
      obtain ⟨ms, t, rfl, hms, hcurrent₁, herrors₁⟩ := ih.members h
      exact ⟨g ++ '{'.toUInt8 :: t, .object hg hms, by simp [hcurrent, hcurrent₁],
        herrors₁.trans herrors, trivial⟩
    case arrayBegin =>
      obtain ⟨g, hg, t, ht, hcurrent, -, herrors, -⟩ := hat (by decide) (by decide)
      rw [htype] at ht
      cases ht
      obtain ⟨b, hb, hskip⟩ := exists_of_skipSpaces r₁.current
      split at h
      · next hhead =>
        obtain ⟨rest, hrest⟩ := List.head?_eq_some_iff.mp hhead
        obtain ⟨-, heq⟩ := Prod.mk.inj (Option.some.inj h)
        obtain ⟨rfl, rfl⟩ := Prod.mk.inj heq
        rw [hrest] at hskip ⊢
        refine ⟨g ++ '['.toUInt8 :: (b ++ [']'.toUInt8]), .empty hg hb, ?_, herrors, trivial⟩
        rw [hcurrent, hskip]
        simp
        rfl
      · rw [readArray_skipSpaces] at h
        obtain ⟨vs, t, rfl, hvs, hcurrent₁, herrors₁⟩ := ih.elements h
        have hcurrent₁ : r₁.current = t ++ r'.current := hcurrent₁
        exact ⟨g ++ '['.toUInt8 :: t, .array hg hvs, by simp [hcurrent, hcurrent₁],
          herrors₁.trans herrors, trivial⟩
    case number =>
      obtain ⟨g, hg, t, ht, hcurrent, heq, herrors, hends⟩ := hat (by decide) (by decide)
      rw [htype] at ht
      rw [heq, text_token] at h
      split at h
      · cases h
      · next w hdecoded =>
        obtain ⟨-, heq⟩ := Prod.mk.inj (Option.some.inj h)
        obtain ⟨rfl, rfl⟩ := Prod.mk.inj heq
        exact ⟨g ++ t, .number hg ht hdecoded, by simp [hcurrent], herrors,
          Value.ends_of_endsNumber (hends htype) w⟩
    case string =>
      obtain ⟨g, hg, t, ht, hcurrent, heq, herrors, -⟩ := hat (by decide) (by decide)
      rw [htype] at ht
      cases ht with
      | @string content hc =>
      rw [heq, quoted_token] at h
      split at h
      · cases h
      · next decoded hdecoded =>
        obtain ⟨-, heq⟩ := Prod.mk.inj (Option.some.inj h)
        obtain ⟨rfl, rfl⟩ := Prod.mk.inj heq
        exact ⟨_, .string hg hc (decodeString_ok hdecoded []), by simp [hcurrent], herrors, trivial⟩
    case true =>
      obtain ⟨g, hg, t, ht, hcurrent, -, herrors, -⟩ := hat (by decide) (by decide)
      rw [htype] at ht
      cases ht
      obtain ⟨-, heq⟩ := Prod.mk.inj (Option.some.inj h)
      obtain ⟨rfl, rfl⟩ := Prod.mk.inj heq
      exact ⟨_, .true hg, by simp [hcurrent], herrors, trivial⟩
    case false =>
      obtain ⟨g, hg, t, ht, hcurrent, -, herrors, -⟩ := hat (by decide) (by decide)
      rw [htype] at ht
      cases ht
      obtain ⟨-, heq⟩ := Prod.mk.inj (Option.some.inj h)
      obtain ⟨rfl, rfl⟩ := Prod.mk.inj heq
      exact ⟨_, .false hg, by simp [hcurrent], herrors, trivial⟩
    case null =>
      obtain ⟨g, hg, t, ht, hcurrent, -, herrors, -⟩ := hat (by decide) (by decide)
      rw [htype] at ht
      cases ht
      obtain ⟨-, heq⟩ := Prod.mk.inj (Option.some.inj h)
      obtain ⟨rfl, rfl⟩ := Prod.mk.inj heq
      exact ⟨_, .null hg, by simp [hcurrent], herrors, trivial⟩
    all_goals cases h

theorem sound (fuel : Nat) : Sound D fuel := by
  induction fuel with
  | zero =>
    refine ⟨fun h => ?_, fun h => ?_, fun h => ?_⟩ <;>
    · simp only [readValue, readArray, readObject] at h
      cases h
  | succ fuel ih => exact ⟨sound_value ih, sound_elements ih, sound_members ih⟩

end read

end Sstoraged.JsonText
