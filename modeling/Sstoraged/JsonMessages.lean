import Sstoraged.JsonErrors

namespace Sstoraged.JsonText

open Reader

namespace Reader

/-- The loop over the characters from `current` on: the ends of lines before a location, and
where the last line starts. The character behind a return is looked at wherever the
location is. -/
def lineLoop (location : Nat) : Text → Nat → Nat → Int32 → Int32 × Nat
  | [], _, lastLineStart, line => (line, lastLineStart)
  | c :: t, current, lastLineStart, line =>
    if location ≤ current then (line, lastLineStart)
    else if c = '\r'.toUInt8 then
      match t with
      | [] => (line + 1, current + 1)
      | d :: t =>
        if d = '\n'.toUInt8 then lineLoop location t (current + 2) (current + 2) (line + 1)
        else lineLoop location (d :: t) (current + 1) (current + 1) (line + 1)
    else if c = '\n'.toUInt8 then lineLoop location t (current + 1) (current + 1) (line + 1)
    else lineLoop location t (current + 1) lastLineStart line

/-- Lines and columns start at 1. -/
def getLocationLineAndColumn (document : Text) (location : Nat) : Int32 × Int32 :=
  let (line, lastLineStart) := lineLoop location document 0 0 0
  (line + 1, Int32.ofInt ((location : Int) - lastLineStart) + 1)

def place (line column : Int32) : Text :=
  text ("Line " ++ toString line ++ ", Column " ++ toString column)

/-- The text for a location, given as what is behind it. -/
def locationText (document location : Text) : Text :=
  let (line, column) := getLocationLineAndColumn document (document.length - location.length)
  place line column

def getFormatedErrorMessages (document : Text) (errors : List ErrorInfo) : Text :=
  errors.flatMap fun e =>
    (text "* " ++ locationText document e.token.start ++ text "\n") ++
      (text "  " ++ e.message ++ text "\n") ++
      match e.extra with
      | some extra => text "See " ++ locationText document extra ++ text " for detail.\n"
      | none => []

end Reader

/-- The lines of a text, the first of them behind some characters. A line ends with a return,
a newline or both. -/
def textLines (line : Text) : Text → List Text
  | [] => [line]
  | c :: t =>
    if c = '\r'.toUInt8 then
      match t with
      | [] => [line, []]
      | d :: t => if d = '\n'.toUInt8 then line :: textLines [] t else line :: textLines [] (d :: t)
    else if c = '\n'.toUInt8 then line :: textLines [] t
    else textLines (line ++ [c]) t

/-- A location between a return and its newline. -/
def Splits (before rest : Text) : Prop := before.getLast? = some '\r'.toUInt8 ∧
    rest.head? = some '\n'.toUInt8

instance (before rest : Text) : Decidable (Splits before rest) := inferInstanceAs (Decidable (_ ∧ _))

/-- The length of the last line before a location. -/
def lastLength (before : Text) : Nat := ((textLines [] before).getLastD []).length

section locations

variable {before rest line : Text} {c d : UInt8} {current location lastLineStart : Nat} {n : Int32}

theorem splits_cons (h : before = [] → c ≠ '\r'.toUInt8) : Splits (c :: before) rest ↔
    Splits before rest := by
  cases before with
  | nil => simp [Splits, h rfl]
  | cons d before => simp [Splits, List.getLast?_cons]

theorem newline_ne_return : '\n'.toUInt8 ≠ '\r'.toUInt8 := by decide

theorem not_splits_nil : ¬ Splits [] rest := by
  rintro ⟨⟨⟩, -⟩

theorem lineLoop_done (h : location ≤ current) (t : Text) :
    lineLoop location t current lastLineStart n = (n, lastLineStart) := by
  cases t <;> simp [lineLoop.eq_def, h]

theorem lineLoop_both (h : current < location) (t : Text) :
    lineLoop location ('\r'.toUInt8 :: '\n'.toUInt8 :: t) current lastLineStart n =
      lineLoop location t (current + 2) (current + 2) (n + 1) := by
  rw [lineLoop, if_neg (Nat.not_le_of_lt h), if_pos rfl]
  exact if_pos rfl

theorem lineLoop_return (h : current < location) (hd : d ≠ '\n'.toUInt8) (t : Text) :
    lineLoop location ('\r'.toUInt8 :: d :: t) current lastLineStart n =
      lineLoop location (d :: t) (current + 1) (current + 1) (n + 1) := by
  rw [lineLoop, if_neg (Nat.not_le_of_lt h), if_pos rfl]
  exact if_neg hd

theorem lineLoop_last (h : current < location) : lineLoop location ['\r'.toUInt8] current
    lastLineStart n = (n + 1, current + 1) := by
  rw [lineLoop, if_neg (Nat.not_le_of_lt h), if_pos rfl]

theorem lineLoop_newline (h : current < location) (t : Text) :
    lineLoop location ('\n'.toUInt8 :: t) current lastLineStart n =
      lineLoop location t (current + 1) (current + 1) (n + 1) := by
  rw [lineLoop.eq_def]
  exact (if_neg (Nat.not_le_of_lt h)).trans ((if_neg (by decide)).trans (if_pos rfl))

theorem lineLoop_plain (h : current < location) (hc : c ≠ '\r'.toUInt8)
    (hc' : c ≠ '\n'.toUInt8) (t : Text) :
    lineLoop location (c :: t) current lastLineStart n =
      lineLoop location t (current + 1) lastLineStart n := by
  rw [lineLoop.eq_def]
  exact (if_neg (Nat.not_le_of_lt h)).trans ((if_neg hc).trans (if_neg hc'))

/-- What the loop finds: the lines that end before the location, and the start of the one
that it is on. Between a return and its newline it goes beyond the location. -/
structure Located (lines : List Text) (splits : Prop) (n : Int32) (location : Nat)
    (result : Int32 × Nat) : Prop where
  line : result.1 + 1 = n + Int32.ofNat lines.length
  beyond : splits → result.2 = location + 1
  column : ¬ splits → result.2 + (lines.getLastD []).length = location

theorem Located.cons {lines : List Text} {splits : Prop} {result : Int32 × Nat}
    (h : Located lines splits (n + 1) location result)
    (hne : lines ≠ []) (line : Text) : Located (line :: lines) splits n location result := by
  obtain ⟨line', lines, rfl⟩ := List.exists_cons_of_ne_nil hne
  have hlength : Int32.ofNat (line :: line' :: lines).length =
      1 + Int32.ofNat (line' :: lines).length := by
    rw [List.length_cons, Nat.add_comm, Int32.ofNat_add]
    rfl
  refine ⟨?_, h.beyond, h.column⟩
  rw [h.line, hlength, Int32.add_assoc]

theorem textLines_ne_nil (line t : Text) : textLines line t ≠ [] := by
  fun_induction textLines line t <;> simp_all

theorem located (hstart : lastLineStart + line.length = current)
    (hlocation : location = current + before.length) :
    Located (textLines line before) (Splits before rest) n location
      (lineLoop location (before ++ rest) current lastLineStart n) := by
  fun_induction textLines line before generalizing current lastLineStart n with
  | case1 line =>
    obtain rfl : location = current := hlocation
    rw [List.nil_append, lineLoop_done le_rfl]
    exact ⟨rfl, fun h => absurd h not_splits_nil, fun _ => hstart⟩
  | case2 line =>
    obtain rfl : location = current + 1 := hlocation
    cases rest with
    | nil =>
      rw [List.append_nil, lineLoop_last (Nat.lt_succ_self _)]
      exact ⟨Int32.add_assoc n 1 1, fun h => absurd h.2 (by simp), fun _ => rfl⟩
    | cons d rest =>
      rw [List.singleton_append]
      by_cases hd : d = '\n'.toUInt8
      · subst hd
        rw [lineLoop_both (Nat.lt_succ_self _), lineLoop_done (Nat.le_succ _)]
        exact ⟨Int32.add_assoc n 1 1, fun _ => rfl, fun h => absurd ⟨rfl, rfl⟩ h⟩
      · rw [lineLoop_return (Nat.lt_succ_self _) hd, lineLoop_done le_rfl]
        exact ⟨Int32.add_assoc n 1 1, fun h => absurd (Option.some.inj h.2) hd, fun _ => rfl⟩
  | case3 line t ih =>
    simp only [List.length_cons] at hlocation
    rw [splits_cons fun h => by simp at h, splits_cons fun _ => newline_ne_return, List.cons_append,
      List.cons_append,
      lineLoop_both (by omega)]
    apply Located.cons _ (textLines_ne_nil _ _)
    exact ih rfl (by omega)
  | case4 line d t hd ih =>
    simp only [List.length_cons] at hlocation ih
    rw [splits_cons fun h => by simp at h, List.cons_append, List.cons_append,
      lineLoop_return (by omega) hd]
    apply Located.cons _ (textLines_ne_nil _ _)
    exact ih rfl (by omega)
  | case5 line t h ih =>
    simp only [List.length_cons] at hlocation
    rw [splits_cons fun _ => newline_ne_return, List.cons_append, lineLoop_newline (by omega)]
    apply Located.cons _ (textLines_ne_nil _ _)
    exact ih rfl (by omega)
  | case6 line c t h h' ih =>
    simp only [List.length_cons] at hlocation
    rw [splits_cons fun _ => h, List.cons_append, lineLoop_plain (by omega) h h']
    apply ih
    · rw [List.length_append, List.length_singleton]
      omega
    · omega

theorem getLocationLineAndColumn_append (before rest : Text) :
    getLocationLineAndColumn (before ++ rest) before.length =
    (.ofNat (textLines [] before).length,
      if Splits before rest then 0 else .ofNat (lastLength before) + 1) := by
  have hlocated : Located (textLines [] before) (Splits before rest) 0 before.length
      (lineLoop before.length (before ++ rest) 0 0 0) := located rfl (Nat.zero_add _).symm
  obtain ⟨hline, hbeyond, hcolumn⟩ := hlocated
  apply Prod.ext
  · exact hline.trans (Int32.zero_add _)
  · change Int32.ofInt ((before.length : Int) -
      ((lineLoop before.length (before ++ rest) 0 0 0).2 : Nat)) + 1 = _
    by_cases h : Splits before rest
    · rw [hbeyond h, if_pos h]
      have hminus : (before.length : Int) - ((before.length + 1 : Nat) : Int) = -1 := by omega
      rw [hminus]
      rfl
    · have hlast : (before.length : Int) -
          ((lineLoop before.length (before ++ rest) 0 0 0).2 : Nat) = (lastLength before : Nat) := by
        have hcolumn := hcolumn h
        unfold lastLength
        omega
      rw [hlast, if_neg h, Int32.ofInt_eq_ofNat]

theorem locationText_append (before rest : Text) : locationText (before ++ rest) rest =
    place (.ofNat (textLines [] before).length) (if Splits before rest then 0
      else .ofNat (lastLength before) + 1) := by
  have hlength : (before ++ rest).length - rest.length = before.length := by simp
  rw [locationText, hlength, getLocationLineAndColumn_append]

/-- A document is refused with one message, which names the line and the column of a token,
and may name a second place in the document. -/
theorem message_of_refused {D : Doubles} (document : Text) (root : Value D.Double) : ∃ ok v errors,
    Settles (fun fuel => parse D fuel document root) (2 * document.length + 1) (ok, v, errors) ∧
      (ok = true ∧ getFormatedErrorMessages document errors = [] ∨
        ok = false ∧ ∃ before e, errors = [e] ∧ document = before ++ e.token.start ∧ ∃ see,
          getFormatedErrorMessages document errors =
            text "* " ++
              place (.ofNat (textLines [] before).length) (.ofNat (lastLength before) + 1) ++
              text "\n  " ++ e.message ++ text "\n" ++ see ∧
          (e.extra = none ∧ see = [] ∨ ∃ before' rest', e.extra = some rest' ∧
            document = before' ++ rest' ∧
            see = text "See " ++ place (.ofNat (textLines [] before').length)
              (if Splits before' rest' then 0 else .ofNat (lastLength before') + 1) ++
              text " for detail.\n")) := by
  obtain ⟨ok, v, r, hvalue, hanswers⟩ := (returns (D := D) document.length).value ⟨document, []⟩ rfl root
  have hsettles := settles_of_readValue hvalue hanswers.rest.length_le
  refine ⟨ok, v, r.errors, hsettles, hanswers.errors.imp ?_ ?_⟩
  · rintro ⟨hok, herrors⟩
    rw [herrors]
    exact ⟨hok, rfl⟩
  · rintro ⟨hok, e, herrors, ⟨⟨before, hbefore⟩, -, hbegins⟩, hextra⟩
    rw [herrors, List.nil_append]
    have hsplits : ¬ Splits before e.token.start := by
      rintro ⟨-, hnewline⟩
      exact absurd (hbegins _ hnewline) (by decide)
    have hplace := locationText_append before e.token.start
    rw [if_neg hsplits, hbefore] at hplace
    refine ⟨hok, before, e, rfl, hbefore.symm, ?_⟩
    cases he : e.extra with
    | none => exact ⟨[], by simp [getFormatedErrorMessages, he, hplace, text], .inl ⟨rfl, rfl⟩⟩
    | some rest' =>
      obtain ⟨before', hbefore'⟩ := hextra rest' he
      have hplace' := locationText_append before' rest'
      rw [hbefore'] at hplace'
      refine ⟨_, ?_, .inr ⟨before', rest', rfl, hbefore'.symm, rfl⟩⟩
      simp [getFormatedErrorMessages, he, hplace, hplace', text]

end locations

end Sstoraged.JsonText
