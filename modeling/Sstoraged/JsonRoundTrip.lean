import Sstoraged.JsonNumbers

namespace Sstoraged.JsonText

open Reader StyledWriter
open ConfigBinder (cstr)

/-- The texts that are written as they are. -/
def Clean (s : Text) : Prop := ∀ c ∈ s, c ≠ 0 ∧ c ≠ '"'.toUInt8 ∧ c ≠ '\\'.toUInt8

variable (D : Doubles)

/-- What a number becomes that is written and read. -/
def reread (t : Text) : Value D.Double :=
  match decodeNumber D t with
  | .ok v => v
  | .error _ => .null

/-- What a value becomes that is written and read. -/
def stored : Value D.Double → Value D.Double
  | .int n => reread D (intToString n)
  | .uint n => reread D (unsignedToString n)
  | .real r => reread D (D.sprintf r)
  | .array vs => .array (storedValues vs)
  | .object ms => .object (storedMembers ms)
  | v => v
where
  storedValues : List (Value D.Double) → List (Value D.Double)
    | [] => []
    | v :: vs => stored v :: storedValues vs
  storedMembers : List (Text × Value D.Double) → List (Text × Value D.Double)
    | [] => []
    | (name, v) :: ms => (name, stored v) :: storedMembers ms

/-- The text is a number that is read. -/
def Numeric (t : Text) : Prop := Spelling .number t ∧ ∃ v, decodeNumber D t = .ok v

/-- The values whose texts are clean and whose numbers are read at all. -/
inductive Writable : Value D.Double → Prop
  | null : Writable .null
  | int {n : Int32} (h : Numeric D (intToString n)) : Writable (.int n)
  | uint (n : UInt64) : Writable (.uint n)
  | real {r : D.Double} (h : Numeric D (D.sprintf r)) : Writable (.real r)
  | string {s : Text} (hs : Clean s) : Writable (.string s)
  | boolean (b : Bool) : Writable (.boolean b)
  | array {vs : List (Value D.Double)} (hvs : ∀ v ∈ vs, Writable v) : Writable (.array vs)
  | object {ms : List (Text × Value D.Double)} (hsorted : SortedMap.Sorted ms)
      (hnames : ∀ m ∈ ms, Clean m.1)
      (hms : ∀ m ∈ ms, Writable m.2) : Writable (.object ms)

section texts

variable {s : Text}

theorem Clean.quotable (h : Clean s) : Quotable s := by
  induction s with
  | nil => exact .nil
  | cons c s ih =>
    obtain ⟨hc, hs⟩ := List.forall_mem_cons.mp h
    exact .plain hc.2.1 hc.2.2 (ih hs)

theorem Clean.decodeString (h : Clean s) : decodeString [] s = .ok s := by
  induction s with
  | nil => rfl
  | cons c s ih =>
    obtain ⟨⟨-, hquote, hback⟩, hs⟩ := List.forall_mem_cons.mp h
    rw [decodeString.eq_def]
    simp only [if_neg hquote, if_neg hback, ih hs]
    rfl

theorem Clean.cstr (h : Clean s) : cstr s = s := ConfigBinder.cstr_eq fun h0 => (h 0 h0).1 rfl

theorem gap_nil : Gap [] := .blank (List.forall_mem_nil _)

theorem spells_string (h : Clean s) : Spells D (.value (.string s)) (valueToQuotedString s) := by
  have hspells := Spells.string (D := D) gap_nil h.quotable h.decodeString
  rw [h.cstr] at hspells
  rwa [valueToQuotedString, h.cstr]

theorem spells_number {t : Text} (h : Numeric D t) : Spells D (.value (reread D t)) t := by
  obtain ⟨hspelling, v, hv⟩ := h
  have hreread : reread D t = v := by rw [reread, hv]
  exact hreread.symm ▸ .number gap_nil hspelling hv

theorem spelling_digits {c : UInt8} {t : Text} (h : ∀ d ∈ c :: t, IsDigit d) :
    Spelling .number (c :: t) := by
  obtain ⟨hc, ht⟩ := List.forall_mem_cons.mp h
  exact .number ((Bool.or_eq_true ..).mpr (.inl (decide_eq_true hc))) fun d hd =>
    (Bool.or_eq_true ..).mpr (.inl (decide_eq_true (ht d hd)))

theorem numeric_unsigned (n : UInt64) : Numeric D (unsignedToString n) := by
  obtain ⟨t, heq, hne, hdigits, -⟩ := uintToString_eq n.toUInt32 []
  refine ⟨?_, _, decodeNumber_uintToString D n.toUInt32⟩
  obtain ⟨c, t, rfl⟩ := List.exists_cons_of_ne_nil hne
  rw [unsignedToString, heq, List.append_nil]
  exact spelling_digits hdigits

theorem Gap.append {b g : Text} (hb : Blank b) (hg : Gap g) : Gap (b ++ g) := by
  have happend {c : Text} (hc : Blank c) : Blank (b ++ c) := List.forall_mem_append.mpr ⟨hb, hc⟩
  cases hg with
  | blank hc => exact .blank (happend hc)
  | comment hc ht hg =>
    rw [← List.append_assoc]
    exact .comment (happend hc) ht hg

theorem spells_append {b t : Text} {v : Value D.Double} (hb : Blank b) (h : Spells D (.value v) t) :
    Spells D (.value v) (b ++ t) := by
  cases h with
  | null hg => rw [← List.append_assoc]; exact .null (hg.append hb)
  | true hg => rw [← List.append_assoc]; exact .true (hg.append hb)
  | false hg => rw [← List.append_assoc]; exact .false (hg.append hb)
  | number hg ht hv => rw [← List.append_assoc]; exact .number (hg.append hb) ht hv
  | string hg hc hd => rw [← List.append_assoc]; exact .string (hg.append hb) hc hd
  | empty hg hb' => rw [← List.append_assoc]; exact .empty (hg.append hb) hb'
  | array hg h => rw [← List.append_assoc]; exact .array (hg.append hb) h
  | object hg h => rw [← List.append_assoc]; exact .object (hg.append hb) h

end texts

section storing

theorem stored_array (vs : List (Value D.Double)) : stored D (.array vs) = .array
    (vs.map (stored D)) := by
  have h : stored.storedValues D vs = vs.map (stored D) := by
    induction vs with
    | nil => rfl
    | cons v vs ih => rw [stored.storedValues, ih, List.map_cons]
  rw [stored, h]

theorem stored_object (ms : List (Text × Value D.Double)) :
    stored D (.object ms) = .object (ms.map (Prod.map id (stored D))) := by
  have h : stored.storedMembers D ms = ms.map (Prod.map id (stored D)) := by
    induction ms with
    | nil => rfl
    | cons m ms ih => rw [stored.storedMembers, ih, List.map_cons, Prod.map, id]
  rw [stored, h]

end storing

section writer

variable {D} {v : Value D.Double} {w w' w'' : StyledWriter} {t t' : Text}

theorem writeValue_pushed (h : Writable D v) (hnests : v.nests = false) :
    ∃ t, Spells D (.value (stored D v)) t ∧ ∀ w, writeValue D v w = w.pushValue t := by
  cases h with
  | null => exact ⟨text "null", .null gap_nil, fun w => by rw [writeValue]⟩
  | int h => exact ⟨_, spells_number D h, fun w => by rw [writeValue]⟩
  | uint n => exact ⟨_, spells_number D (numeric_unsigned D n), fun w => by rw [writeValue]⟩
  | real h => exact ⟨_, spells_number D h, fun w => by rw [writeValue]⟩
  | string hs => exact ⟨_, spells_string D hs, fun w => by rw [writeValue]⟩
  | boolean b =>
    refine ⟨booleanToString b, ?_, fun w => by rw [writeValue]⟩
    cases b
    · exact .false gap_nil
    · exact .true gap_nil
  | @array vs hvs =>
    obtain rfl : vs = [] := by simpa [Value.nests] using hnests
    exact ⟨text "[]", .empty gap_nil (List.forall_mem_nil _), fun w => by rw [writeValue]; rfl⟩
  | @object ms _ _ _ =>
    obtain rfl : ms = [] := by simpa [Value.nests] using hnests
    exact ⟨text "\x7b\x7d", .object gap_nil (.close gap_nil), fun w => by rw [writeValue]; rfl⟩

/-- A text has been written, and nothing else has changed but the texts of elements. -/
structure Appends (w : StyledWriter) (t : Text) (w' : StyledWriter) : Prop where
  document : w'.document = w.document ++ t
  addChildValues : w'.addChildValues = false
  indentString : w'.indentString = w.indentString

theorem Appends.trans (h : Appends w t w') (h' : Appends w' t' w'') : Appends w (t ++ t') w'' :=
  ⟨by rw [h'.document, h.document, List.append_assoc], h'.addChildValues,
    h'.indentString.trans h.indentString⟩

theorem appends_add (hw : w.addChildValues = false) (t : Text) : Appends w t (w.add t) := ⟨rfl, hw, rfl⟩

theorem appends_writeIndent (hw : w.addChildValues = false) (hindent : Blank w.indentString) :
    ∃ b, Blank b ∧ Appends w b w.writeIndent := by
  unfold writeIndent
  split
  · exact ⟨_, hindent, appends_add hw _⟩
  · split_ifs
    · exact ⟨[], List.forall_mem_nil _, (List.append_nil _).symm, hw, rfl⟩
    · exact ⟨_, hindent, appends_add hw _⟩
    · have hnewline : ∀ c ∈ text "\n", isSpace c = true := List.all_eq_true.mp rfl
      exact ⟨_, List.forall_mem_append.mpr ⟨hnewline, hindent⟩,
        (appends_add hw _).trans (appends_add (w := w.add (text "\n")) hw w.indentString)⟩

theorem appends_writeWithIndent (hw : w.addChildValues = false) (hindent : Blank w.indentString)
    (t : Text) :
    ∃ b, Blank b ∧ Appends w (b ++ t) (w.writeWithIndent t) := by
  obtain ⟨b, hb, h⟩ := appends_writeIndent hw hindent
  exact ⟨b, hb, h.trans (appends_add h.addChildValues t)⟩

theorem blank_indent (hindent : Blank w.indentString) : Blank w.indent.indentString := by
  have hblank : ∀ c ∈ List.replicate indentSize ' '.toUInt8, isSpace c = true := List.all_eq_true.mp rfl
  exact List.forall_mem_append.mpr ⟨hindent, hblank⟩

theorem Appends.unindent (h : Appends w.indent t w') : Appends w t w'.unindent := by
  refine ⟨h.document, h.addChildValues, ?_⟩
  rw [StyledWriter.unindent, h.indentString]
  simp [indent]

/-- The texts of elements. -/
def Lines (D : Doubles) (vs : List (Value D.Double)) (lines : List Text) : Prop :=
  List.Forall₂ (fun v line => Spells D (.value (stored D v)) line) vs lines

theorem writeValues_pushed {vs : List (Value D.Double)} (h : ∀ v ∈ vs, Writable D v)
    (hnests : ∀ v ∈ vs, v.nests = false) : ∃ lines, Lines D vs lines ∧
      ∀ w, w.addChildValues = true → writeValues D vs w =
        { w with childValues := w.childValues ++ lines } := by
  induction vs with
  | nil => exact ⟨[], .nil, fun w _ => by rw [writeValues, List.append_nil]⟩
  | cons v vs ih =>
    obtain ⟨hv, hvs⟩ := List.forall_mem_cons.mp h
    obtain ⟨hnest, hnests⟩ := List.forall_mem_cons.mp hnests
    obtain ⟨line, hline, hpush⟩ := writeValue_pushed hv hnest
    obtain ⟨lines, hlines, hwrite⟩ := ih hvs hnests
    refine ⟨line :: lines, .cons hline hlines, fun w hw => ?_⟩
    rw [writeValues, hpush, pushValue, if_pos hw,
      hwrite { w with childValues := w.childValues ++ [line] } hw, List.append_assoc,
      List.singleton_append]

theorem isMultineArray_cases {vs : List (Value D.Double)} (h : ∀ v ∈ vs, Writable D v)
    (hw : w.addChildValues = false) :
    Appends w [] (isMultineArray (fun w => writeValues D vs w) vs w).2 ∧
      (Lines D vs (isMultineArray (fun w => writeValues D vs w) vs w).2.childValues ∨
        (isMultineArray (fun w => writeValues D vs w) vs w).2.childValues = [] ∧
          (isMultineArray (fun w => writeValues D vs w) vs w).1 = true) := by
  unfold isMultineArray
  split_ifs with hmany
  · exact ⟨⟨(List.append_nil _).symm, hw, rfl⟩, .inr ⟨rfl, rfl⟩⟩
  · obtain ⟨-, hnests⟩ := not_or.mp hmany
    have hnests : ∀ v ∈ vs, v.nests = false := by simpa using hnests
    obtain ⟨lines, hlines, hwrite⟩ := writeValues_pushed h hnests
    simp only [hwrite { w with childValues := [], addChildValues := true } rfl, List.nil_append]
    exact ⟨⟨(List.append_nil _).symm, rfl, rfl⟩, .inl hlines⟩

theorem spells_intercalate {vs : List (Value D.Double)} {lines : List Text} (h : Lines D vs lines)
    (hne : vs ≠ []) :
    Spells D (.elements (vs.map (stored D)))
      (text " " ++ ((text ", ").intercalate lines ++ text " ]")) := by
  have hblank : ∀ c ∈ text " ", isSpace c = true := List.all_eq_true.mp rfl
  induction h with
  | nil => exact absurd rfl hne
  | @cons v line vs lines hline hlines ih =>
    have hline := spells_append D hblank hline
    cases hlines with
    | nil => simpa [text] using Spells.last hline hblank
    | cons _ _ =>
      have hnext := Spells.next hline (List.forall_mem_nil _) (ih (List.cons_ne_nil _ _))
      simpa [text, List.intercalate] using hnext

/-- A value can be written. -/
def Writes (v : Value D.Double) : Prop := ∀ w, w.addChildValues = false → Blank w.indentString →
  ∃ t, Spells D (.value (stored D v)) t ∧ Appends w t (writeValue D v w)

theorem writeLines_appends {vs : List (Value D.Double)} {lines : List Text} (h : ∀ v ∈ vs, Writes v)
    (hne : vs ≠ [])
    (hlines : Lines D vs lines ∨ lines = []) (hw : w.addChildValues = false)
    (hindent : Blank w.indentString) :
    ∃ t, Appends w t (writeLines D vs lines w) ∧
      ∀ b, Blank b → Spells D (.elements (vs.map (stored D))) (t ++ (b ++ text "]")) := by
  induction vs generalizing lines w with
  | nil => exact absurd rfl hne
  | cons v vs ih =>
    obtain ⟨hv, hvs⟩ := List.forall_mem_cons.mp h
    -- the element itself, with its text at hand or not
    obtain ⟨t, ht, happ⟩ : ∃ t, Spells D (.value (stored D v)) t ∧
        Appends w t (writeLine (fun w => writeValue D v w) lines w) := by
      cases hlines with
      | inl hlines =>
        obtain ⟨line, lines, hline, -, rfl⟩ := List.forall₂_cons_left_iff.mp hlines
        obtain ⟨b, hb, happ⟩ := appends_writeWithIndent hw hindent line
        exact ⟨_, spells_append D hb hline, happ⟩
      | inr hlines =>
        subst hlines
        obtain ⟨b, hb, happ⟩ := appends_writeIndent hw hindent
        obtain ⟨t, ht, happ'⟩ := hv _ happ.addChildValues (happ.indentString ▸ hindent)
        exact ⟨_, spells_append D hb ht, happ.trans happ'⟩
    have hlast {b : Text} (hb : Blank b) : Spells D (.elements [stored D v])
        (t ++ (b ++ text "]")) := .last ht hb
    rw [writeLines]
    cases vs with
    | nil => exact ⟨t, happ, fun b hb => hlast hb⟩
    | cons v' vs =>
      have hlines : Lines D (v' :: vs) lines.tail ∨ lines.tail = [] := hlines.imp
        (fun hlines => by cases hlines; assumption) (fun hlines => by rw [hlines, List.tail_nil])
      have hindent : Blank (writeLine (fun w => writeValue D v w) lines w).indentString :=
        happ.indentString ▸ hindent
      obtain ⟨t', happ', ht'⟩ := ih hvs (List.cons_ne_nil _ _) hlines
        (w := (writeLine (fun w => writeValue D v w) lines w).add (text ",")) happ.addChildValues hindent
      refine ⟨t ++ (text "," ++ t'), happ.trans ((appends_add happ.addChildValues _).trans happ'),
        fun b hb => ?_⟩
      have hnext := Spells.next ht (List.forall_mem_nil _) (ht' b hb)
      simpa [text] using hnext

theorem writeMembers_appends {ms : List (Text × Value D.Double)} (h : ∀ m ∈ ms, Writes m.2)
    (hne : ms ≠ [])
    (hnames : ∀ m ∈ ms, Clean m.1) (hsorted : SortedMap.Sorted ms)
    {before : List (Text × Value D.Double)}
    (hbefore : ∀ e ∈ before, ∀ m ∈ ms, e.1 < m.1) (last : Text) (hw : w.addChildValues = false)
    (hindent : Blank w.indentString) :
    ∃ t, Appends w t (writeMembers D ms w) ∧ ∀ b, Blank b →
      Spells D (.members last before (before ++ ms.map (Prod.map id (stored D))))
        (t ++ (b ++ text "\x7d")) := by
  induction ms generalizing before last w with
  | nil => exact absurd rfl hne
  | cons m ms ih =>
    obtain ⟨name, v⟩ := m
    obtain ⟨hv, hms⟩ := List.forall_mem_cons.mp h
    obtain ⟨hname, hnames⟩ := List.forall_mem_cons.mp hnames
    obtain ⟨hfirst, hsorted⟩ := List.pairwise_cons.mp hsorted
    have hspace : ∀ c ∈ text " ", isSpace c = true := List.all_eq_true.mp rfl
    obtain ⟨g, hg, happ⟩ := appends_writeWithIndent hw hindent (valueToQuotedString name)
    obtain ⟨t, ht, happ'⟩ := hv ((w.writeWithIndent (valueToQuotedString name)).add (text " : "))
      happ.addChildValues
      (show Blank (w.writeWithIndent _).indentString from happ.indentString ▸ hindent)
    have happ := (happ.trans (appends_add happ.addChildValues (text " : "))).trans happ'
    have hmember := Spells.member (.blank hg) hname.quotable hname.decodeString hspace
      (spells_append D hspace ht)
    have hassign : SortedMap.assign before (cstr name) (stored D v) = before ++
        [(name, stored D v)] := by
      rw [hname.cstr]
      exact SortedMap.assign_of_lt fun e he => hbefore e he _ (List.mem_cons_self ..)
    have hlast {b : Text} (hb : Blank b) :
        Spells D (.members last before (SortedMap.assign before (cstr name) (stored D v))) _ :=
          .lastMember hmember hb
    rw [hassign] at hlast
    rw [writeMembers]
    cases ms with
    | nil => exact ⟨_, happ, fun b hb => by simpa [text, valueToQuotedString, hname.cstr] using hlast hb⟩
    | cons m ms =>
      have hbefore : ∀ e ∈ before ++ [(name, stored D v)], ∀ m' ∈ m :: ms, e.1 < m'.1 := by
        intro e he m' hm'
        obtain he | he := List.mem_append.mp he
        · exact hbefore e he m' (List.mem_cons_of_mem _ hm')
        · rw [List.mem_singleton.mp he]
          exact hfirst m' hm'
      have hindent : Blank (writeValue D v ((w.writeWithIndent (valueToQuotedString name)).add
        (text " : "))).indentString :=
        happ.indentString ▸ hindent
      obtain ⟨t', happ', ht'⟩ := ih hms (List.cons_ne_nil _ _) hnames hsorted hbefore name
        (w := (writeValue D v ((w.writeWithIndent (valueToQuotedString name)).add (text " : "))).add
          (text ","))
        happ.addChildValues hindent
      refine ⟨_, happ.trans ((appends_add happ.addChildValues _).trans happ'), fun b hb => ?_⟩
      have hnext : Spells D (.members last before _) _ := .nextMember hmember (List.forall_mem_nil _)
        (by rw [hassign]; exact ht' b hb)
      simpa [text, valueToQuotedString, hname.cstr] using hnext

theorem writes (h : Writable D v) : Writes v := by
  induction v with
  | array vs ih =>
    intro w hw hindent
    cases h with
    | array hvs =>
      rw [stored_array, writeValue, writeArrayValue]
      by_cases hempty : vs = []
      · subst hempty
        refine ⟨text "[]", .empty gap_nil (List.forall_mem_nil _), ?_⟩
        rw [List.isEmpty_nil, if_pos rfl, pushValue, if_neg (by simp [hw])]
        exact appends_add hw _
      · obtain ⟨happ, hlines⟩ := isMultineArray_cases hvs hw
        rw [if_neg (by simpa using hempty)]
        generalize isMultineArray (fun w => writeValues D vs w) vs w = result at happ hlines ⊢
        obtain ⟨isArrayMultiLine, w'⟩ := result
        have hindent' : Blank w'.indentString := happ.indentString ▸ hindent
        cases isArrayMultiLine with
        | true =>
          obtain ⟨g, hg, hbegin⟩ := appends_writeWithIndent happ.addChildValues hindent' (text "[")
          have hindent'' : Blank (w'.writeWithIndent (text "[")).indentString :=
            hbegin.indentString ▸ hindent'
          obtain ⟨t, hbody, ht⟩ := writeLines_appends (fun v hv => ih v hv (hvs v hv)) hempty
            (hlines.imp_right And.left)
            (w := (w'.writeWithIndent (text "[")).indent) hbegin.addChildValues (blank_indent hindent'')
          have happ := (happ.trans hbegin).trans hbody.unindent
          obtain ⟨b, hb, hend⟩ := appends_writeWithIndent happ.addChildValues
            (happ.indentString ▸ hindent) (text "]")
          refine ⟨_, ?_, happ.trans hend⟩
          have hspells := Spells.array (.blank hg) (ht b hb)
          simpa [text] using hspells
        | false =>
          obtain hlines | ⟨-, hmulti⟩ := hlines
          · refine ⟨_, ?_, happ.trans (appends_add happ.addChildValues _)⟩
            have hspells := Spells.array gap_nil (spells_intercalate hlines hempty)
            simpa [text] using hspells
          · cases hmulti
  | object ms ih =>
    intro w hw hindent
    cases h with
    | object hsorted hnames hms =>
      rw [stored_object, writeValue]
      by_cases hempty : ms = []
      · subst hempty
        refine ⟨text "\x7b\x7d", .object gap_nil (.close gap_nil), ?_⟩
        rw [List.isEmpty_nil, if_pos rfl, pushValue, if_neg (by simp [hw])]
        exact appends_add hw _
      · obtain ⟨g, hg, hbegin⟩ := appends_writeWithIndent hw hindent (text "\x7b")
        have hindent' : Blank (w.writeWithIndent (text "\x7b")).indentString :=
          hbegin.indentString ▸ hindent
        obtain ⟨t, happ, ht⟩ := writeMembers_appends (fun m hm => ih m hm (hms m hm))
          hempty hnames hsorted
          (List.forall_mem_nil _) [] (w := (w.writeWithIndent (text "\x7b")).indent)
            hbegin.addChildValues
          (blank_indent hindent')
        have happ := hbegin.trans happ.unindent
        obtain ⟨b, hb, hend⟩ := appends_writeWithIndent happ.addChildValues
          (happ.indentString ▸ hindent) (text "\x7d")
        rw [if_neg (by simpa using hempty)]
        refine ⟨_, ?_, happ.trans hend⟩
        have hspells := Spells.object (.blank hg) (ht b hb)
        simpa [text] using hspells
  | _ =>
    obtain ⟨t, ht, hpush⟩ := writeValue_pushed h rfl
    intro w hw hindent
    refine ⟨t, ht, ?_⟩
    rw [hpush, pushValue, if_neg (by simp [hw])]
    exact appends_add hw t

theorem spells_write (h : Writable D v) : ∃ t, write D v = t ++ text "\n" ∧
    Spells D (.value (stored D v)) t ∧
    (stored D v).Ends (text "\n") := by
  obtain ⟨t, ht, happ⟩ := writes h ⟨[], [], false, []⟩ rfl (List.forall_mem_nil _)
  have hnewline : EndsNumber (text "\n") := by
    rintro c ⟨rfl⟩
    decide
  refine ⟨t, ?_, ht, (stored D v).ends_of_endsNumber hnewline⟩
  rw [write, add, happ.document, List.nil_append]

/-- What has been written is read without an error. -/
theorem parse_write (h : Writable D v) (root : Value D.Double) :
    Settles (fun fuel => parse D fuel (write D v) root) (2 * (write D v).length + 1)
      (true, stored D v, []) := by
  obtain ⟨t, heq, ht, hends⟩ := spells_write h
  exact heq ▸ parse_of_spells ht hends root

theorem parse_write_debug : Settles
    (fun fuel => parse wholeDoubles fuel (write wholeDoubles
      (.object [(text "Debug", .array [.boolean true, .uint 3])])) .null)
    (2 * (write wholeDoubles (.object [(text "Debug", .array [.boolean true, .uint 3])])).length + 1)
    (true, stored wholeDoubles (.object [(text "Debug", .array [.boolean true, .uint 3])]), []) := by
  have hname : (text "Debug").all (fun c => decide (c ≠ 0 ∧ c ≠ '"'.toUInt8 ∧ c ≠ '\\'.toUInt8)) =
      true := rfl
  refine parse_write (.object (List.pairwise_singleton _ _) (List.forall_mem_singleton.mpr ?_)
    (List.forall_mem_singleton.mpr (.array ?_))) .null
  · exact fun c hc => of_decide_eq_true (List.all_eq_true.mp hname c hc)
  · exact List.forall_mem_cons.mpr ⟨.boolean true, List.forall_mem_singleton.mpr (.uint 3)⟩

end writer

end Sstoraged.JsonText
