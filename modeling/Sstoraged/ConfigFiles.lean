import Sstoraged.ConfiguratorImpl
import Sstoraged.JsonPlain

namespace Sstoraged.JsonText

open Reader ConfiguratorImpl
open ConfigBinder (readLoop maxCharPerLine)
open IStream (newline)

variable {D : Doubles}

/-- A binder and the configurator that it reads into. -/
structure Binding (D : Doubles) where
  lines : Text
  config : ConfiguratorImpl D

namespace Binding

/-- Append a file, if it can be opened, and read all lines so far. -/
def append (reads fuel : Nat) (content : Option Text) (file : String) (b : Binding D) :
    Option (Except (Failure Text) Unit × Binding D) :=
  match ConfigBinder.append content file reads b.lines with
  | none => none
  | some (.error what) => some (.error (.thrown (text what)), b)
  | some (.ok lines) => (b.config.parse fuel lines).map fun (result, config) => (result, ⟨lines, config⟩)

/-- Read a file. -/
def load (reads fuel : Nat) (content : Option Text) (file : String) (b : Binding D) :
    Option (Except (Failure Text) Unit × Binding D) :=
  append reads fuel content file { b with lines := [] }

/-- Files that are appended one after the other, each without a failure. -/
inductive Appended : Binding D → List (Text × String) → Binding D → Prop
  | nil (b : Binding D) : Appended b [] b
  | cons {reads fuel : Nat} {content : Text} {file : String}
      {files : List (Text × String)} {b b₁ b' : Binding D}
      (h : b.append reads fuel (some content) file = some (.ok (), b₁)) (hrest : Appended b₁ files b') :
      Appended b ((content, file) :: files) b'

end Binding

/-- The lines of a file that `getline` has room for. -/
def Short (content : Text) : Prop := 0 ∉ content ∧ ∀ line ∈ content.splitOn newline,
    line.length < maxCharPerLine

section lines

variable {content lines lines' : Text} {reads reads' : Nat}

theorem prefix_of_readLoop {fin : IStream} (h : readLoop reads fin lines = some lines') :
    lines <+: lines' := by
  induction reads generalizing fin lines with
  | zero => cases h
  | succ reads ih =>
    rw [readLoop] at h
    split_ifs at h
    · rw [Option.some.inj h]
    · have hprefix := ih h
      rw [List.append_assoc] at hprefix
      exact (List.prefix_append _ _).trans hprefix

end lines

section documents

variable {v w root root' cmdargs : Value D.Double} {ms : List (Text × Value D.Double)}
  {document t rest : Text} {fuel : Nat}
  {errors : List ErrorInfo} {names : List Text}

theorem parse_unique (h : Reader.parse D fuel document root = some (true, v, errors))
    (hw : Spells D (.value w) t)
    (heq : document = t ++ rest) (hends : w.Ends rest) : v = w := by
  obtain ⟨t', rest', rfl, hv, hends'⟩ := spells_of_parse h
  have hsettles := parse_of_spells hv hends' root
  rw [heq] at hsettles
  obtain ⟨-, hvalue⟩ := Prod.mk.inj (hsettles.unique (parse_of_spells hw hends root))
  exact (Prod.mk.inj hvalue).1

theorem restore_object (h : names.foldlM (restoreArg cmdargs) (.object ms) = some root') :
    ∃ ms', root' = .object ms' := by
  induction names generalizing ms with
  | nil =>
    obtain rfl := Option.some.inj h
    exact ⟨ms, rfl⟩
  | cons name names ih =>
    obtain ⟨root₁, hfirst, hrest⟩ := Option.bind_eq_some_iff.mp h
    unfold restoreArg at hfirst
    split at hfirst
    · cases hfirst
    · obtain rfl := Option.some.inj hfirst
      exact ih hrest
    · obtain rfl := Option.some.inj hfirst
      exact ih hrest

theorem restore_null (h : names.foldlM (restoreArg cmdargs) .null = some root') :
    root' = .null ∨ ∃ ms', ms' ≠ [] ∧ root' = .object ms' := by
  suffices hall : ∀ v, v = .null ∨ (∃ ms', ms' ≠ [] ∧ v = .object ms') →
      names.foldlM (restoreArg cmdargs) v = some root' → root' = .null ∨ ∃ ms', ms' ≠ [] ∧
        root' = .object ms' from
    hall .null (.inl rfl) h
  clear h
  induction names with
  | nil =>
    intro v hv h
    rwa [← Option.some.inj h]
  | cons name names ih =>
    intro v hv h
    obtain ⟨root₁, hfirst, hrest⟩ := Option.bind_eq_some_iff.mp h
    refine ih root₁ ?_ hrest
    unfold restoreArg at hfirst
    split at hfirst
    · cases hfirst
    · rwa [← Option.some.inj hfirst]
    · obtain rfl | ⟨ms, -, rfl⟩ := hv
      · obtain rfl := Option.some.inj hfirst
        exact .inr ⟨_, List.cons_ne_nil _ _, rfl⟩
      · obtain rfl := Option.some.inj hfirst
        exact .inr ⟨_, by simp [SortedMap.assign], rfl⟩

/-- The values that names are looked up in. -/
def Value.Mapping {R : Type} : Value R → Prop
  | .null | .object _ => True
  | _ => False

theorem mapping_of_restore (h : commandArgs.foldlM (restoreArg cmdargs) root = some root') :
    cmdargs.Mapping := by
  obtain ⟨root₁, hfirst, -⟩ := Option.bind_eq_some_iff.mp h
  unfold restoreArg at hfirst
  cases cmdargs with
  | null => trivial
  | object => trivial
  | _ => cases hfirst

theorem restore_of_not_mapping (h : names.foldlM (restoreArg cmdargs) v = some root')
    (hv : ¬ v.Mapping) : root' = v := by
  induction names with
  | nil => exact (Option.some.inj h).symm
  | cons name names ih =>
    obtain ⟨root₁, hfirst, hrest⟩ := Option.bind_eq_some_iff.mp h
    unfold restoreArg at hfirst
    split at hfirst
    · cases hfirst
    · obtain rfl := Option.some.inj hfirst
      exact ih hrest
    · cases v with
      | null => exact absurd trivial hv
      | object => exact absurd trivial hv
      | _ => cases hfirst

theorem eq_nil_of_settings (h : settings (.object ms) = settings (.null : Value D.Double)) :
    ms = [] := by
  cases ms with
  | nil => rfl
  | cons m ms =>
    have hnone := congrFun h m.1
    simp [settings] at hnone

theorem restore_again (h : commandArgs.foldlM (restoreArg cmdargs) v = some root)
    (h' : commandArgs.foldlM (restoreArg root) v = some root') (hv : v.Ordered) : root' = root := by
  obtain ⟨hfirst, hsorted⟩ := settings_restore h hv
  obtain ⟨hsecond, hsorted'⟩ := settings_restore h' hv
  have hsettings : settings root' = settings root := by
    funext x
    rw [hsecond, hfirst]
    by_cases hx : x ∈ commandArgs
    · simp [hx, Option.or_assoc]
    · simp [hx]
  have hobject {ms ms' : List (Text × Value D.Double)} (hroot : root = .object ms)
    (hroot' : root' = .object ms') :
      root' = root := by
    subst hroot hroot'
    rw [SortedMap.eq_of_lookup hsorted' hsorted (congrFun hsettings)]
  cases v with
  | null =>
    obtain hroot | ⟨ms, hne, hroot⟩ := restore_null h
    · obtain hroot' | ⟨ms', hne', hroot'⟩ := restore_null h'
      · rw [hroot, hroot']
      · rw [hroot, hroot'] at hsettings
        exact absurd (eq_nil_of_settings hsettings) hne'
    · obtain hroot' | ⟨ms', hne', hroot'⟩ := restore_null h'
      · rw [hroot, hroot'] at hsettings
        exact absurd (eq_nil_of_settings hsettings.symm) hne
      · exact hobject hroot hroot'
  | object ms =>
    obtain ⟨ms₁, hroot⟩ := restore_object h
    obtain ⟨ms₂, hroot'⟩ := restore_object h'
    exact hobject hroot hroot'
  | _ =>
    obtain rfl := restore_of_not_mapping h id
    exact absurd (mapping_of_restore h') id

end documents

section files

variable {b b₁ b' : Binding D} {reads fuel : Nat} {content : Text} {file : String}
  {files : List (Text × String)}
  {v : Value D.Double}

/-- The configuration is that of the value at the front of the lines. -/
def Loaded (b : Binding D) : Prop := ∃ (cmdargs v : Value D.Double) (t rest : Text),
  b.lines = t ++ rest ∧ Spells D (.value v) t ∧ v.Ends rest ∧
    commandArgs.foldlM (restoreArg cmdargs) v = some b.config.root

theorem append_ok (h : b.append reads fuel (some content) file = some (.ok (), b')) :
    readLoop reads ⟨content, false, false⟩ b.lines = some b'.lines ∧
      ∃ v errors, Reader.parse D fuel b'.lines b.config.root = some (true, v, errors) ∧
      commandArgs.foldlM (restoreArg b.config.root) v = some b'.config.root := by
  unfold Binding.append ConfigBinder.append at h
  dsimp only at h
  cases hread : readLoop reads ⟨content, false, false⟩ b.lines with
  | none => rw [hread] at h; cases h
  | some lines =>
    simp only [hread, Option.map_some, Option.map_eq_some_iff] at h
    obtain ⟨⟨result, config⟩, hparse, heq⟩ := h
    obtain ⟨rfl, rfl⟩ := Prod.mk.inj heq
    obtain ⟨v, errors, hparse, -, hrestore⟩ := parse_ok hparse
    exact ⟨rfl, v, errors, hparse, hrestore⟩

theorem loaded_of_append (h : b.append reads fuel (some content) file = some (.ok (), b')) :
    Loaded b' := by
  obtain ⟨-, v, errors, hparse, hrestore⟩ := append_ok h
  obtain ⟨t, rest, hlines, ht, hends⟩ := spells_of_parse hparse
  exact ⟨b.config.root, v, t, rest, hlines, ht, hends, hrestore⟩

theorem root_append (hb : Loaded b) (h : b.append reads fuel (some content) file = some (.ok (), b')) :
    b'.config.root = b.config.root := by
  obtain ⟨cmdargs, v, t, rest, hlines, ht, hends, hrestore⟩ := hb
  obtain ⟨hread, v', errors, hparse, hrestore'⟩ := append_ok h
  obtain ⟨more, hmore⟩ := prefix_of_readLoop hread
  have hmapping : v.Mapping := by
    by_contra hv
    rw [restore_of_not_mapping hrestore hv] at hrestore'
    exact hv (mapping_of_restore hrestore')
  have hends : v.Ends (rest ++ more) := by
    cases v with
    | null => trivial
    | object => trivial
    | _ => cases hmapping
  obtain rfl : v' = v := parse_unique hparse ht (by rw [← hmore, hlines, List.append_assoc]) hends
  exact restore_again hrestore hrestore' (ordered_of_spells ht)

/-- Files that are appended behind one that was loaded change nothing. -/
theorem root_of_appended (hload : b.load reads fuel (some content) file = some (.ok (), b₁))
    (h : Binding.Appended b₁ files b') : b'.config.root = b₁.config.root := by
  have hloaded : Loaded b₁ := loaded_of_append hload
  clear hload
  induction h with
  | nil b => rfl
  | cons h hrest ih => rw [ih (loaded_of_append h), root_append hloaded h]

theorem root_of_appended_debug : ∃ b₁ b' : Binding wholeDoubles,
    (⟨[], init wholeDoubles⟩ : Binding wholeDoubles).load 3 20
      (some (text "\x7b\x7d")) "sstoraged.conf" =
      some (.ok (), b₁) ∧
    Binding.Appended b₁ [(text "\x7b\"Debug\":true\x7d", "debug.conf")] b' ∧
      b'.config.root = b₁.config.root := by
  have hany : (((⟨[], init wholeDoubles⟩ : Binding wholeDoubles).load 3 20
    (some (text "\x7b\x7d")) "sstoraged.conf").any
      fun r => r.1.isOk && (r.2.append 3 20 (some (text "\x7b\"Debug\":true\x7d")) "debug.conf").any
        fun r => r.1.isOk) =
        true := by
    decide +kernel
  rw [Option.any_eq_true] at hany
  obtain ⟨⟨result, b₁⟩, hload, hany⟩ := hany
  obtain ⟨hok, hany⟩ := Bool.and_eq_true_iff.mp hany
  rw [Option.any_eq_true] at hany
  obtain ⟨⟨result', b'⟩, happend, hok'⟩ := hany
  cases result with
  | error => cases hok
  | ok =>
    cases result' with
    | error => cases hok'
    | ok =>
      have happended : Binding.Appended b₁ [(text "\x7b\"Debug\":true\x7d", "debug.conf")] b' :=
        .cons happend (.nil b')
      exact ⟨b₁, b', hload, happended, root_of_appended hload happended⟩

variable (D) in
/-- A binder of another run of the program. -/
def Binding.init : Binding D := ⟨[], ConfiguratorImpl.init D⟩

end files

end Sstoraged.JsonText
