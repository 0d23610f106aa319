import Sstoraged.JsonMessages
import Sstoraged.JsonProper
import Sstoraged.Outcome
import Sstoraged.Runs

namespace Sstoraged.JsonText

open Reader
open ConfigBinder (cstr)

variable {D : Doubles}

namespace Value

variable {R : Type}

/-- Only an object has names, and null none of them. For other values an assertion fails. -/
def isMember (name : Text) : Value R → Option Bool
  | null => some false
  | object ms => some (ms.lookup name).isSome
  | _ => none

/-- The value of a name, null when it is new. -/
def get (name : Text) : Value R → Value R
  | object ms => (ms.lookup name).getD .null
  | _ => null

/-- Set the value of a name. Null becomes an object. -/
def set (v : Value R) (name : Text) (w : Value R) : Option (Value R) :=
  match v with
  | null => some (object [(name, w)])
  | object ms => some (object (SortedMap.assign ms name w))
  | _ => none

def clear : Value R → Option (Value R)
  | null => some null
  | array _ => some (array [])
  | object _ => some (object [])
  | _ => none

end Value

variable (D) in
/-- The configuration, and what it was before the last document. -/
structure ConfiguratorImpl where
  root : Value D.Double
  cmdargs : Value D.Double

namespace ConfiguratorImpl

variable (D) in
def init : ConfiguratorImpl D := ⟨.null, .null⟩

def commandArgs : List Text := [text "Debug", text "ConfigFile", text "PIDfile"]

def saveCommandArgs (c : ConfiguratorImpl D) : ConfiguratorImpl D := { c with cmdargs := c.root }

/-- An argument that was there before comes back. -/
def restoreArg (cmdargs root : Value D.Double) (name : Text) : Option (Value D.Double) :=
  match cmdargs.isMember name with
  | none => none
  | some false => some root
  | some true => root.set name (cmdargs.get name)

def restoreCommandArgs (c : ConfiguratorImpl D) : Option (ConfiguratorImpl D) :=
  (commandArgs.foldlM (restoreArg c.cmdargs) c.root).map fun root => { c with root }

def setAttr (attr : Text) (value : Value D.Double) (c : ConfiguratorImpl D) :
    Option (ConfiguratorImpl D) :=
  (c.root.set (cstr attr) value).map fun root => { c with root }

/-- A document that is refused leaves what was read of it. -/
def parse (fuel : Nat) (lines : Text) (c : ConfiguratorImpl D) :
    Option (Except (Failure Text) Unit × ConfiguratorImpl D) :=
  let c := c.saveCommandArgs
  (Reader.parse D fuel lines c.root).map fun (ok, root, errors) =>
    let c := { c with root }
    if ok then
      match c.restoreCommandArgs with
      | some c => (.ok (), c)
      | none => (.error .assertion, c)
    else
      (.error (.thrown (text "Failed to parse configuration : " ++
        getFormatedErrorMessages lines errors)), c)

def clear (c : ConfiguratorImpl D) : Option (ConfiguratorImpl D) :=
  c.root.clear.map fun root => { c with root }

/-- What happens to a configuration. -/
inductive Event (D : Doubles)
  | clear
  | setAttr (attr : Text) (value : Value D.Double)
  | parse (fuel : Nat) (lines : Text)

/-- The run goes on where nothing has failed. -/
def step (c : ConfiguratorImpl D) : Event D → Option (ConfiguratorImpl D)
  | .clear => c.clear
  | .setAttr attr value => c.setAttr attr value
  | .parse fuel lines =>
    match c.parse fuel lines with
    | some (.ok (), c) => some c
    | _ => none

end ConfiguratorImpl

/-- What a configuration says about each name. -/
abbrev Settings (D : Doubles) := Text → Option (Value D.Double)

def settings : Value D.Double → Settings D
  | .object ms => fun name => ms.lookup name
  | _ => fun _ => none

/-- An event as what it means for the settings. -/
inductive Change (D : Doubles)
  | clear
  | set (name : Text) (v : Value D.Double)
  | document (v : Value D.Double)

/-- A document replaces all settings but those of the arguments that there are. -/
def Change.apply (m : Settings D) : Change D → Settings D
  | .clear => fun _ => none
  | .set name v => Function.update m name (some v)
  | .document v =>
    fun name => if name ∈ ConfiguratorImpl.commandArgs then (m name).or (settings v name)
      else settings v name

namespace ConfiguratorImpl

inductive Means : Event D → Change D → Prop
  | clear : Means .clear .clear
  | setAttr (attr : Text) (value : Value D.Double) : Means (.setAttr attr value) (.set (cstr attr) value)
  | parse {t rest : Text} {v : Value D.Double} (fuel : Nat) (ht : Spells D (.value v) t)
      (hends : v.Ends rest) :
      Means (.parse fuel (t ++ rest)) (.document v)

end ConfiguratorImpl

/-- An object has its names in order. -/
def Value.Ordered {R : Type} : Value R → Prop
  | .object ms => SortedMap.Sorted ms
  | _ => True

section settings

variable {v v' w cmdargs root root' : Value D.Double} {name : Text} {names : List Text} {t : Text}

theorem Value.Proper.ordered {R : Type} {v : Value R} (h : v.Proper) : v.Ordered := by
  cases h with
  | object hsorted => exact hsorted
  | _ => trivial

theorem ordered_of_spells (h : Spells D (.value v) t) : v.Ordered := by
  have hmembers {name before after t} (h : Spells D (.members name before after) t)
    (hs : SortedMap.Sorted before) :
      SortedMap.Sorted after := by
    generalize hp : Phrase.members name before after = p at h
    induction h generalizing name before with
    | close _ => cases hp; exact hs
    | lastMember _ _ => cases hp; exact SortedMap.sorted_assign hs _ _
    | nextMember _ _ _ _ ih => cases hp; exact ih (SortedMap.sorted_assign hs _ _) rfl
    | _ => cases hp
  cases h with
  | object _ h => exact hmembers h .nil
  | number _ _ hv => exact (proper_decodeNumber hv).ordered
  | _ => trivial

theorem isMember_eq {b : Bool} (h : v.isMember name = some b) : b = (settings v name).isSome := by
  cases v <;> simp_all [Value.isMember, settings]

theorem settings_of_isMember (h : v.isMember name = some true) :
    settings v name = some (v.get name) := by
  have hsome := (isMember_eq h).symm
  cases v with
  | object ms =>
    obtain ⟨w, hw⟩ := Option.isSome_iff_exists.mp hsome
    change ms.lookup name = some w at hw
    simp [settings, Value.get, hw]
  | _ => cases hsome

theorem settings_set (h : v.set name w = some v') (hv : v.Ordered) :
    settings v' = Function.update (settings v) name (some w) ∧ v'.Ordered := by
  cases v with
  | null =>
    obtain rfl := Option.some.inj h
    refine ⟨?_, List.pairwise_singleton _ _⟩
    funext x
    by_cases hx : x = name <;> simp [settings, SortedMap.lookup_cons_eq, Function.update_apply, hx]
  | object ms =>
    obtain rfl := Option.some.inj h
    refine ⟨?_, SortedMap.sorted_assign hv _ _⟩
    funext x
    simp [settings, SortedMap.lookup_assign hv, Function.update_apply]
  | _ => cases h

theorem settings_clear (h : v.clear = some v') : (settings v' = fun _ => none) ∧ v'.Ordered := by
  cases v with
  | null | array =>
    obtain rfl := Option.some.inj h
    exact ⟨rfl, trivial⟩
  | object =>
    obtain rfl := Option.some.inj h
    exact ⟨rfl, .nil⟩
  | _ => cases h

open ConfiguratorImpl

theorem settings_restoreArg (h : restoreArg cmdargs root name = some root') (hroot : root.Ordered) :
    settings root' = (fun x => if x = name then (settings cmdargs x).or (settings root x)
      else settings root x) ∧
      root'.Ordered := by
  unfold restoreArg at h
  split at h
  · cases h
  · next hmember =>
    obtain rfl := Option.some.inj h
    have hnone : settings cmdargs name = none := by simpa using (isMember_eq hmember).symm
    refine ⟨?_, hroot⟩
    funext x
    by_cases hx : x = name <;> simp [hx, hnone]
  · next hmember =>
    obtain ⟨hset, hroot'⟩ := settings_set h hroot
    refine ⟨?_, hroot'⟩
    rw [hset]
    funext x
    by_cases hx : x = name
    · simp [hx, settings_of_isMember hmember]
    · simp [hx]

theorem settings_restore (h : names.foldlM (restoreArg cmdargs) root = some root')
    (hroot : root.Ordered) :
    settings root' = (fun x => if x ∈ names then (settings cmdargs x).or (settings root x)
      else settings root x) ∧
      root'.Ordered := by
  induction names generalizing root with
  | nil =>
    obtain rfl := Option.some.inj h
    exact ⟨by simp, hroot⟩
  | cons name names ih =>
    rw [List.foldlM_cons] at h
    obtain ⟨root₁, hfirst, hrest⟩ := Option.bind_eq_some_iff.mp h
    obtain ⟨hsettings, hroot₁⟩ := settings_restoreArg hfirst hroot
    obtain ⟨hrest, hroot'⟩ := ih hrest hroot₁
    refine ⟨?_, hroot'⟩
    rw [hrest, hsettings]
    funext x
    by_cases hx : x = name
    · simp [hx, ← Option.or_assoc]
    · simp [hx]

variable {c c' : ConfiguratorImpl D} {lines : Text} {fuel : Nat}

theorem parse_ok (h : c.parse fuel lines = some (.ok (), c')) : ∃ v errors,
    Reader.parse D fuel lines c.root = some (true, v, errors) ∧ c'.cmdargs = c.root ∧
      commandArgs.foldlM (restoreArg c.root) v = some c'.root := by
  unfold ConfiguratorImpl.parse at h
  obtain ⟨⟨ok, v, errors⟩, hparse, heq⟩ := Option.map_eq_some_iff.mp h
  cases ok with
  | false => cases heq
  | true =>
    refine ⟨v, errors, hparse, ?_⟩
    simp only [if_true] at heq
    split at heq
    · next c'' hrestore =>
      obtain ⟨-, rfl⟩ := Prod.mk.inj heq
      obtain ⟨root', hroot', rfl⟩ := Option.map_eq_some_iff.mp hrestore
      exact ⟨rfl, hroot'⟩
    · cases heq

theorem settings_step {e : Event D} (h : step c e = some c') (hc : c.root.Ordered) :
    ∃ change, Means e change ∧ settings c'.root = change.apply (settings c.root) ∧ c'.root.Ordered := by
  cases e with
  | clear =>
    obtain ⟨root', hclear, rfl⟩ := Option.map_eq_some_iff.mp h
    exact ⟨_, .clear, settings_clear hclear⟩
  | setAttr attr value =>
    obtain ⟨root', hset, rfl⟩ := Option.map_eq_some_iff.mp h
    exact ⟨_, .setAttr attr value, settings_set hset hc⟩
  | parse fuel lines =>
    simp only [step] at h
    split at h
    · next hparse =>
      obtain rfl := Option.some.inj h
      obtain ⟨v, errors, hread, -, hrestore⟩ := parse_ok hparse
      obtain ⟨t, rest, rfl, ht, hends⟩ := spells_of_parse hread
      exact ⟨_, .parse fuel ht hends, settings_restore hrestore (ordered_of_spells ht)⟩
    · cases h

theorem settings_exec {es : List (Event D)} (h : Runs.exec step c es = some c') (hc : c.root.Ordered) :
    ∃ changes, List.Forall₂ Means es changes ∧
      settings c'.root = changes.foldl Change.apply (settings c.root) ∧ c'.root.Ordered := by
  induction es generalizing c with
  | nil =>
    obtain rfl := Option.some.inj h
    exact ⟨[], .nil, rfl, hc⟩
  | cons e es ih =>
    obtain ⟨c₁, hfirst, hrest⟩ := Option.bind_eq_some_iff.mp h
    obtain ⟨change, hmeans, hsettings, hc₁⟩ := settings_step hfirst hc
    obtain ⟨changes, hall, hlast, hc'⟩ := ih hrest hc₁
    exact ⟨change :: changes, .cons hmeans hall, by rw [hlast, hsettings, List.foldl_cons], hc'⟩

/-- In a run without a failure, the settings are those of the last document, but for the
arguments: they are the first that there were. -/
theorem settings_of_run {es : List (Event D)} (h : Runs.exec step (init D) es = some c') :
    ∃ changes, List.Forall₂ Means es changes ∧ settings c'.root =
      changes.foldl Change.apply fun _ => none := by
  obtain ⟨changes, hmeans, hsettings, -⟩ := settings_exec h trivial
  exact ⟨changes, hmeans, hsettings⟩

/-- Debug is set, and a document that says otherwise is read. -/
theorem settings_of_run_debug : ∃ (c : ConfiguratorImpl wholeDoubles)
    (changes : List (Change wholeDoubles)),
    List.Forall₂ Means [.setAttr (text "Debug") (.boolean true),
      .parse 20 (text "\x7b\"Debug\":false\x7d")] changes ∧
      settings c.root = changes.foldl Change.apply fun _ => none := by
  have hsome : (Runs.exec step (init wholeDoubles)
      [.setAttr (text "Debug") (.boolean true), .parse 20
        (text "\x7b\"Debug\":false\x7d")]).isSome = true := by
    decide +kernel
  obtain ⟨c, hc⟩ := Option.isSome_iff_exists.mp hsome
  exact ⟨c, settings_of_run hc⟩

/-- An argument keeps its value until it is set again or all settings are cleared. -/
theorem argument_of_run {es : List (Event D)} (h : Runs.exec step c es = some c') (hc : c.root.Ordered)
    (hname : name ∈ commandArgs) (hes : .clear ∉ es ∧ ∀ attr value, .setAttr attr value ∈ es →
      name ≠ cstr attr) (hv : settings c.root name = some v) :
    settings c'.root name = some v := by
  induction es generalizing c with
  | nil =>
    obtain rfl := Option.some.inj h
    exact hv
  | cons e es ih =>
    obtain ⟨c₁, hfirst, hrest⟩ := Option.bind_eq_some_iff.mp h
    obtain ⟨change, hmeans, hsettings, hc₁⟩ := settings_step hfirst hc
    obtain ⟨hclear, hset⟩ := hes
    refine ih hrest hc₁ ⟨fun hmem => hclear (List.mem_cons_of_mem _ hmem), fun attr value hmem =>
      hset attr value (List.mem_cons_of_mem _ hmem)⟩ ?_
    rw [hsettings]
    cases hmeans with
    | clear => exact absurd (List.mem_cons_self ..) hclear
    | setAttr attr value =>
      rw [Change.apply, Function.update_of_ne (hset attr value (List.mem_cons_self ..)), hv]
    | parse => simp [Change.apply, hname, hv]

end settings

end Sstoraged.JsonText
