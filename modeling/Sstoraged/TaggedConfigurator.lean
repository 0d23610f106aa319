import Sstoraged.Json
import Sstoraged.OrderedMap
import Sstoraged.Runs

namespace Sstoraged

open Json

/-- What a configurator asks of its infos: the key, the stored value, the validator, and the
constructor from a stored value and its position. -/
structure ConfigInfo (INFO KEY VALUE : Type) where
  getKey : INFO → Except (Failure String) KEY
  serialize : INFO → Except (Failure String) VALUE
  valid : INFO → Except (Failure String) Bool
  load : VALUE → Nat → Except (Failure String) INFO

/-- The stored values, and the cursor over them that all iterators share: its position, the
position that the cached info was read at, and that info. -/
structure TaggedConfigurator (INFO VALUE : Type) where
  root : List VALUE
  index : Nat
  prevIndex : Nat
  currentInfo : Option INFO

namespace TaggedConfigurator

variable {INFO KEY VALUE : Type} (C : ConfigInfo INFO KEY VALUE)

def new (root : List VALUE) : TaggedConfigurator INFO VALUE := ⟨root, 0, 0, none⟩

/-- No iterator in use leads behind the end. -/
def get (root : List VALUE) (key : Nat) : Except (Failure String) INFO :=
  match root[key]? with
  | none => .error .assertion
  | some value => C.load value key

/-- Whether an iterator is not the end, and the cursor. -/
abbrev Iterator (INFO VALUE : Type) := Bool × TaggedConfigurator INFO VALUE

def begin (t : TaggedConfigurator INFO VALUE) : Except (Failure String) (Iterator INFO VALUE) :=
  if t.root.length = 0 then .ok (false, t)
  else do
    let info ← get C t.root 0
    return (true, { t with index := 0, prevIndex := 0, currentInfo := some info })

def next (t : TaggedConfigurator INFO VALUE) : Iterator INFO VALUE :=
  (decide (t.index + 1 < t.root.length), { t with index := t.index + 1 })

/-- The cached info is read anew only at another position. -/
def current (t : TaggedConfigurator INFO VALUE) : Except (Failure String)
    (INFO × TaggedConfigurator INFO VALUE) :=
  if t.index ≠ t.prevIndex then do
    let info ← get C t.root t.index
    return (info, { t with currentInfo := some info, prevIndex := t.index })
  else
    match t.currentInfo with
    | none => .error .assertion
    | some info => .ok (info, t)

/-- The deletion at a position, and whether there was something. -/
def delAt (root : List VALUE) (key : Nat) : Bool × List VALUE :=
  (decide (key < root.length), root.eraseIdx key)

section search

variable [DecidableEq KEY]

def findLoop (key : KEY) : Nat → TaggedConfigurator INFO VALUE →
    Except (Failure String) (Iterator INFO VALUE)
  | 0, t => .ok (false, t)
  | fuel + 1, t => do
    let (info, t) ← t.current C
    if (← C.getKey info) = key then return (true, t)
    else
      match t.next with
      | (true, t) => findLoop key fuel t
      | (false, t) => return (false, t)

def find (t : TaggedConfigurator INFO VALUE) (key : KEY) :
    Except (Failure String) (Iterator INFO VALUE) := do
  let (inUse, t) ← t.begin C
  if inUse then findLoop C key t.root.length t else return (false, t)

def add (t : TaggedConfigurator INFO VALUE) (info : INFO) :
    Except (Failure String) (Bool × TaggedConfigurator INFO VALUE) := do
  let (found, t) ← t.find C (← C.getKey info)
  if found then return (false, t)
  else if ← C.valid info then return (true, { t with root := t.root ++ [← C.serialize info] })
  else return (false, t)

def del (t : TaggedConfigurator INFO VALUE) (key : KEY) :
    Except (Failure String) (Bool × TaggedConfigurator INFO VALUE) := do
  let (found, t) ← t.find C key
  if found then return ((delAt t.root t.index).1, { t with root := (delAt t.root t.index).2 })
  else return (false, t)

end search

/-- The position is decremented, and incremented again by the iterator that is returned. -/
def remove (t : TaggedConfigurator INFO VALUE) : Iterator INFO VALUE :=
  let root := (delAt t.root t.index).2
  (decide (t.index < root.length), { t with root })

def clearLoop : Nat → Iterator INFO VALUE → TaggedConfigurator INFO VALUE
  | fuel + 1, (true, t) => clearLoop fuel t.remove
  | _, (_, t) => t

def clear (t : TaggedConfigurator INFO VALUE) : Except (Failure String)
    (TaggedConfigurator INFO VALUE) := do
  let (inUse, t) ← t.begin C
  return clearLoop t.root.length (inUse, t)

def update (t : TaggedConfigurator INFO VALUE) (info : INFO) :
    Except (Failure String) (Bool × TaggedConfigurator INFO VALUE) :=
  if t.root.length < t.index then .ok (false, t)
  else do
    if ← C.valid info then
      let value ← C.serialize info
      return (true,
        { t with
          root := if t.index < t.root.length then t.root.set t.index value else t.root ++ [value] })
    else return (false, t)

/-- The value is that of an info with the key, wherever it is stored. -/
def Holds (value : VALUE) (key : KEY) : Prop :=
  ∀ k, ∃ info, C.load value k = .ok info ∧ C.getKey info = .ok key

/-- A valid info is stored with its key. -/
def Keyed : Prop :=
  ∀ info key, C.getKey info = .ok key → C.valid info = .ok true →
    ∃ value, C.serialize info = .ok value ∧ Holds C value key

/-- The stored values are those of an ordered map. -/
structure Tracks (t : TaggedConfigurator INFO VALUE) (m : OrderedMap KEY VALUE) : Prop where
  root : t.root = m.values
  holds : ∀ e ∈ m.entries, Holds C e.2 e.1

/-- The info at a position has the key. -/
def KeyAt (root : List VALUE) (i : Nat) (key : KEY) : Prop :=
  ∃ info, get C root i = .ok info ∧ C.getKey info = .ok key

def Readable (root : List VALUE) : Prop := ∀ i < root.length, ∃ key, KeyAt C root i key

/-- A valid info, with a key that no stored one has. -/
def Accepts (root : List VALUE) (info : INFO) : Prop :=
  ∃ key, C.getKey info = .ok key ∧ (∀ i < root.length, ¬KeyAt C root i key) ∧ C.valid info = .ok true

/-- The cursor stands at an entry, and what is cached there is the info of the entry. -/
structure At (t : TaggedConfigurator INFO VALUE) : Prop where
  lt : t.index < t.root.length
  le : t.prevIndex ≤ t.index
  cached : t.prevIndex = t.index → ∃ info, get C t.root t.index = .ok info ∧ t.currentInfo = some info

section spec

variable {C} {t : TaggedConfigurator INFO VALUE} {m : OrderedMap KEY VALUE}

theorem Tracks.length (h : Tracks C t m) : t.root.length = m.entries.length := by
  rw [h.root, m.length_values]

theorem Tracks.congr (h : Tracks C t m) {t' : TaggedConfigurator INFO VALUE} (hroot : t'.root = t.root) :
    Tracks C t' m := ⟨hroot.trans h.root, h.holds⟩

theorem Tracks.eraseAt (h : Tracks C t m) {t' : TaggedConfigurator INFO VALUE} (i : Nat)
    (hroot : t'.root = t.root.eraseIdx i) : Tracks C t' (m.eraseAt i) := by
  refine ⟨?_, fun e he => h.holds e (List.mem_of_mem_eraseIdx he)⟩
  rw [hroot, OrderedMap.values_eraseAt, h.root]

theorem Tracks.get (h : Tracks C t m) {i : Nat} (hlt : i < t.root.length) (k : Nat) :
    ∃ value info key, t.root[i]? = some value ∧ m.keys[i]? = some key ∧ C.load value k = .ok info ∧
      C.getKey info = .ok key := by
  have hlt' : i < m.entries.length := h.length ▸ hlt
  obtain ⟨info, hload, hkey⟩ := h.holds m.entries[i] (List.getElem_mem hlt') k
  refine ⟨m.entries[i].2, info, m.entries[i].1, ?_, ?_, hload, hkey⟩
  · rw [h.root, OrderedMap.values, List.getElem?_map, List.getElem?_eq_getElem hlt']
    rfl
  · rw [OrderedMap.keys, List.getElem?_map, List.getElem?_eq_getElem hlt']
    rfl

theorem get_eq {root : List VALUE} {i : Nat} {value : VALUE} (h : root[i]? = some value) :
    get C root i = C.load value i := by
  unfold TaggedConfigurator.get
  rw [h]

theorem KeyAt.unique {root : List VALUE} {i : Nat} {key key' : KEY} (h : KeyAt C root i key)
    (h' : KeyAt C root i key') : key = key' := by
  obtain ⟨info, hget, hkey⟩ := h
  obtain ⟨info', hget', hkey'⟩ := h'
  obtain rfl := Except.ok.inj (hget.symm.trans hget')
  exact Except.ok.inj (hkey.symm.trans hkey')

theorem Tracks.readable (h : Tracks C t m) : Readable C t.root := by
  intro i hlt
  obtain ⟨value, info, key, hvalue, -, hload, hkey⟩ := h.get hlt i
  exact ⟨key, info, (get_eq hvalue).trans hload, hkey⟩

theorem Tracks.keyAt_iff (h : Tracks C t m) {i : Nat} (hlt : i < t.root.length) {key : KEY} :
    KeyAt C t.root i key ↔ m.keys[i]? = some key := by
  obtain ⟨value, info, key', hvalue, hkeys, hload, hkey⟩ := h.get hlt i
  have hat : KeyAt C t.root i key' := ⟨info, (get_eq hvalue).trans hload, hkey⟩
  constructor
  · intro h'
    rw [hkeys, hat.unique h']
  · intro hkeys'
    obtain rfl := Option.some.inj (hkeys.symm.trans hkeys')
    exact hat

theorem Tracks.not_keyAt (h : Tracks C t m) {key : KEY} (hkey : key ∉ m.keys) :
    ∀ i < t.root.length, ¬KeyAt C t.root i key :=
  fun _ hi hkeyAt => hkey (List.mem_of_getElem? ((h.keyAt_iff hi).mp hkeyAt))

theorem current_cached (hprev : t.prevIndex = t.index) {info : INFO}
    (hcached : t.currentInfo = some info) :
    t.current C = .ok (info, t) := by
  unfold current
  rw [if_neg (not_not.mpr hprev.symm), hcached]

theorem current_anew (hprev : t.prevIndex ≠ t.index) {info : INFO}
    (hget : get C t.root t.index = .ok info) :
    t.current C = .ok (info, { t with currentInfo := some info, prevIndex := t.index }) := by
  unfold current
  rw [if_pos (Ne.symm hprev), hget]
  rfl

theorem current_eq (hat : At C t) {info : INFO}
    (hget : TaggedConfigurator.get C t.root t.index = .ok info) :
    t.current C = .ok (info, { t with currentInfo := some info, prevIndex := t.index }) := by
  by_cases hprev : t.prevIndex = t.index
  · obtain ⟨info', hget', hcached⟩ := hat.cached hprev
    obtain rfl := Except.ok.inj (hget.symm.trans hget')
    rw [current_cached hprev hcached]
    obtain ⟨root, index, prevIndex, currentInfo⟩ := t
    obtain rfl : prevIndex = index := hprev
    obtain rfl : currentInfo = some info := hcached
    rfl
  · exact current_anew hprev hget

theorem update_eq (hlt : t.index < t.root.length) (info : INFO) :
    t.update C info = (C.valid info >>= fun b => if b then
      C.serialize info >>= fun value => .ok (true, { t with root := t.root.set t.index value })
        else .ok (false, t)) := by
  unfold update
  rw [if_neg (Nat.not_lt.mpr (Nat.le_of_lt hlt))]
  simp only [if_pos hlt]
  rfl

theorem at_current (hat : At C t) {info : INFO}
    (hget : TaggedConfigurator.get C t.root t.index = .ok info) :
    At C { t with currentInfo := some info, prevIndex := t.index } :=
  ⟨hat.lt, Nat.le_refl _, fun _ => ⟨info, hget, rfl⟩⟩

theorem at_next (hat : At C t) (hlt : t.index + 1 < t.root.length) :
    At C { t with index := t.index + 1 } := by
  refine ⟨hlt, Nat.le_succ_of_le hat.le, fun heq => ?_⟩
  exact absurd hat.le (Nat.not_le.mpr (heq ▸ Nat.lt_succ_self _))

theorem begin_eq (h : Readable C t.root) : t.root.length = 0 ∧ t.begin C = .ok (false, t) ∨
    0 < t.root.length ∧ ∃ t', t.begin C = .ok (true, t') ∧ t'.root = t.root ∧
      t'.index = 0 ∧ At C t' := by
  obtain hzero | hpos := Nat.eq_zero_or_pos t.root.length
  · exact .inl ⟨hzero, if_pos hzero⟩
  · obtain ⟨key, info, hget, -⟩ := h 0 hpos
    refine .inr ⟨hpos, { t with index := 0, prevIndex := 0, currentInfo := some info }, ?_, rfl,
      rfl, hpos, Nat.le_refl _,
      fun _ => ⟨info, hget, rfl⟩⟩
    unfold begin
    rw [if_neg (Nat.ne_of_gt hpos), hget]
    rfl

section search

variable [DecidableEq KEY]

/-- The search from the cursor on, when no entry before it has the key. It ends at an entry
that is in the cache. -/
theorem findLoop_eq (key : KEY) (fuel : Nat) : ∀ {t : TaggedConfigurator INFO VALUE},
    Readable C t.root → At C t →
    t.root.length ≤ t.index + fuel → (∀ i < t.index, ¬KeyAt C t.root i key) →
    (∃ t', findLoop C key fuel t = .ok (true, t') ∧ KeyAt C t.root t'.index key ∧
      t'.root = t.root ∧ At C t' ∧
      t'.prevIndex = t'.index) ∨
      (∀ i < t.root.length, ¬KeyAt C t.root i key) ∧ ∃ t', findLoop C key fuel t = .ok (false, t') ∧
        t'.root = t.root := by
  induction fuel with
  | zero =>
    intro t h hat hfuel
    exact absurd hat.lt (Nat.not_lt.mpr hfuel)
  | succ fuel ih =>
    intro t h hat hfuel hbefore
    obtain ⟨key', hkeyAt⟩ := h t.index hat.lt
    obtain ⟨info, hget, hkey⟩ := id hkeyAt
    have hat' := at_current hat hget
    have hloop : findLoop C key (fuel + 1) t =
        if key' = key then .ok (true, { t with currentInfo := some info, prevIndex := t.index })
        else
          match next { t with currentInfo := some info, prevIndex := t.index } with
          | (true, t) => findLoop C key fuel t
          | (false, t) => .ok (false, t) := by
      simp only [findLoop, current_eq hat hget, bind, Except.bind, hkey, pure, Except.pure]
    rw [hloop]
    by_cases heq : key' = key
    · rw [if_pos heq]
      subst heq
      exact .inl ⟨_, rfl, hkeyAt, rfl, hat', rfl⟩
    · rw [if_neg heq]
      have hbefore' : ∀ i < t.index + 1, ¬KeyAt C t.root i key := by
        intro i hi hkeyAt'
        obtain hlt | rfl := Nat.lt_succ_iff_lt_or_eq.mp hi
        · exact hbefore i hlt hkeyAt'
        · exact heq (hkeyAt.unique hkeyAt')
      unfold next
      by_cases hlt : t.index + 1 < t.root.length
      · dsimp only
        rw [decide_eq_true hlt]
        exact ih h (at_next hat' hlt) (by dsimp only; omega) hbefore'
      · dsimp only
        rw [decide_eq_false hlt]
        exact .inr ⟨fun i hi => hbefore' i (by omega), _, rfl, rfl⟩

theorem find_eq (h : Readable C t.root) (key : KEY) :
    (∃ t', t.find C key = .ok (true, t') ∧ KeyAt C t.root t'.index key ∧ t'.root = t.root ∧ At C t' ∧
      t'.prevIndex = t'.index) ∨
      (∀ i < t.root.length, ¬KeyAt C t.root i key) ∧ ∃ t', t.find C key = .ok (false, t') ∧
        t'.root = t.root := by
  unfold find
  obtain ⟨hzero, hbegin⟩ | ⟨hpos, t', hbegin, hroot, hindex, hat⟩ := begin_eq h
  · rw [hbegin]
    refine .inr ⟨fun i hi => ?_, t, rfl, rfl⟩
    rw [hzero] at hi
    exact absurd hi (Nat.not_lt_zero i)
  · rw [hbegin, ← hroot]
    have hloop := findLoop_eq key t'.root.length (hroot ▸ h) hat (Nat.le_add_left _ _)
      (fun i hi => absurd hi (by rw [hindex]; exact Nat.not_lt_zero i))
    exact hloop

theorem add_eq (h : Readable C t.root) {info : INFO} {key : KEY} (hkey : C.getKey info = .ok key) :
    (∃ i < t.root.length, KeyAt C t.root i key) ∧
      (∃ t', t.add C info = .ok (false, t') ∧ t'.root = t.root) ∨
      (∀ i < t.root.length, ¬KeyAt C t.root i key) ∧ ∃ t', t'.root = t.root ∧
        t.add C info = (C.valid info >>= fun b => if b then
          C.serialize info >>= fun value => .ok (true, { t' with root := t.root ++ [value] })
            else .ok (false, t')) := by
  have hadd : t.add C info = (t.find C key >>= fun r => if r.1 then .ok (false, r.2) else
      C.valid info >>= fun b => if b then
        C.serialize info >>= fun value => .ok (true, { r.2 with root := r.2.root ++ [value] })
          else .ok (false, r.2)) := by
    unfold add
    rw [hkey]
    rfl
  rw [hadd]
  obtain ⟨t', hfind, hindex, hroot, hat, -⟩ | ⟨hnot, t', hfind, hroot⟩ := find_eq h key
  · rw [hfind]
    exact .inl ⟨⟨t'.index, hroot ▸ hat.lt, hindex⟩, t', rfl, hroot⟩
  · rw [hfind, ← hroot]
    exact .inr ⟨hroot ▸ hnot, t', rfl, rfl⟩

theorem add_cases (h : Readable C t.root) (info : INFO)
    (hserialize : C.valid info = .ok true → ∃ value, C.serialize info = .ok value) :
    Accepts C t.root info ∧ (∃ value t', C.serialize info = .ok value ∧ t.add C info = .ok (true, t') ∧
      t'.root = t.root ++ [value]) ∨
      ¬Accepts C t.root info ∧
        ((∃ t', t.add C info = .ok (false, t') ∧ t'.root = t.root) ∨
          ∃ failure, t.add C info = .error failure) := by
  cases hkey : C.getKey info with
  | error failure =>
    refine .inr ⟨?_, .inr ⟨failure, ?_⟩⟩
    · rintro ⟨key, hkey', -⟩
      cases hkey.symm.trans hkey'
    · unfold add
      rw [hkey]
      rfl
  | ok key =>
    obtain ⟨⟨i, hi, hkeyAt⟩, hadd⟩ | ⟨hnot, t', hroot, hadd⟩ := add_eq h hkey
    · refine .inr ⟨?_, .inl hadd⟩
      rintro ⟨key', hkey', hnot, -⟩
      obtain rfl := Except.ok.inj (hkey.symm.trans hkey')
      exact hnot i hi hkeyAt
    · rw [hadd]
      cases hvalid : C.valid info with
      | error failure =>
        refine .inr ⟨?_, .inr ⟨failure, rfl⟩⟩
        rintro ⟨-, -, -, hvalid'⟩
        cases hvalid.symm.trans hvalid'
      | ok b =>
        cases b with
        | false =>
          refine .inr ⟨?_, .inl ⟨t', rfl, hroot⟩⟩
          rintro ⟨-, -, -, hvalid'⟩
          cases hvalid.symm.trans hvalid'
        | true =>
          obtain ⟨value, hvalue⟩ := hserialize hvalid
          refine .inl ⟨⟨key, hkey, hnot, hvalid⟩, value, { t' with root := t.root ++ [value] },
            hvalue, ?_, rfl⟩
          rw [hvalue]
          rfl

theorem del_eq (h : Readable C t.root) (key : KEY) :
    (∃ t' i, KeyAt C t.root i key ∧ i < t.root.length ∧ t.del C key = .ok (true, t') ∧
      t'.root = t.root.eraseIdx i) ∨
      (∀ i < t.root.length, ¬KeyAt C t.root i key) ∧ ∃ t', t.del C key = .ok (false, t') ∧
        t'.root = t.root := by
  unfold del delAt
  obtain ⟨t', hfind, hindex, hroot, hat, -⟩ | ⟨hnot, t', hfind, hroot⟩ := find_eq h key
  · refine .inl ⟨{ t' with root := t'.root.eraseIdx t'.index }, t'.index, hindex, hroot ▸ hat.lt, ?_, ?_⟩
    · rw [hfind]
      change Except.ok (decide (t'.index < t'.root.length), _) = _
      rw [decide_eq_true hat.lt]
    · dsimp only
      rw [hroot]
  · rw [hfind]
    exact .inr ⟨hnot, t', rfl, hroot⟩

theorem find_of_mem (h : Tracks C t m) {key : KEY} {i : Nat} (hkey : m.keys[i]? = some key) :
    ∃ t', t.find C key = .ok (true, t') ∧ t'.index = i ∧ t'.root = t.root ∧ At C t' := by
  obtain ⟨t', hfind, hindex, hroot, hat, -⟩ | ⟨hnot, -⟩ := find_eq h.readable key
  · exact ⟨t', hfind, m.index_unique ((h.keyAt_iff (hroot ▸ hat.lt)).mp hindex) hkey, hroot, hat⟩
  · have hlt := (List.getElem?_eq_some_iff.mp hkey).1
    rw [m.length_keys, ← h.length] at hlt
    exact absurd ((h.keyAt_iff hlt).mpr hkey) (hnot i hlt)

theorem find_of_not_mem (h : Tracks C t m) {key : KEY} (hkey : key ∉ m.keys) :
    ∃ t', t.find C key = .ok (false, t') ∧ t'.root = t.root := by
  obtain ⟨t', -, hindex, hroot, hat, -⟩ | ⟨-, hfind⟩ := find_eq h.readable key
  · exact absurd hindex (h.not_keyAt hkey _ (hroot ▸ hat.lt))
  · exact hfind

theorem add_of_mem (h : Tracks C t m) {info : INFO} {key : KEY} (hkey : C.getKey info = .ok key)
    (hmem : key ∈ m.keys) :
    ∃ t', t.add C info = .ok (false, t') ∧ Tracks C t' m := by
  obtain ⟨i, hi⟩ := List.mem_iff_getElem?.mp hmem
  have hlt := (List.getElem?_eq_some_iff.mp hi).1
  rw [m.length_keys, ← h.length] at hlt
  obtain ⟨-, t', hadd, hroot⟩ | ⟨hnot, -⟩ := add_eq h.readable hkey
  · exact ⟨t', hadd, h.congr hroot⟩
  · exact absurd ((h.keyAt_iff hlt).mpr hi) (hnot i hlt)

theorem add_of_not_mem (h : Tracks C t m) {info : INFO} {key : KEY} (hkey : C.getKey info = .ok key)
    (hmem : key ∉ m.keys) : (C.valid info = .ok false → ∃ t', t.add C info = .ok (false, t') ∧
      Tracks C t' m) ∧
      (∀ failure, C.valid info = .error failure → t.add C info = .error failure) ∧
      (Keyed C → C.valid info = .ok true → ∃ value t', C.serialize info = .ok value ∧
        t.add C info = .ok (true, t') ∧
        Tracks C t' (m.add key value hmem)) := by
  obtain ⟨⟨i, hi, hkeyAt⟩, -⟩ | ⟨-, t', hroot, hadd⟩ := add_eq h.readable hkey
  · exact absurd hkeyAt (h.not_keyAt hmem i hi)
  rw [hadd]
  refine ⟨?_, ?_, ?_⟩
  · intro hvalid
    rw [hvalid]
    exact ⟨t', rfl, h.congr hroot⟩
  · intro failure hvalid
    rw [hvalid]
    rfl
  · intro hkeyed hvalid
    obtain ⟨value, hserialize, hholds⟩ := hkeyed info key hkey hvalid
    rw [hvalid, hserialize]
    refine ⟨value, _, rfl, rfl, ?_, List.forall_mem_append.mpr
      ⟨h.holds, List.forall_mem_singleton.mpr hholds⟩⟩
    rw [OrderedMap.values_add, ← h.root]

theorem del_of_mem (h : Tracks C t m) {key : KEY} {i : Nat} (hkey : m.keys[i]? = some key) :
    ∃ t', t.del C key = .ok (true, t') ∧ Tracks C t' (m.eraseAt i) := by
  obtain ⟨t', j, hkeyAt, hlt, hdel, hroot⟩ | ⟨hnot, -⟩ := del_eq h.readable key
  · obtain rfl := m.index_unique ((h.keyAt_iff hlt).mp hkeyAt) hkey
    exact ⟨t', hdel, h.eraseAt j hroot⟩
  · have hlt := (List.getElem?_eq_some_iff.mp hkey).1
    rw [m.length_keys, ← h.length] at hlt
    exact absurd ((h.keyAt_iff hlt).mpr hkey) (hnot i hlt)

theorem del_of_not_mem (h : Tracks C t m) {key : KEY} (hkey : key ∉ m.keys) :
    ∃ t', t.del C key = .ok (false, t') ∧ Tracks C t' m := by
  obtain ⟨t', i, hkeyAt, hlt, -⟩ | ⟨-, t', hdel, hroot⟩ := del_eq h.readable key
  · exact absurd hkeyAt (h.not_keyAt hkey i hlt)
  · exact ⟨t', hdel, h.congr hroot⟩

end search

end spec

/-- The cursor dereferences to the info of a value. -/
def Reads (t : TaggedConfigurator INFO VALUE) (value : Option VALUE) : Prop :=
  ∃ v info t', value = some v ∧ C.load v t.index = .ok info ∧ t.current C = .ok (info, t') ∧
    t'.root = t.root

/-- A call of a configurator, or the use of the iterator that the last one returned. -/
inductive Event (INFO KEY : Type)
  | add (info : INFO)
  | del (key : KEY)
  | find (key : KEY)
  | begin
  | next
  | deref
  | remove
  | clear

/-- A configurator, and whether there is an iterator in use that is not the end. -/
structure Use (INFO VALUE : Type) where
  t : TaggedConfigurator INFO VALUE
  live : Bool

/-- An exception leaves the stored values, but no iterator. -/
def Use.after {A : Type} (s : Use INFO VALUE) (r : Except (Failure String) A)
    (use : A → Use INFO VALUE) : Use INFO VALUE :=
  match r with
  | .ok a => use a
  | .error _ => ⟨s.t, false⟩

section step

variable [DecidableEq KEY]

def step (s : Use INFO VALUE) : Event INFO KEY → Option (Use INFO VALUE)
  | .add info => some (s.after (s.t.add C info) fun r => ⟨r.2, false⟩)
  | .del key => some (s.after (s.t.del C key) fun r => ⟨r.2, false⟩)
  | .find key => some (s.after (s.t.find C key) fun r => ⟨r.2, r.1⟩)
  | .begin => some (s.after (s.t.begin C) fun r => ⟨r.2, r.1⟩)
  | .next => if s.live then some ⟨s.t.next.2, s.t.next.1⟩ else none
  | .deref => if s.live then some (s.after (s.t.current C) fun r => ⟨r.2, true⟩) else none
  | .remove => if s.live then some ⟨s.t.remove.2, s.t.remove.1⟩ else none
  | .clear => some (s.after (s.t.clear C) fun t => ⟨t, false⟩)

/-- What an event is to do to an ordered map with a cursor. -/
def Right (s : Use INFO VALUE) (e : Event INFO KEY) : Prop :=
  ∀ m, Tracks C s.t m →
    match e with
    | .add info => ∀ key, C.getKey info = .ok key →
        (key ∈ m.keys → ∃ t', s.t.add C info = .ok (false, t') ∧ Tracks C t' m) ∧
        ∀ h : key ∉ m.keys,
          (C.valid info = .ok false → ∃ t', s.t.add C info = .ok (false, t') ∧ Tracks C t' m) ∧
          (∀ failure, C.valid info = .error failure → s.t.add C info = .error failure) ∧
          (C.valid info = .ok true → ∃ value t', C.serialize info = .ok value ∧
            s.t.add C info = .ok (true, t') ∧ Tracks C t' (m.add key value h))
    | .del key =>
        (∀ i, m.keys[i]? = some key → ∃ t', s.t.del C key = .ok (true, t') ∧ Tracks C t' (m.eraseAt i)) ∧
        (key ∉ m.keys → ∃ t', s.t.del C key = .ok (false, t') ∧ Tracks C t' m)
    | .find key =>
        (∀ i, m.keys[i]? = some key → ∃ t', s.t.find C key = .ok (true, t') ∧ t'.index = i ∧
          Tracks C t' m) ∧
        (key ∉ m.keys → ∃ t', s.t.find C key = .ok (false, t') ∧ Tracks C t' m)
    | .begin =>
      ∃ t', s.t.begin C = .ok (decide (m.entries ≠ []), t') ∧ (m.entries ≠ [] → t'.index = 0) ∧
        Tracks C t' m
    | .next => s.live = true → s.t.next.1 = decide (s.t.index + 1 < m.entries.length) ∧
        s.t.next.2.index = s.t.index + 1 ∧ Tracks C s.t.next.2 m
    | .deref => s.live = true → Reads C s.t m.values[s.t.index]?
    | .remove => s.live = true → Tracks C s.t.remove.2 (m.eraseAt s.t.index) ∧
        s.t.remove.1 = decide (s.t.index + 1 < m.entries.length) ∧
        (s.t.remove.1 = true → Reads C s.t.remove.2 m.values[s.t.index + 1]?)
    | .clear => ∃ t', s.t.clear C = .ok t' ∧ t'.root = []

end step

/-- An entry that is removed is the last one, or it was not looked at since the cursor came
to it. -/
def Unread (s : Use INFO VALUE) : Event INFO KEY → Prop
  | .remove => s.live = true → s.t.index + 1 < s.t.root.length → s.t.prevIndex ≠ s.t.index
  | _ => True

/-- The stored values are a map, and the cursor of an iterator in use is right. -/
structure Inv (s : Use INFO VALUE) : Prop where
  tracks : ∃ m : OrderedMap KEY VALUE, Tracks C s.t m
  at_live : s.live = true → At C s.t

section runs

variable {C} {s s' : Use INFO VALUE}

theorem remove_root (t : TaggedConfigurator INFO VALUE) :
    t.remove.2.root = t.root.eraseIdx t.index := rfl

/-- The iterator that a removal returns reads the entry behind the removed one, if and only
if the removed one is not in the cache. -/
theorem remove_reads {t : TaggedConfigurator INFO VALUE} {m : OrderedMap KEY VALUE}
    (h : Tracks C t m) (hat : At C t)
    (hlt : t.index + 1 < t.root.length) :
    Reads C t.remove.2 m.values[t.index + 1]? ↔ t.prevIndex ≠ t.index := by
  obtain ⟨value, info, key, hvalue, hkeys, hload, hkey⟩ := h.get hlt t.index
  have hnext : t.remove.2.root[t.index]? = some value := by
    rw [remove_root, List.getElem?_eraseIdx, if_neg (Nat.lt_irrefl _), hvalue]
  have hvalue' : m.values[t.index + 1]? = some value := by rw [← h.root, hvalue]
  constructor
  · rintro ⟨v, info', t', hv, hload', hcurrent, -⟩ hprev
    obtain rfl := Option.some.inj (hvalue'.symm.trans hv)
    -- the cached info is that of the removed entry, whose key is another one
    obtain ⟨cached, hget, hcached⟩ := hat.cached hprev
    obtain ⟨old, oldInfo, oldKey, hold, holdKeys, holdLoad, holdKey⟩ := h.get hat.lt t.index
    obtain rfl := Except.ok.inj (holdLoad.symm.trans ((get_eq hold).symm.trans hget))
    have hstale : t.remove.2.current C = .ok (oldInfo, t.remove.2) :=
      current_cached (t := t.remove.2) hprev hcached
    obtain ⟨rfl, -⟩ := Prod.mk.inj (Except.ok.inj (hstale.symm.trans hcurrent))
    obtain rfl := Except.ok.inj (hload.symm.trans hload')
    obtain rfl := Except.ok.inj (hkey.symm.trans holdKey)
    exact absurd (m.index_unique hkeys holdKeys) (Nat.succ_ne_self _)
  · intro hprev
    exact ⟨value, info, _, hvalue', hload, current_anew (t := t.remove.2) hprev
      ((get_eq hnext).trans hload), rfl⟩

theorem remove_live {t : TaggedConfigurator INFO VALUE} {m : OrderedMap KEY VALUE}
    (h : Tracks C t m) (hat : At C t) :
    t.remove.1 = decide (t.index + 1 < m.entries.length) := by
  have hlength : t.remove.2.root.length = m.entries.length - 1 := by
    rw [remove_root, List.length_eraseIdx_of_lt hat.lt, h.length]
  have hremove : t.remove.1 = decide (t.index < t.remove.2.root.length) := rfl
  rw [hremove, hlength]
  exact decide_eq_decide.mpr ⟨fun hlt => by omega, fun hlt => by omega⟩

theorem at_remove {t : TaggedConfigurator INFO VALUE} (hat : At C t) (hlive : t.remove.1 = true)
    (hprev : t.prevIndex ≠ t.index) : At C t.remove.2 :=
  ⟨of_decide_eq_true hlive, hat.le, fun heq => absurd heq hprev⟩

theorem clearLoop_root (fuel : Nat) : ∀ t : TaggedConfigurator INFO VALUE, t.index = 0 →
    t.root.length = fuel →
    (clearLoop fuel (decide (0 < fuel), t)).root = [] := by
  induction fuel with
  | zero => exact fun t _ hlength => List.length_eq_zero_iff.mp hlength
  | succ fuel ih =>
    intro t hindex hlength
    have hlength' : t.remove.2.root.length = fuel := by
      rw [remove_root, List.length_eraseIdx_of_lt (by omega), hlength]
      rfl
    have hremove : t.remove = (decide (0 < fuel), t.remove.2) := by
      refine Prod.ext ?_ rfl
      change decide (t.index < t.remove.2.root.length) = _
      rw [hindex, hlength']
    rw [decide_eq_true (Nat.succ_pos fuel)]
    change (clearLoop fuel t.remove).root = []
    rw [hremove]
    exact ih _ hindex hlength'

theorem clear_eq {t : TaggedConfigurator INFO VALUE} {m : OrderedMap KEY VALUE} (h : Tracks C t m) :
    ∃ t', t.clear C = .ok t' ∧ t'.root = [] := by
  unfold clear
  obtain ⟨hzero, hbegin⟩ | ⟨-, t', hbegin, hroot, hindex, hat⟩ := begin_eq h.readable
  · rw [hbegin]
    refine ⟨_, rfl, ?_⟩
    rw [hzero]
    exact List.length_eq_zero_iff.mp hzero
  · rw [hbegin]
    refine ⟨_, rfl, ?_⟩
    have hpos : 0 < t'.root.length := Nat.lt_of_le_of_lt (Nat.zero_le _) hat.lt
    have hloop := clearLoop_root t'.root.length t' hindex rfl
    rwa [decide_eq_true hpos] at hloop

section search

variable [DecidableEq KEY]

theorem add_tracks (hC : Keyed C) {t t' : TaggedConfigurator INFO VALUE} {m : OrderedMap KEY VALUE}
    (h : Tracks C t m)
    {info : INFO} {b : Bool} (hadd : t.add C info = .ok (b, t')) : ∃ m' :
    OrderedMap KEY VALUE, Tracks C t' m' := by
  cases hkey : C.getKey info with
  | error failure =>
    unfold add at hadd
    rw [hkey] at hadd
    cases hadd
  | ok key =>
    by_cases hmem : key ∈ m.keys
    · obtain ⟨t₁, hadd', htracks⟩ := add_of_mem h hkey hmem
      cases hadd.symm.trans hadd'
      exact ⟨m, htracks⟩
    · obtain ⟨hfalse, hthrow, htrue⟩ := add_of_not_mem h hkey hmem
      cases hvalid : C.valid info with
      | error failure => cases hadd.symm.trans (hthrow failure hvalid)
      | ok valid =>
        cases valid with
        | false =>
          obtain ⟨t₁, hadd', htracks⟩ := hfalse hvalid
          cases hadd.symm.trans hadd'
          exact ⟨m, htracks⟩
        | true =>
          obtain ⟨value, t₁, -, hadd', htracks⟩ := htrue hC hvalid
          cases hadd.symm.trans hadd'
          exact ⟨_, htracks⟩

theorem del_tracks {t t' : TaggedConfigurator INFO VALUE} {m : OrderedMap KEY VALUE}
    (h : Tracks C t m) {key : KEY}
    {b : Bool} (hdel : t.del C key = .ok (b, t')) : ∃ m' : OrderedMap KEY VALUE, Tracks C t' m' := by
  by_cases hmem : key ∈ m.keys
  · obtain ⟨i, hi⟩ := List.mem_iff_getElem?.mp hmem
    obtain ⟨t₁, hdel', htracks⟩ := del_of_mem h hi
    cases hdel.symm.trans hdel'
    exact ⟨_, htracks⟩
  · obtain ⟨t₁, hdel', htracks⟩ := del_of_not_mem h hmem
    cases hdel.symm.trans hdel'
    exact ⟨m, htracks⟩

theorem right_iff (hC : Keyed C) (h : Inv C s) (e : Event INFO KEY) : Right C s e ↔ Unread s e := by
  cases e with
  | add info =>
    refine ⟨fun _ => trivial, fun _ m htracks key hkey => ⟨add_of_mem htracks hkey, fun hmem => ?_⟩⟩
    obtain ⟨hfalse, hthrow, htrue⟩ := add_of_not_mem htracks hkey hmem
    exact ⟨hfalse, hthrow, htrue hC⟩
  | del key =>
    exact ⟨fun _ => trivial, fun _ m htracks => ⟨fun i => del_of_mem htracks, del_of_not_mem htracks⟩⟩
  | find key =>
    refine ⟨fun _ => trivial, fun _ m htracks => ⟨fun i hi => ?_, fun hmem => ?_⟩⟩
    · obtain ⟨t', hfind, hindex, hroot, -⟩ := find_of_mem htracks hi
      exact ⟨t', hfind, hindex, htracks.congr hroot⟩
    · obtain ⟨t', hfind, hroot⟩ := find_of_not_mem htracks hmem
      exact ⟨t', hfind, htracks.congr hroot⟩
  | begin =>
    refine ⟨fun _ => trivial, fun _ m htracks => ?_⟩
    obtain ⟨hzero, hbegin⟩ | ⟨hpos, t', hbegin, hroot, hindex, -⟩ := begin_eq htracks.readable
    · have hnil : m.entries = [] := List.length_eq_zero_iff.mp (htracks.length ▸ hzero)
      exact ⟨s.t, by rw [decide_eq_false (not_not.mpr hnil), hbegin],
        fun hne => absurd hnil hne, htracks⟩
    · have hne : m.entries ≠ [] := List.ne_nil_of_length_pos (htracks.length ▸ hpos)
      exact ⟨t', by rw [decide_eq_true hne, hbegin], fun _ => hindex, htracks.congr hroot⟩
  | next =>
    refine ⟨fun _ => trivial, fun _ m htracks hlive => ⟨?_, rfl, htracks.congr rfl⟩⟩
    rw [← htracks.length]
    rfl
  | deref =>
    refine ⟨fun _ => trivial, fun _ m htracks hlive => ?_⟩
    have hat := h.at_live hlive
    obtain ⟨value, info, -, hvalue, -, hload, -⟩ := htracks.get hat.lt s.t.index
    exact ⟨value, info, _, by rw [← htracks.root, hvalue], hload,
      current_eq hat ((get_eq hvalue).trans hload), rfl⟩
  | remove =>
    constructor
    · intro hright hlive hlt
      obtain ⟨m, htracks⟩ := h.tracks
      obtain ⟨-, hremove, hreads⟩ := hright m htracks hlive
      rw [htracks.length] at hlt
      exact (remove_reads htracks (h.at_live hlive) (htracks.length ▸ hlt)).mp
        (hreads (hremove.trans (decide_eq_true hlt)))
    · intro hunread m htracks hlive
      have hat := h.at_live hlive
      refine ⟨htracks.eraseAt _ rfl, remove_live htracks hat, fun hremove => ?_⟩
      have hlt := of_decide_eq_true ((remove_live htracks hat).symm.trans hremove)
      rw [← htracks.length] at hlt
      exact (remove_reads htracks hat hlt).mpr (hunread hlive hlt)
  | clear =>
    exact ⟨fun _ => trivial, fun _ m htracks => clear_eq htracks⟩

theorem inv_step (hC : Keyed C) (h : Inv C s) {e : Event INFO KEY} (hright : Right C s e)
    (hstep : step C s e = some s') : Inv C s' := by
  obtain ⟨m, htracks⟩ := h.tracks
  have herror : ∀ {t}, (⟨s.t, false⟩ : Use INFO VALUE) = t → Inv C t := by
    rintro _ rfl
    exact ⟨⟨m, htracks⟩, nofun⟩
  cases e with
  | add info =>
    obtain rfl := Option.some.inj hstep
    cases hadd : s.t.add C info with
    | error failure => exact herror rfl
    | ok r => exact ⟨add_tracks hC htracks hadd, nofun⟩
  | del key =>
    obtain rfl := Option.some.inj hstep
    cases hdel : s.t.del C key with
    | error failure => exact herror rfl
    | ok r => exact ⟨del_tracks htracks hdel, nofun⟩
  | find key =>
    obtain rfl := Option.some.inj hstep
    obtain ⟨t', hfind, -, hroot, hat, -⟩ | ⟨-, t', hfind, hroot⟩ := find_eq htracks.readable key
    · rw [hfind]
      exact ⟨⟨m, htracks.congr hroot⟩, fun _ => hat⟩
    · rw [hfind]
      exact ⟨⟨m, htracks.congr hroot⟩, nofun⟩
  | begin =>
    obtain rfl := Option.some.inj hstep
    obtain ⟨-, hbegin⟩ | ⟨-, t', hbegin, hroot, -, hat⟩ := begin_eq htracks.readable
    · rw [hbegin]
      exact ⟨⟨m, htracks⟩, nofun⟩
    · rw [hbegin]
      exact ⟨⟨m, htracks.congr hroot⟩, fun _ => hat⟩
  | next =>
    obtain ⟨hlive, hs⟩ := Option.ite_none_right_eq_some.mp hstep
    obtain rfl := Option.some.inj hs
    exact ⟨⟨m, htracks.congr rfl⟩, fun hnext => at_next (h.at_live hlive) (of_decide_eq_true hnext)⟩
  | deref =>
    obtain ⟨hlive, hs⟩ := Option.ite_none_right_eq_some.mp hstep
    obtain rfl := Option.some.inj hs
    have hat := h.at_live hlive
    obtain ⟨key, info, hget, -⟩ := htracks.readable s.t.index hat.lt
    rw [current_eq hat hget]
    exact ⟨⟨m, htracks.congr rfl⟩, fun _ => at_current hat hget⟩
  | remove =>
    have hunread := (right_iff hC h .remove).mp hright
    obtain ⟨hlive, hs⟩ := Option.ite_none_right_eq_some.mp hstep
    obtain rfl := Option.some.inj hs
    have hat := h.at_live hlive
    refine ⟨⟨_, htracks.eraseAt _ rfl⟩, fun hremove => at_remove hat hremove (hunread hlive ?_)⟩
    rw [htracks.length]
    exact of_decide_eq_true ((remove_live htracks hat).symm.trans hremove)
  | clear =>
    obtain rfl := Option.some.inj hstep
    obtain ⟨t', hclear, hroot⟩ := clear_eq htracks
    rw [hclear]
    exact ⟨⟨⟨[], List.nodup_nil⟩, hroot, List.forall_mem_nil _⟩,
      fun hlive => absurd hlive Bool.false_ne_true⟩

/-- Every call does to the map what it is to do, from any configurator whose stored values
are a map, if and only if no removed entry but the last one was looked at. -/
theorem ordered_iff_unread (hC : Keyed C) {t : TaggedConfigurator INFO VALUE} {m : OrderedMap KEY VALUE}
    (h : Tracks C t m) (es : List (Event INFO KEY)) :
    Runs.Along (step C) (Right C) ⟨t, false⟩ es ↔ Runs.Along (step C) Unread ⟨t, false⟩ es :=
  Runs.along_iff (Inv C) (fun _ e h => right_iff hC h e)
    (fun _ _ _ h hright hstep => inv_step hC h hright hstep)
    ⟨⟨m, h⟩, fun hlive => absurd hlive Bool.false_ne_true⟩ es

/-- Infos that are no more than their keys, and not zero. -/
def keysOnly : ConfigInfo Nat Nat Nat where
  getKey := .ok
  serialize := .ok
  valid key := .ok (decide (0 < key))
  load key _ := .ok key

theorem keyed_keysOnly : Keyed keysOnly := fun info _ hkey _ => ⟨info, rfl, fun _ => ⟨info, rfl, hkey⟩⟩

theorem tracks_new : Tracks keysOnly (new []) ⟨[], List.nodup_nil⟩ := ⟨rfl, List.forall_mem_nil _⟩

theorem ordered_first_of_two :
    Runs.Along (step keysOnly) (Right keysOnly) ⟨new [], false⟩
      [.add 1, .add 2, .begin, .next, .deref, .remove] ↔
      Runs.Along (step keysOnly) Unread ⟨new [], false⟩
        [.add 1, .add 2, .begin, .next, .deref, .remove] :=
  ordered_iff_unread keyed_keysOnly tracks_new _

theorem not_ordered_found_first :
    ¬Runs.Along (step keysOnly) (Right keysOnly) ⟨new [], false⟩ [.add 1, .add 2, .find 1, .remove] := by
  rintro ⟨-, hrest⟩
  obtain ⟨-, hrest⟩ := hrest ⟨⟨[1], 0, 0, none⟩, false⟩ rfl
  obtain ⟨-, hrest⟩ := hrest ⟨⟨[1, 2], 1, 0, some 1⟩, false⟩ rfl
  obtain ⟨hright, -⟩ := hrest ⟨⟨[1, 2], 0, 0, some 1⟩, true⟩ rfl
  have hinv : Inv keysOnly ⟨⟨[1, 2], 0, 0, some 1⟩, true⟩ := by
    refine ⟨⟨⟨[(1, 1), (2, 2)], by decide⟩, rfl, ?_⟩, fun _ => ⟨by decide, Nat.le_refl _, fun _ => ?_⟩⟩
    · simp [Holds, keysOnly]
    · exact ⟨1, rfl, rfl⟩
  exact (right_iff keyed_keysOnly hinv .remove).mp hright rfl (by decide) rfl

end search

end runs

end TaggedConfigurator

end Sstoraged
