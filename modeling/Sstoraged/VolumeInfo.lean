import Sstoraged.RealVolume

namespace Sstoraged.VolumeConfigurator

open Json TaggedConfigurator

/-- The main parts of a volume with the total that is kept of them, and its replicas. -/
structure VolumeInfo (Addr : Type) where
  orgs : TaggedConfigurator (RealVolume Addr) PartValue
  orgTotal : UInt64
  reps : TaggedConfigurator (RealVolumeArray Addr) (Option (List PartValue))

namespace VolumeInfo

variable (inet : HostUtil)

/-- The volume of a name that is not there. -/
def new : VolumeInfo inet.Addr := ⟨.new [], 0, .new []⟩

def totalLoop : Nat → TaggedConfigurator (RealVolume inet.Addr) PartValue → UInt64 →
    Except (Failure String) (UInt64 × TaggedConfigurator (RealVolume inet.Addr) PartValue)
  | 0, orgs, total => .ok (total, orgs)
  | fuel + 1, orgs, total => do
    let (volume, orgs) ← orgs.current (RealVolume.configInfo inet)
    match orgs.next with
    | (true, orgs) => totalLoop fuel orgs (total + volume.count)
    | (false, orgs) => return (total + volume.count, orgs)

/-- The volume of an object of the configuration, by its members. -/
def load (main : Option (List PartValue)) (copy : Option (List (Option (List PartValue)))) :
    Except (Failure String) (VolumeInfo inet.Addr) :=
  match main with
  | none => .error (.thrown "Main is not specified\n")
  | some main => do
    let (inUse, orgs) ← (TaggedConfigurator.new main).begin (RealVolume.configInfo inet)
    let (orgTotal, orgs) ← if inUse then totalLoop inet orgs.root.length orgs 0 else .ok (0, orgs)
    return ⟨orgs, orgTotal, .new (copy.getD [])⟩

variable {inet}

/-- The total is counted up first. -/
def appendOrgPart (v : VolumeInfo inet.Addr) (volume : RealVolume inet.Addr) :
    Except (Failure String) Bool × VolumeInfo inet.Addr :=
  let v := { v with orgTotal := v.orgTotal + volume.count }
  match v.orgs.add (RealVolume.configInfo inet) volume with
  | .error failure => (.error failure, v)
  | .ok (added, orgs) => (.ok added, { v with orgs })

def sectorSizeOrg (v : VolumeInfo inet.Addr) : UInt64 := v.orgTotal

/-- The index of the replica is returned whether or not it is stored. -/
def createRep (v : VolumeInfo inet.Addr) (volume : RealVolume inet.Addr) :
    Nat × Except (Failure String) Bool × VolumeInfo inet.Addr :=
  let index := v.reps.root.length
  match v.reps.add (RealVolumeArray.configInfo inet) (.new volume index) with
  | .error failure => (index, .error failure, v)
  | .ok (added, reps) => (index, .ok added, { v with reps })

/-- The cached replica is edited, and stored by an update whose result is dropped. -/
def appendRepPart (v : VolumeInfo inet.Addr) (index : Nat) (volume : RealVolume inet.Addr) :
    Except (Failure String) Bool × VolumeInfo inet.Addr :=
  match v.reps.find (RealVolumeArray.configInfo inet) index with
  | .error failure => (.error failure, v)
  | .ok (false, reps) => (.ok false, { v with reps })
  | .ok (true, reps) =>
    match reps.current (RealVolumeArray.configInfo inet) with
    | .error failure => (.error failure, { v with reps })
    | .ok (array, reps) =>
      let reps := { reps with currentInfo := some (array.add volume) }
      match reps.update (RealVolumeArray.configInfo inet) (array.add volume) with
      | .error failure => (.error failure, { v with reps })
      | .ok (_, reps) => (.ok true, { v with reps })

def removeRep (v : VolumeInfo inet.Addr) (index : Nat) :
    Except (Failure String) Bool × VolumeInfo inet.Addr :=
  match v.reps.del (RealVolumeArray.configInfo inet) index with
  | .error failure => (.error failure, v)
  | .ok (_, reps) => (.ok true, { v with reps })

/-- Each call with an iterator begins anew, so that where the cursor is left is of no use. -/
def sectorSizeRep (v : VolumeInfo inet.Addr) (index : Nat) : Except (Failure String) UInt64 := do
  let (found, reps) ← v.reps.find (RealVolumeArray.configInfo inet) index
  if found then return (← reps.current (RealVolumeArray.configInfo inet)).1.totalSectors else return 0

end VolumeInfo

open VolumeInfo

/-- A call that changes the parts. -/
inductive VolumeCall (Addr : Type)
  | appendOrgPart (volume : RealVolume Addr)
  | createRep (volume : RealVolume Addr)
  | appendRepPart (index : Nat) (volume : RealVolume Addr)
  | removeRep (index : Nat)

namespace VolumeCall

variable {inet : HostUtil}

def run (v : VolumeInfo inet.Addr) : VolumeCall inet.Addr →
    Except (Failure String) Bool × VolumeInfo inet.Addr
  | .appendOrgPart volume => v.appendOrgPart volume
  | .createRep volume => (v.createRep volume).2
  | .appendRepPart index volume => v.appendRepPart index volume
  | .removeRep index => v.removeRep index

def step (v : VolumeInfo inet.Addr) (call : VolumeCall inet.Addr) : Option (VolumeInfo inet.Addr) :=
  some (run v call).2

/-- The part or replica of a call is stored or removed. The parts that a replica has are
stored once more with the new one. -/
def Done (v v' : VolumeInfo inet.Addr) : VolumeCall inet.Addr → Prop
  | .appendOrgPart volume => ∃ value, volume.serialize = .ok value ∧
      v'.orgs.root = v.orgs.root ++ [value] ∧ v'.reps.root = v.reps.root
  | .createRep volume => ∃ value, volume.serialize = .ok value ∧
      v'.orgs.root = v.orgs.root ∧ v'.reps.root = v.reps.root ++ [some [value]]
  | .appendRepPart index volume => ∃ values volumes values', v.reps.root[index]? = some (some values) ∧
      RealVolumeArray.Read values volumes ∧
      List.Forall₂ (fun volume value => volume.serialize = .ok value) (volumes ++ [volume]) values' ∧
      v'.orgs.root = v.orgs.root ∧ v'.reps.root = v.reps.root.set index (some values')
  | .removeRep index => index < v.reps.root.length ∧
      v'.orgs.root = v.orgs.root ∧ v'.reps.root = v.reps.root.eraseIdx index

/-- The totals are the sums over what is stored. -/
structure Summed (v : VolumeInfo inet.Addr) : Prop where
  org : v.sectorSizeOrg.toNat = RealVolumeArray.size v.orgs.root
  rep : ∀ i, ∃ total, v.sectorSizeRep i = .ok total ∧
    total.toNat = RealVolumeArray.size (RealVolumeArray.partsOf v.reps.root[i]?)

/-- What a call is to do to the parts and to the totals. -/
structure Right (v : VolumeInfo inet.Addr) (call : VolumeCall inet.Addr) : Prop where
  done : (run v call).1 = .ok true ↔ Done v (run v call).2 call
  kept : (run v call).1 ≠ .ok true → (run v call).2.orgs.root = v.orgs.root ∧
    (run v call).2.reps.root = v.reps.root
  total : (run v call).1 = .ok false → (run v call).2.sectorSizeOrg = v.sectorSizeOrg
  summed : Summed (run v call).2

/-- A main part is accepted or has no sectors, the totals fit, and a replica that is removed
is there. -/
def Counted (v : VolumeInfo inet.Addr) : VolumeCall inet.Addr → Prop
  | .appendOrgPart volume => volume.count = 0 ∨
      Accepts (RealVolume.configInfo inet) v.orgs.root volume ∧
        v.orgTotal.toNat + volume.count.toNat < 2 ^ 64
  | .createRep _ => True
  | .appendRepPart index volume =>
    ∀ array, TaggedConfigurator.get (RealVolumeArray.configInfo inet) v.reps.root index = .ok array →
      (array.add volume).valid = .ok true → array.totalSectors.toNat + volume.count.toNat < 2 ^ 64
  | .removeRep index => index < v.reps.root.length

/-- Main parts that are read, and have keys. -/
def Parts (inet : HostUtil) (root : List PartValue) : Prop :=
  ∀ value ∈ root, ∃ key, Holds (RealVolume.configInfo inet) value key

/-- Replicas that are read. -/
def Copies (inet : HostUtil) (root : List (Option (List PartValue))) : Prop :=
  ∀ value ∈ root, ∃ values, value = some values ∧ ∀ value ∈ values, RealVolume.Loads inet value

/-- What is stored is read, and the totals are right. -/
structure Inv (v : VolumeInfo inet.Addr) : Prop where
  parts : Parts inet v.orgs.root
  copies : Copies inet v.reps.root
  summed : Summed v

section replicas

open RealVolumeArray

/-- The totals of stored replicas fit. -/
def Fits (root : List (Option (List PartValue))) : Prop := ∀ i : Nat, size (partsOf root[i]?) < 2 ^ 64

variable {root : List (Option (List PartValue))}

theorem get_replica (h : Copies inet root) {i : Nat} (hlt : i < root.length) :
    ∃ values array, root[i]? = some (some values) ∧
      TaggedConfigurator.get (RealVolumeArray.configInfo inet) root i = .ok array ∧ array.index = i ∧
      Read values array.volumes := by
  obtain ⟨values, hvalues, hloads⟩ := h root[i] (List.getElem_mem hlt)
  obtain ⟨array, hload, hindex, hread⟩ := load_eq hloads i
  have hroot : root[i]? = some (some values) := by rw [List.getElem?_eq_getElem hlt, hvalues]
  exact ⟨values, array, hroot, (get_eq hroot).trans hload, hindex, hread⟩

theorem keyAt_iff (h : Copies inet root) {i key : Nat} (hlt : i < root.length) :
    KeyAt (RealVolumeArray.configInfo inet) root i key ↔ key = i := by
  obtain ⟨values, array, -, hget, hindex, -⟩ := get_replica h hlt
  have hkeyAt : KeyAt (RealVolumeArray.configInfo inet) root i i :=
    ⟨array, hget, congrArg Except.ok hindex⟩
  constructor
  · exact fun h' => h'.unique hkeyAt
  · rintro rfl
    exact hkeyAt

theorem readable_replicas (h : Copies inet root) : Readable (RealVolumeArray.configInfo inet) root :=
  fun i hlt => ⟨i, (keyAt_iff h hlt).mpr rfl⟩

theorem find_replica {reps : TaggedConfigurator (RealVolumeArray inet.Addr) (Option (List PartValue))}
    (h : Copies inet reps.root) (index : Nat) :
    index < reps.root.length ∧ (∃ reps', reps.find (RealVolumeArray.configInfo inet) index =
      .ok (true, reps') ∧
      reps'.index = index ∧ reps'.root = reps.root ∧ At (RealVolumeArray.configInfo inet) reps') ∨
      reps.root.length ≤ index ∧
        ∃ reps', reps.find (RealVolumeArray.configInfo inet) index = .ok (false, reps') ∧
          reps'.root = reps.root := by
  obtain ⟨reps', hfind, hkeyAt, hroot, hat, -⟩ | ⟨hnot, hfind⟩ := find_eq (readable_replicas h) index
  · have hlt := hroot ▸ hat.lt
    obtain rfl := (keyAt_iff h hlt).mp hkeyAt
    exact .inl ⟨hlt, reps', hfind, rfl, hroot, hat⟩
  · exact .inr ⟨Nat.le_of_not_lt fun hlt => hnot index hlt ((keyAt_iff h hlt).mpr rfl), hfind⟩

theorem partsOf_of_le {i : Nat} (h : root.length ≤ i) : partsOf root[i]? = [] := by
  rw [List.getElem?_eq_none h]
  rfl

theorem sectorSizeRep_eq {v : VolumeInfo inet.Addr} (h : Copies inet v.reps.root) (i : Nat) :
    ∃ total, v.sectorSizeRep i = .ok total ∧ total.toNat = size (partsOf v.reps.root[i]?) % 2 ^ 64 := by
  unfold VolumeInfo.sectorSizeRep
  obtain ⟨hlt, reps', hfind, rfl, hroot, hat⟩ | ⟨hle, reps', hfind, hroot⟩ := find_replica h i
  · obtain ⟨values, array, hvalues, hget, -, hread⟩ := get_replica h hlt
    rw [← hroot] at hget
    refine ⟨array.totalSectors, ?_, ?_⟩
    · rw [hfind]
      change (reps'.current _ >>= _) = _
      rw [current_eq hat hget]
      rfl
    · rw [totalSectors_of_read hread, hvalues]
      rfl
  · rw [hfind, partsOf_of_le hle]
    exact ⟨0, rfl, rfl⟩

theorem summed_iff {v : VolumeInfo inet.Addr} (h : Copies inet v.reps.root) :
    Summed v ↔ v.orgTotal.toNat = size v.orgs.root ∧ Fits v.reps.root := by
  constructor
  · intro hsummed
    refine ⟨hsummed.org, fun i => ?_⟩
    obtain ⟨total, -, htotal⟩ := hsummed.rep i
    rw [← htotal]
    exact total.toNat_lt
  · rintro ⟨horg, hfits⟩
    refine ⟨horg, fun i => ?_⟩
    obtain ⟨total, hrep, htotal⟩ := sectorSizeRep_eq h i
    exact ⟨total, hrep, htotal.trans (Nat.mod_eq_of_lt (hfits i))⟩

theorem fits_append {values : List PartValue} (h : Fits root) (hvalues : size values < 2 ^ 64) :
    Fits (root ++ [some values]) := by
  intro i
  obtain hlt | heq | hgt := Nat.lt_trichotomy i root.length
  · rw [List.getElem?_append_left hlt]
    exact h i
  · rw [heq, List.getElem?_concat_length]
    exact hvalues
  · rw [partsOf_of_le (by rw [List.length_append]; exact hgt)]
    exact Nat.two_pow_pos 64

theorem fits_set {values : List PartValue} (h : Fits root) {i : Nat} (hlt : i < root.length) :
    Fits (root.set i (some values)) ↔ size values < 2 ^ 64 := by
  constructor
  · intro hfits
    have hi := hfits i
    rw [List.getElem?_set_self hlt] at hi
    exact hi
  · intro hvalues j
    obtain rfl | hne := eq_or_ne i j
    · rw [List.getElem?_set_self hlt]
      exact hvalues
    · rw [List.getElem?_set_ne hne]
      exact h j

theorem fits_eraseIdx (h : Fits root) (i : Nat) : Fits (root.eraseIdx i) := by
  intro j
  rw [List.getElem?_eraseIdx]
  split_ifs
  · exact h j
  · exact h (j + 1)

theorem copies_append {values : List PartValue} (h : Copies inet root)
    (hvalues : ∀ value ∈ values, RealVolume.Loads inet value) : Copies inet (root ++ [some values]) :=
  List.forall_mem_append.mpr ⟨h, List.forall_mem_singleton.mpr ⟨values, rfl, hvalues⟩⟩

theorem copies_set {values : List PartValue} (h : Copies inet root) (i : Nat)
    (hvalues : ∀ value ∈ values, RealVolume.Loads inet value) :
    Copies inet (root.set i (some values)) := by
  intro value hvalue
  obtain hmem | rfl := List.mem_or_eq_of_mem_set hvalue
  · exact h value hmem
  · exact ⟨values, rfl, hvalues⟩

end replicas

theorem readable_parts {root : List PartValue} (h : Parts inet root) :
    Readable (RealVolume.configInfo inet) root := by
  intro i hlt
  obtain ⟨key, hholds⟩ := h root[i] (List.getElem_mem hlt)
  obtain ⟨volume, hload, hkey⟩ := hholds i
  exact ⟨key, volume, (get_eq (List.getElem?_eq_getElem hlt)).trans hload, hkey⟩

section constructors

open RealVolumeArray

theorem inv_new : Inv (VolumeInfo.new inet) := by
  have hcopies : Copies inet [] := List.forall_mem_nil _
  exact ⟨List.forall_mem_nil _, hcopies, (summed_iff hcopies).mpr ⟨rfl, fun i => Nat.two_pow_pos 64⟩⟩

theorem totalLoop_eq (fuel : Nat) : ∀ {orgs : TaggedConfigurator (RealVolume inet.Addr) PartValue}
    (total : UInt64),
    Parts inet orgs.root → At (RealVolume.configInfo inet) orgs → orgs.root.length ≤ orgs.index + fuel →
    ∃ orgs', totalLoop inet fuel orgs total =
      .ok (total + ((orgs.root.drop orgs.index).map RealVolume.sectors).sum, orgs') ∧
        orgs'.root = orgs.root := by
  induction fuel with
  | zero => exact fun total _ hat hfuel => absurd hat.lt (Nat.not_lt.mpr hfuel)
  | succ fuel ih =>
    intro orgs total h hat hfuel
    have hlt := hat.lt
    obtain ⟨key, hholds⟩ := h orgs.root[orgs.index] (List.getElem_mem hlt)
    obtain ⟨volume, hload, -⟩ := hholds orgs.index
    have hget : TaggedConfigurator.get (RealVolume.configInfo inet) orgs.root orgs.index = .ok volume :=
      (get_eq (List.getElem?_eq_getElem hlt)).trans hload
    have hat' := at_current hat hget
    have hloop : totalLoop inet (fuel + 1) orgs total =
        match next { orgs with currentInfo := some volume, prevIndex := orgs.index } with
        | (true, orgs) => totalLoop inet fuel orgs (total + volume.count)
        | (false, orgs) => .ok (total + volume.count, orgs) := by
      simp only [totalLoop, current_eq hat hget, bind, Except.bind, pure, Except.pure]
    rw [hloop, List.drop_eq_getElem_cons hlt, List.map_cons, List.sum_cons, ← UInt64.add_assoc,
      ← RealVolume.count_of_load hload]
    unfold next
    dsimp only
    by_cases hnext : orgs.index + 1 < orgs.root.length
    · rw [decide_eq_true hnext]
      exact ih _ h (at_next hat' hnext) (by dsimp only; omega)
    · rw [decide_eq_false hnext, List.drop_eq_nil_of_le (Nat.le_of_not_lt hnext),
        List.map_nil, List.sum_nil,
        UInt64.add_zero]
      exact ⟨_, rfl, rfl⟩

theorem inv_load {main : List PartValue} {copy : Option (List (Option (List PartValue)))}
    (hparts : Parts inet main)
    (hcopies : Copies inet (copy.getD [])) (hmain : size main < 2 ^ 64) (hfits : Fits (copy.getD [])) :
    ∃ v, VolumeInfo.load inet (some main) copy = .ok v ∧ v.orgs.root = main ∧
      v.reps.root = copy.getD [] ∧ Inv v := by
  have hinv : ∀ {orgs : TaggedConfigurator (RealVolume inet.Addr) PartValue}, orgs.root = main →
      Inv ⟨orgs, (main.map RealVolume.sectors).sum, .new (copy.getD [])⟩ := by
    intro orgs hroot
    refine ⟨hroot ▸ hparts, hcopies, (summed_iff hcopies).mpr ⟨?_, hfits⟩⟩
    have hsum := toNat_sum (main.map RealVolume.sectors)
    rw [List.map_map] at hsum
    exact hsum.trans ((Nat.mod_eq_of_lt hmain).trans (by rw [hroot]))
  unfold VolumeInfo.load
  obtain ⟨hzero, hbegin⟩ | ⟨-, orgs, hbegin, hroot, hindex, hat⟩ :=
    begin_eq (t := TaggedConfigurator.new main) (readable_parts hparts)
  · obtain rfl : main = [] := List.length_eq_zero_iff.mp hzero
    refine ⟨⟨.new [], 0, .new (copy.getD [])⟩, ?_, rfl, rfl, hinv rfl⟩
    dsimp only
    rw [hbegin]
    rfl
  · obtain ⟨orgs', htotal, hroot'⟩ := totalLoop_eq orgs.root.length 0 (hroot ▸ hparts) hat
      (Nat.le_add_left _ _)
    rw [hindex, List.drop_zero, hroot, UInt64.zero_add] at htotal
    refine ⟨⟨orgs', (main.map RealVolume.sectors).sum, .new (copy.getD [])⟩, ?_, hroot'.trans hroot, rfl,
      hinv (hroot'.trans hroot)⟩
    dsimp only
    rw [hbegin]
    change ((totalLoop inet orgs.root.length orgs 0) >>= _) = _
    rw [hroot, htotal]
    rfl

end constructors

variable {v v' : VolumeInfo inet.Addr} {call : VolumeCall inet.Addr}

theorem size_concat (values : List PartValue) (value : PartValue) :
    RealVolumeArray.size (values ++ [value]) = RealVolumeArray.size values +
      (RealVolume.sectors value).toNat := by
  unfold RealVolumeArray.size
  rw [List.map_append, List.sum_append, List.map_singleton, List.sum_singleton]

theorem not_done_of_same (horgs : v'.orgs.root = v.orgs.root) (hreps : v'.reps.root = v.reps.root) :
    ¬Done v v' call := by
  cases call with
  | appendOrgPart volume =>
    rintro ⟨value, -, hroot, -⟩
    exact List.cons_ne_nil _ _ (List.self_eq_append_right.mp (horgs.symm.trans hroot))
  | createRep volume =>
    rintro ⟨value, -, -, hroot⟩
    exact List.cons_ne_nil _ _ (List.self_eq_append_right.mp (hreps.symm.trans hroot))
  | appendRepPart index volume =>
    rintro ⟨values, volumes, values', hvalues, hread, hstored, -, hroot⟩
    have hlt := (List.getElem?_eq_some_iff.mp hvalues).1
    have hsame := congrArg (fun root => root[index]?) (hreps.symm.trans hroot)
    rw [hvalues, List.getElem?_set_self hlt] at hsame
    have hlength : values.length = values'.length := by rw [Option.some.inj (Option.some.inj hsame)]
    rw [hread.length_eq, ← hstored.length_eq, List.length_append, List.length_singleton] at hlength
    exact Nat.succ_ne_self _ hlength.symm
  | removeRep index =>
    rintro ⟨hlt, -, hroot⟩
    have hlength := congrArg List.length (hreps.symm.trans hroot)
    rw [List.length_eraseIdx_of_lt hlt] at hlength
    omega

theorem right_iff_of_done (hrun : run v call = (.ok true, v')) (hdone : Done v v' call) :
    Right v call ↔ Summed v' := by
  constructor
  · intro hright
    have hsummed := hright.summed
    rwa [hrun] at hsummed
  · intro hsummed
    refine ⟨?_, ?_, ?_, ?_⟩
    · rw [hrun]
      exact iff_of_true rfl hdone
    · rw [hrun]
      exact fun hne => absurd rfl hne
    · rw [hrun]
      nofun
    · rw [hrun]
      exact hsummed

theorem right_iff_of_refused {r : Except (Failure String) Bool} (hrun : run v call = (r, v'))
    (hr : r ≠ .ok true)
    (horgs : v'.orgs.root = v.orgs.root) (hreps : v'.reps.root = v.reps.root) :
    Right v call ↔ (r = .ok false → v'.orgTotal = v.orgTotal) ∧ Summed v' := by
  constructor
  · intro hright
    have htotal := hright.total
    have hsummed := hright.summed
    rw [hrun] at htotal hsummed
    exact ⟨htotal, hsummed⟩
  · rintro ⟨htotal, hsummed⟩
    refine ⟨?_, ?_, ?_, ?_⟩
    · rw [hrun]
      exact iff_of_false hr (not_done_of_same horgs hreps)
    · rw [hrun]
      exact fun _ => ⟨horgs, hreps⟩
    · rw [hrun]
      exact htotal
    · rw [hrun]
      exact hsummed

/-- What is stored after a call is read, and the call is right if and only if it is counted. -/
def Spec (v : VolumeInfo inet.Addr) (call : VolumeCall inet.Addr) : Prop :=
  (Parts inet (run v call).2.orgs.root ∧ Copies inet (run v call).2.reps.root) ∧
    (Right v call ↔ Counted v call)

theorem spec_of_done (hrun : run v call = (.ok true, v')) (hdone : Done v v' call)
    (hparts : Parts inet v'.orgs.root)
    (hcopies : Copies inet v'.reps.root) (hsummed : Summed v' ↔ Counted v call) : Spec v call := by
  refine ⟨?_, (right_iff_of_done hrun hdone).trans hsummed⟩
  rw [hrun]
  exact ⟨hparts, hcopies⟩

theorem spec_of_refused (h : Inv v) {r : Except (Failure String) Bool} (hrun : run v call = (r, v'))
    (hr : r ≠ .ok true)
    (horgs : v'.orgs.root = v.orgs.root) (hreps : v'.reps.root = v.reps.root)
    (htotal : (r = .ok false → v'.orgTotal = v.orgTotal) ∧ Summed v' ↔ Counted v call) :
    Spec v call := by
  refine ⟨?_, (right_iff_of_refused hrun hr horgs hreps).trans htotal⟩
  rw [hrun]
  dsimp only
  rw [horgs, hreps]
  exact ⟨h.parts, h.copies⟩

theorem total_add_iff (total count : UInt64) : (total + count).toNat = total.toNat ↔ count = 0 := by
  have htotal := total.toNat_lt
  have hcount := count.toNat_lt
  rw [UInt64.toNat_add, ← UInt64.toNat_inj]
  change _ ↔ count.toNat = 0
  omega

theorem spec_appendOrgPart (h : Inv v) (volume : RealVolume inet.Addr) :
    Spec v (.appendOrgPart volume) := by
  have horg := ((summed_iff h.copies).mp h.summed)
  obtain ⟨haccepts, value, orgs, hserialize, hadd, hroot⟩ | ⟨hnot, hadd⟩ :=
    add_cases (readable_parts h.parts) volume RealVolume.serialize_of_valid
  · obtain ⟨hloads, hsectors⟩ := RealVolume.loads_of_serialize hserialize
    have hrun : run v (.appendOrgPart volume) =
        (.ok true, { v with orgTotal := v.orgTotal + volume.count, orgs }) := by
      unfold run VolumeInfo.appendOrgPart
      dsimp only
      rw [hadd]
    obtain ⟨key, hkey, -, hvalid⟩ := id haccepts
    obtain ⟨value', hserialize', hholds⟩ := RealVolume.keyed volume key hkey hvalid
    obtain rfl := Except.ok.inj (hserialize.symm.trans hserialize')
    refine spec_of_done hrun ⟨value, hserialize, hroot, rfl⟩ ?_ h.copies ?_
    · dsimp only
      rw [hroot]
      exact List.forall_mem_append.mpr ⟨h.parts, List.forall_mem_singleton.mpr ⟨key, hholds⟩⟩
    · have hfits : Summed { v with orgTotal := v.orgTotal + volume.count, orgs } ↔
          v.orgTotal.toNat + volume.count.toNat < 2 ^ 64 := by
        rw [summed_iff (v := { v with orgTotal := v.orgTotal + volume.count, orgs }) h.copies]
        dsimp only
        rw [hroot, size_concat, ← horg.1, hsectors, UInt64.toNat_add, and_iff_left horg.2]
        have htotal := v.orgTotal.toNat_lt
        have hcount := volume.count.toNat_lt
        omega
      rw [hfits]
      constructor
      · exact fun hlt => .inr ⟨haccepts, hlt⟩
      · rintro (hzero | ⟨-, hlt⟩)
        · rw [hzero]
          exact v.orgTotal.toNat_lt
        · exact hlt
  · have hcounted : volume.count = 0 ↔ Counted v (.appendOrgPart volume) :=
      ⟨.inl, fun h => h.resolve_right fun h' => hnot h'.1⟩
    have hsummed : ∀ orgs, orgs.root = v.orgs.root →
        (Summed { v with orgTotal := v.orgTotal + volume.count, orgs } ↔ volume.count = 0) := by
      intro orgs hroot
      rw [summed_iff (v := { v with orgTotal := v.orgTotal + volume.count, orgs }) h.copies]
      dsimp only
      rw [hroot, ← horg.1, total_add_iff, and_iff_left horg.2]
    obtain ⟨orgs, hadd, hroot⟩ | ⟨failure, hadd⟩ := hadd
    · have hrun : run v (.appendOrgPart volume) =
          (.ok false, { v with orgTotal := v.orgTotal + volume.count, orgs }) := by
        unfold run VolumeInfo.appendOrgPart
        dsimp only
        rw [hadd]
      refine spec_of_refused h hrun nofun hroot rfl ?_
      rw [hsummed orgs hroot, ← hcounted]
      refine and_iff_right_of_imp fun hzero _ => ?_
      dsimp only
      rw [hzero, UInt64.add_zero]
    · have hrun : run v (.appendOrgPart volume) =
          (.error failure, { v with orgTotal := v.orgTotal + volume.count }) := by
        unfold run VolumeInfo.appendOrgPart
        dsimp only
        rw [hadd]
      refine spec_of_refused h hrun nofun rfl rfl ?_
      rw [hsummed v.orgs rfl, ← hcounted]
      exact and_iff_right_of_imp fun _ => nofun

theorem summed_of_root (h : Inv v)
    {reps : TaggedConfigurator (RealVolumeArray inet.Addr) (Option (List PartValue))}
    (hroot : reps.root = v.reps.root) : Summed { v with reps } := by
  have hcopies : Copies inet reps.root := hroot ▸ h.copies
  obtain ⟨horg, hfits⟩ := (summed_iff h.copies).mp h.summed
  exact (summed_iff (v := { v with reps }) hcopies).mpr ⟨horg, fun i => hroot ▸ hfits i⟩

theorem spec_createRep (h : Inv v) (volume : RealVolume inet.Addr) : Spec v (.createRep volume) := by
  have horg := ((summed_iff h.copies).mp h.summed)
  have hserialize : RealVolumeArray.valid (.new volume v.reps.root.length) = .ok true →
      ∃ value, RealVolumeArray.serialize (.new volume v.reps.root.length) = .ok value := by
    intro hvalid
    obtain ⟨values, hvalues, -⟩ := RealVolumeArray.serialize_of_valid hvalid
    exact ⟨some values, hvalues⟩
  obtain ⟨haccepts, value, reps, hvalue, hadd, hroot⟩ | ⟨-, hadd⟩ :=
    add_cases (readable_replicas h.copies) (.new volume v.reps.root.length) hserialize
  · have hrun : run v (.createRep volume) = (.ok true, { v with reps }) := by
      unfold run VolumeInfo.createRep
      dsimp only
      rw [hadd]
    obtain ⟨-, -, -, hvalid⟩ := haccepts
    obtain ⟨values, hvalues, hstored⟩ := RealVolumeArray.serialize_of_valid hvalid
    obtain rfl := Except.ok.inj (hvalue.symm.trans hvalues)
    obtain _ | ⟨hpart, hnil⟩ := hstored
    cases hnil
    obtain ⟨hloads, hsectors⟩ := RealVolume.loads_of_serialize hpart
    refine spec_of_done hrun ⟨_, hpart, rfl, hroot⟩ h.parts ?_ ?_
    · dsimp only
      rw [hroot]
      exact copies_append h.copies (List.forall_mem_singleton.mpr hloads)
    · refine iff_of_true ((summed_iff ?_).mpr ⟨horg.1, ?_⟩) trivial
      · dsimp only
        rw [hroot]
        exact copies_append h.copies (List.forall_mem_singleton.mpr hloads)
      · dsimp only
        rw [hroot]
        refine fits_append horg.2 ?_
        have hsize := size_concat []
        simp only [List.nil_append] at hsize
        rw [hsize, RealVolumeArray.size, List.map_nil, List.sum_nil, Nat.zero_add]
        exact (RealVolume.sectors _).toNat_lt
  · obtain ⟨reps, hadd, hroot⟩ | ⟨failure, hadd⟩ := hadd
    · have hrun : run v (.createRep volume) = (.ok false, { v with reps }) := by
        unfold run VolumeInfo.createRep
        dsimp only
        rw [hadd]
      exact spec_of_refused h hrun nofun rfl hroot
        (iff_of_true ⟨fun _ => rfl, summed_of_root h hroot⟩ trivial)
    · have hrun : run v (.createRep volume) = (.error failure, v) := by
        unfold run VolumeInfo.createRep
        dsimp only
        rw [hadd]
      exact spec_of_refused h hrun nofun rfl rfl (iff_of_true ⟨nofun, h.summed⟩ trivial)

theorem size_of_stored {values values' : List PartValue} {volumes : List (RealVolume inet.Addr)}
    {volume : RealVolume inet.Addr} (hread : RealVolumeArray.Read values volumes)
    (hstored : List.Forall₂ (fun volume value => volume.serialize = .ok value)
      (volumes ++ [volume]) values') :
    RealVolumeArray.size values' = RealVolumeArray.size values + volume.count.toNat := by
  have hsize : ∀ values, RealVolumeArray.size values =
      ((values.map RealVolume.sectors).map UInt64.toNat).sum := by
    intro values
    rw [List.map_map]
    rfl
  rw [hsize, hsize, (RealVolumeArray.loads_of_stored hstored).2, List.map_append,
    RealVolumeArray.sectors_of_read hread,
    List.map_append, List.sum_append, List.map_singleton, List.map_singleton, List.sum_singleton]

theorem spec_appendRepPart (h : Inv v) (index : Nat) (volume : RealVolume inet.Addr) :
    Spec v (.appendRepPart index volume) := by
  have horg := ((summed_iff h.copies).mp h.summed)
  obtain ⟨hlt, reps, hfind, rfl, hroot, hat⟩ | ⟨hle, reps, hfind, hroot⟩ := find_replica h.copies index
  · obtain ⟨values, array, hvalues, hget, -, hread⟩ := get_replica h.copies hlt
    have htotal : array.totalSectors.toNat = RealVolumeArray.size values := by
      have hfits := horg.2 reps.index
      rw [hvalues] at hfits
      rw [RealVolumeArray.totalSectors_of_read hread]
      exact Nat.mod_eq_of_lt hfits
    have hcounted : Counted v (.appendRepPart reps.index volume) ↔
        ((array.add volume).valid = .ok true → array.totalSectors.toNat + volume.count.toNat <
          2 ^ 64) := by
      constructor
      · exact fun hcounted => hcounted array hget
      · intro hcounted array' hget'
        obtain rfl := Except.ok.inj (hget.symm.trans hget')
        exact hcounted
    -- what is edited in the cache
    obtain ⟨reps', hreps'⟩ : ∃ reps',
        reps' = { reps with currentInfo := some (array.add volume), prevIndex := reps.index } := ⟨_, rfl⟩
    have hcurrent := current_eq hat (hroot ▸ hget)
    have hlt' : reps'.index < reps'.root.length := by
      rw [hreps']
      exact hat.lt
    have hupdate := update_eq (C := RealVolumeArray.configInfo inet) hlt' (array.add volume)
    have hrun : run v (.appendRepPart reps.index volume) =
        match reps'.update (RealVolumeArray.configInfo inet) (array.add volume) with
        | .error failure => (.error failure, { v with reps := reps' })
        | .ok (_, reps) => (.ok true, { v with reps }) := by
      change v.appendRepPart reps.index volume = _
      unfold VolumeInfo.appendRepPart
      rw [hfind]
      dsimp only
      rw [hcurrent, hreps']
    have hvalid' : (RealVolumeArray.configInfo inet).valid (array.add volume) =
        (array.add volume).valid := rfl
    rw [hupdate, hvalid'] at hrun
    cases hvalid : (array.add volume).valid with
    | error failure =>
      rw [hvalid] at hrun
      refine spec_of_refused h hrun nofun rfl (hreps' ▸ hroot) ?_
      rw [hcounted, hvalid]
      exact iff_of_true ⟨nofun, summed_of_root h (hreps' ▸ hroot)⟩ nofun
    | ok b =>
      obtain rfl : b = true := eq_true_of_ne_false fun hb => RealVolumeArray.valid_ne_false (hb ▸ hvalid)
      obtain ⟨values', hvalues', hstored⟩ := RealVolumeArray.serialize_of_valid hvalid
      have hserialize : (RealVolumeArray.configInfo inet).serialize (array.add volume) =
          .ok (some values') := hvalues'
      have hrun' : run v (.appendRepPart reps.index volume) =
          (.ok true,
            { v with reps := { reps' with root := reps'.root.set reps'.index (some values') } }) := by
        rw [hrun, hvalid]
        dsimp only [bind, Except.bind]
        rw [if_pos rfl, hserialize]
      obtain ⟨hloads, -⟩ := RealVolumeArray.loads_of_stored hstored
      have hroot' : reps'.root.set reps'.index (some values') =
          v.reps.root.set reps.index (some values') := by
        rw [hreps', ← hroot]
      have hcopies : Copies inet (reps'.root.set reps'.index (some values')) := by
        rw [hroot']
        exact copies_set h.copies _ hloads
      refine spec_of_done hrun' ⟨values, array.volumes, values', hvalues, hread, hstored, rfl,
        hroot'⟩ h.parts hcopies ?_
      rw [hcounted, hvalid, summed_iff hcopies]
      dsimp only
      rw [hroot', fits_set horg.2 hlt, size_of_stored hread hstored, ← htotal]
      exact ⟨fun hsummed _ => hsummed.2, fun hfits => ⟨horg.1, hfits rfl⟩⟩
  · have hrun : run v (.appendRepPart index volume) = (.ok false, { v with reps }) := by
      change v.appendRepPart index volume = _
      unfold VolumeInfo.appendRepPart
      rw [hfind]
    have hcounted : Counted v (.appendRepPart index volume) := by
      intro array hget
      unfold TaggedConfigurator.get at hget
      rw [List.getElem?_eq_none hle] at hget
      cases hget
    exact spec_of_refused h hrun nofun rfl hroot
      (iff_of_true ⟨fun _ => rfl, summed_of_root h hroot⟩ hcounted)

theorem spec_removeRep (h : Inv v) (index : Nat) : Spec v (.removeRep index) := by
  have horg := ((summed_iff h.copies).mp h.summed)
  obtain ⟨reps, i, hkeyAt, hlt, hdel, hroot⟩ | ⟨hnot, reps, hdel, hroot⟩ :=
    del_eq (readable_replicas h.copies) index
  · obtain rfl := (keyAt_iff h.copies hlt).mp hkeyAt
    have hrun : run v (.removeRep index) = (.ok true, { v with reps }) := by
      change v.removeRep index = _
      unfold VolumeInfo.removeRep
      rw [hdel]
    have hcopies : Copies inet reps.root := by
      rw [hroot]
      exact fun value hvalue => h.copies value (List.mem_of_mem_eraseIdx hvalue)
    refine spec_of_done hrun ⟨hlt, rfl, hroot⟩ h.parts hcopies
      (iff_of_true ((summed_iff hcopies).mpr ⟨horg.1, ?_⟩) hlt)
    dsimp only
    rw [hroot]
    exact fits_eraseIdx horg.2 index
  · -- the result says that there was something
    have hrun : run v (.removeRep index) = (.ok true, { v with reps }) := by
      change v.removeRep index = _
      unfold VolumeInfo.removeRep
      rw [hdel]
    have hle : ¬index < v.reps.root.length :=
      fun hlt => hnot index hlt ((keyAt_iff h.copies hlt).mpr rfl)
    refine ⟨?_, iff_of_false (fun hright => ?_) hle⟩
    · rw [hrun]
      dsimp only
      rw [hroot]
      exact ⟨h.parts, h.copies⟩
    · have hdone := hright.done
      rw [hrun] at hdone
      have hnot : ¬Done v { v with reps } (.removeRep index) := not_done_of_same rfl hroot
      exact hnot (hdone.mp rfl)

theorem spec (h : Inv v) (call : VolumeCall inet.Addr) : Spec v call := by
  cases call with
  | appendOrgPart volume => exact spec_appendOrgPart h volume
  | createRep volume => exact spec_createRep h volume
  | appendRepPart index volume => exact spec_appendRepPart h index volume
  | removeRep index => exact spec_removeRep h index

theorem inv_step (h : Inv v) (hright : Right v call) (hstep : step v call = some v') : Inv v' := by
  obtain rfl := Option.some.inj hstep
  obtain ⟨⟨hparts, hcopies⟩, -⟩ := spec h call
  exact ⟨hparts, hcopies, hright.summed⟩

/-- Every call does what it is to do, and the totals stay right, if and only if every call
is counted for what it stores. -/
theorem right_iff_counted (h : Inv v) (calls : List (VolumeCall inet.Addr)) :
    Runs.Along step Right v calls ↔ Runs.Along step Counted v calls :=
  Runs.along_iff Inv (fun _ call h => (spec h call).2)
    (fun _ _ _ h hright hstep => inv_step h hright hstep) h calls

theorem not_accepts_again {root : List PartValue} {volume : RealVolume inet.Addr} {value : PartValue}
    (hvalue : volume.serialize = .ok value) : ¬Accepts (RealVolume.configInfo inet)
      (root ++ [value]) volume := by
  rintro ⟨key, hkey, hnot, hvalid⟩
  obtain ⟨value', hvalue', hholds⟩ := RealVolume.keyed volume key hkey hvalid
  obtain rfl := Except.ok.inj (hvalue.symm.trans hvalue')
  obtain ⟨volume', hload, hkey'⟩ := hholds root.length
  refine hnot root.length ?_ ⟨volume', (get_eq List.getElem?_concat_length).trans hload, hkey'⟩
  rw [List.length_append]
  exact Nat.lt_succ_self _

/-- An address, and the one that is not set. -/
def loopback : HostUtil where
  Addr := Bool
  zero := false
  getSockAddr str := if str = "[127.0.0.1]:3260" then some true else none
  getAddrPortStr addr := if addr then some "[127.0.0.1]:3260" else none
  getSockAddr_isSome addr str h := by
    cases addr with
    | false => cases h
    | true =>
      rw [← Option.some.inj h]
      rfl
  reason _ := "ai_family not supported"
  target _ := none
  reread addr str h := by
    cases addr with
    | false => cases h
    | true =>
      rw [← Option.some.inj h]
      exact ⟨true, rfl, rfl⟩

def dummy : RealVolume loopback.Addr := .new loopback "[127.0.0.1]:3260" "/tmp/dummy1" 0 1024

theorem right_iff_counted_replica :
    Runs.Along step Right (VolumeInfo.new loopback)
      [.createRep dummy, .appendRepPart 0 dummy, .removeRep 0] ↔
      Runs.Along step Counted (VolumeInfo.new loopback)
        [.createRep dummy, .appendRepPart 0 dummy, .removeRep 0] :=
  right_iff_counted inv_new _

theorem accepts_dummy : Accepts (RealVolume.configInfo loopback) [] dummy :=
  ⟨_, rfl, fun _ hi => absurd hi (Nat.not_lt_zero _), rfl⟩

theorem right_dummy : Right (VolumeInfo.new loopback) (.appendOrgPart dummy) :=
  (spec inv_new _).2.mpr (.inr ⟨accepts_dummy, by decide⟩)

/-- The second time the part is refused, and counted; and there is no replica to remove. -/
theorem not_right_twice :
    Runs.Along step Right (VolumeInfo.new loopback) [.appendOrgPart dummy] ∧
      ¬Runs.Along step Right (VolumeInfo.new loopback) [.appendOrgPart dummy, .appendOrgPart dummy] ∧
      ¬Runs.Along step Right (VolumeInfo.new loopback) [.removeRep 0] := by
  refine ⟨⟨right_dummy, fun _ _ => trivial⟩, ?_, ?_⟩
  · rintro ⟨-, hrest⟩
    obtain ⟨hright, -⟩ := hrest _ rfl
    obtain ⟨value, hvalue, hroot, -⟩ := right_dummy.done.mp rfl
    obtain hzero | ⟨haccepts, -⟩ := (spec (inv_step inv_new right_dummy rfl) _).2.mp hright
    · exact absurd hzero (by decide)
    · rw [hroot] at haccepts
      exact not_accepts_again hvalue haccepts
  · rintro ⟨hright, -⟩
    exact Nat.not_lt_zero 0 ((spec inv_new _).2.mp hright)

end VolumeCall

end Sstoraged.VolumeConfigurator
