import Mathlib.Data.UInt
import Sstoraged.InitiatorInfo
import Sstoraged.TaggedConfigurator

namespace Sstoraged.VolumeConfigurator

open Json

/-- Addresses, and the address texts of the targets. A printed address is not the name of a
target, and it is read as an address that is printed in the same way. -/
structure HostUtil extends InetUtil where
  /-- What an address that can not be printed throws. -/
  reason : Addr → String
  target : String → Option String
  reread : ∀ addr str, getAddrPortStr addr = some str →
    ∃ addr', getSockAddr ((target str).getD str) = some addr' ∧ getAddrPortStr addr' = some str

/-- The members of a stored part, as far as they are there. -/
structure PartValue where
  host : Option String
  path : Option String
  start : Option UInt64
  count : Option UInt64
  deriving DecidableEq

structure RealVolume (Addr : Type) where
  host : Addr
  path : String
  start : UInt64
  count : UInt64

namespace RealVolume

variable (inet : HostUtil)

def setHost (str : String) : Option inet.Addr := inet.getSockAddr ((inet.target str).getD str)

/-- A host that can not be read leaves no address. -/
def new (host path : String) (start count : UInt64) : RealVolume inet.Addr :=
  ⟨(setHost inet host).getD inet.zero, path, start, count⟩

def member {A : Type} (value : Option A) (key : Nat) (attr : String) : Except (Failure String) A :=
  match value with
  | none => .error (.thrown ("[" ++ toString key ++ "] : " ++ attr ++ " is not specified"))
  | some a => .ok a

def load (value : PartValue) (key : Nat) : Except (Failure String) (RealVolume inet.Addr) := do
  let host ← member value.host key "Host"
  let path ← member value.path key "Path"
  let start ← member value.start key "Start"
  let count ← member value.count key "Count"
  match setHost inet host with
  | none => .error (.thrown ("[" ++ toString key ++ "] : Invalid Host : \"" ++ host ++ "\" specified"))
  | some host => return ⟨host, path, start, count⟩

variable {inet}

def getHostStr (volume : RealVolume inet.Addr) : Except (Failure String) String :=
  match inet.getAddrPortStr volume.host with
  | none => .error (.thrown (inet.reason volume.host))
  | some str => .ok str

def getKey (volume : RealVolume inet.Addr) : Except (Failure String) String := do
  let host ← volume.getHostStr
  return host ++ ":" ++ volume.path ++ ":" ++ toString volume.start ++ ":" ++ toString volume.count

def serialize (volume : RealVolume inet.Addr) : Except (Failure String) PartValue := do
  let host ← volume.getHostStr
  return ⟨some host, some volume.path, some volume.start, some volume.count⟩

/-- The members in the order of their names, and whether each is there. -/
def attrs (tmp : PartValue) : List (String × Bool) :=
  [("Count", tmp.count.isSome), ("Host", tmp.host.isSome), ("Path", tmp.path.isSome),
    ("Start", tmp.start.isSome)]

def attrsSatisfied (tmp : PartValue) : Except (Failure String) Bool :=
  match (attrs tmp).find? fun attr => !attr.2 with
  | some attr => .error (.thrown (attr.1 ++ " is not specified\n"))
  | none => .ok true

/-- The members that are there, and whether each is valid. -/
def validators (tmp : PartValue) : List (String × Option Bool) :=
  [("Count", tmp.count.map fun count => decide (1 ≤ count)),
    ("Host", tmp.host.map (InitiatorInfo.lengthValid 1 InitiatorInfo.pathMax)),
    ("Path", tmp.path.map (InitiatorInfo.lengthValid 1 InitiatorInfo.pathMax)),
    ("Start", tmp.start.map fun _ => true)]

def validAttrs (tmp : PartValue) : Except (Failure String) Bool :=
  match (validators tmp).filter fun attr => attr.2 = some false with
  | [] => .ok true
  | errors => .error (.thrown (String.join (errors.map fun attr => attr.1 ++ " is invalid\n")))

def valid (volume : RealVolume inet.Addr) : Except (Failure String) Bool := do
  let tmp ← volume.serialize
  if ← attrsSatisfied tmp then validAttrs tmp else return false

variable (inet) in
def configInfo : ConfigInfo (RealVolume inet.Addr) String PartValue :=
  ⟨getKey, serialize, valid, load inet⟩

variable (inet) in
/-- A stored part that is read wherever it is stored. -/
def Loads (value : PartValue) : Prop := ∀ k, ∃ volume, load inet value k = .ok volume

/-- The sectors of a stored part. -/
def sectors (value : PartValue) : UInt64 := value.count.getD 0

variable {volume : RealVolume inet.Addr}

theorem member_eq {A : Type} {value : Option A} {key : Nat} {attr : String} {a : A}
    (h : member value key attr = .ok a) : value = some a := by
  unfold member at h
  cases value with
  | none => cases h
  | some b => rw [Except.ok.inj h]

theorem count_of_load {value : PartValue} {k : Nat} (h : load inet value k = .ok volume) :
    volume.count = sectors value := by
  obtain ⟨host, -, h⟩ := of_bind_ok h
  obtain ⟨path, -, h⟩ := of_bind_ok h
  obtain ⟨start, -, h⟩ := of_bind_ok h
  obtain ⟨count, hcount, h⟩ := of_bind_ok h
  split at h
  · cases h
  · rw [← Except.ok.inj h, sectors, member_eq hcount]
    rfl

theorem getHostStr_of_getKey {key : String} (h : volume.getKey = .ok key) :
    ∃ host, volume.getHostStr = .ok host ∧
      host ++ ":" ++ volume.path ++ ":" ++ toString volume.start ++ ":" ++
        toString volume.count = key := by
  obtain ⟨host, hhost, hkey⟩ := of_bind_ok h
  exact ⟨host, hhost, Except.ok.inj hkey⟩

theorem serialize_of_host {host : String} (h : volume.getHostStr = .ok host) :
    volume.serialize = .ok ⟨some host, some volume.path, some volume.start, some volume.count⟩ := by
  unfold serialize
  rw [h]
  rfl

theorem load_of_host {host : String} (h : volume.getHostStr = .ok host) :
    ∃ addr, ∀ k, load inet ⟨some host, some volume.path, some volume.start, some volume.count⟩ k =
      .ok ⟨addr, volume.path, volume.start, volume.count⟩ ∧
      getHostStr (⟨addr, volume.path, volume.start, volume.count⟩ : RealVolume inet.Addr) =
        .ok host := by
  unfold getHostStr at h
  cases hprint : inet.getAddrPortStr volume.host with
  | none =>
    rw [hprint] at h
    cases h
  | some str =>
    rw [hprint] at h
    obtain rfl := Except.ok.inj h
    obtain ⟨addr, hread, hprint'⟩ := inet.reread _ _ hprint
    refine ⟨addr, fun k => ⟨?_, ?_⟩⟩
    · change (match setHost inet str with
        | none => _
        | some host => _) = _
      rw [setHost, hread]
      rfl
    · unfold getHostStr
      rw [hprint']

theorem keyed : TaggedConfigurator.Keyed (configInfo inet) := by
  intro volume key hkey _
  obtain ⟨host, hhost, rfl⟩ := getHostStr_of_getKey hkey
  obtain ⟨addr, hload⟩ := load_of_host hhost
  refine ⟨_, serialize_of_host hhost, fun k => ⟨_, (hload k).1, ?_⟩⟩
  change getKey _ = _
  unfold getKey
  rw [(hload k).2]
  rfl

theorem validAttrs_ne_false (tmp : PartValue) : validAttrs tmp ≠ .ok false := by
  unfold validAttrs
  split
  · nofun
  · nofun

theorem valid_ne_false : volume.valid ≠ .ok false := by
  intro h
  obtain ⟨tmp, -, h⟩ := of_bind_ok h
  obtain ⟨satisfied, hsatisfied, h⟩ := of_bind_ok h
  have htrue : satisfied = true := by
    unfold attrsSatisfied at hsatisfied
    split at hsatisfied
    · cases hsatisfied
    · exact (Except.ok.inj hsatisfied).symm
  rw [htrue] at h
  exact validAttrs_ne_false tmp h

theorem serialize_of_valid {b : Bool} (h : volume.valid = .ok b) :
    ∃ value, volume.serialize = .ok value := by
  obtain ⟨tmp, htmp, -⟩ := of_bind_ok h
  exact ⟨tmp, htmp⟩

theorem loads_of_serialize {value : PartValue} (h : volume.serialize = .ok value) :
    Loads inet value ∧ sectors value = volume.count := by
  obtain ⟨host, hhost, hvalue⟩ := of_bind_ok h
  obtain rfl := Except.ok.inj hvalue
  obtain ⟨addr, hload⟩ := load_of_host hhost
  exact ⟨fun k => ⟨_, (hload k).1⟩, rfl⟩

end RealVolume

/-- An array of parts, and the total of their sectors. -/
structure RealVolumeArray (Addr : Type) where
  index : Nat
  volumes : List (RealVolume Addr)
  totalSectors : UInt64
  total : totalSectors = (volumes.map RealVolume.count).sum

namespace RealVolumeArray

theorem sum_concat {Addr : Type} (volumes : List (RealVolume Addr)) (volume : RealVolume Addr) :
    ((volumes ++ [volume]).map RealVolume.count).sum = (volumes.map RealVolume.count).sum +
      volume.count := by
  rw [List.map_append, List.sum_append, List.map_singleton, List.sum_singleton]

def empty (Addr : Type) (index : Nat) : RealVolumeArray Addr := ⟨index, [], 0, rfl⟩

def add {Addr : Type} (array : RealVolumeArray Addr) (volume : RealVolume Addr) :
    RealVolumeArray Addr where
  index := array.index
  volumes := array.volumes ++ [volume]
  totalSectors := array.totalSectors + volume.count
  total := by rw [sum_concat, array.total]

def new {Addr : Type} (volume : RealVolume Addr) (index : Nat) : RealVolumeArray Addr :=
  (empty Addr index).add volume

variable (inet : HostUtil)

def loadLoop : List PartValue → Nat → RealVolumeArray inet.Addr →
    Except (Failure String) (RealVolumeArray inet.Addr)
  | [], _, array => .ok array
  | value :: values, counter, array => do
    let volume ← RealVolume.load inet value counter
    loadLoop values (counter + 1) (array.add volume)

/-- What is stored is an array of parts, or something else; null is an array without parts. -/
def load (value : Option (List PartValue)) (key : Nat) :
    Except (Failure String) (RealVolumeArray inet.Addr) :=
  match value with
  | none => .error (.thrown " must be array format\n")
  | some values => loadLoop inet values 0 (empty _ key)

variable {inet}

def serialize (array : RealVolumeArray inet.Addr) : Except (Failure String)
    (Option (List PartValue)) := do
  return some (← array.volumes.mapM RealVolume.serialize)

def validLoop : List (RealVolume inet.Addr) → Except (Failure String) Bool
  | [] => .ok true
  | volume :: volumes => do
    if ← volume.valid then validLoop volumes else return false

def valid (array : RealVolumeArray inet.Addr) : Except (Failure String) Bool :=
  match validLoop array.volumes with
  | .error (.thrown what) =>
    .error (.thrown ("Volume array[" ++ toString array.index ++ "] : " ++ what ++ "\n"))
  | result => result

variable (inet) in
def configInfo : ConfigInfo (RealVolumeArray inet.Addr) Nat (Option (List PartValue)) :=
  ⟨fun array => .ok array.index, serialize, valid, load inet⟩

theorem mapM_ok {A B : Type} {f : A → Except (Failure String) B} {as : List A} :
    ∀ {bs : List B}, as.mapM f = .ok bs → List.Forall₂ (fun a b => f a = .ok b) as bs := by
  induction as with
  | nil =>
    intro bs h
    rw [← Except.ok.inj h]
    exact .nil
  | cons a as ih =>
    intro bs h
    rw [List.mapM_cons] at h
    obtain ⟨b, hb, h⟩ := of_bind_ok h
    obtain ⟨bs', hbs, h⟩ := of_bind_ok h
    rw [← Except.ok.inj h]
    exact .cons hb (ih hbs)

theorem mapM_ok_of_forall {A B : Type} {f : A → Except (Failure String) B} {as : List A}
    (h : ∀ a ∈ as, ∃ b, f a = .ok b) :
    ∃ bs, as.mapM f = .ok bs := by
  induction as with
  | nil => exact ⟨[], rfl⟩
  | cons a as ih =>
    obtain ⟨⟨b, hb⟩, has⟩ := List.forall_mem_cons.mp h
    obtain ⟨bs, hbs⟩ := ih has
    refine ⟨b :: bs, ?_⟩
    rw [List.mapM_cons, hb, hbs]
    rfl

theorem toNat_sum (counts : List UInt64) : counts.sum.toNat =
    (counts.map UInt64.toNat).sum % 2 ^ 64 := by
  induction counts with
  | nil => rfl
  | cons count counts ih =>
    rw [List.sum_cons, List.map_cons, List.sum_cons, UInt64.toNat_add, ih, Nat.add_mod_mod]

/-- The parts of a stored array, of which there are none when it is not one or not there. -/
def partsOf (value : Option (Option (List PartValue))) : List PartValue := value.join.getD []

/-- The sectors of parts. -/
def size (values : List PartValue) : Nat :=
  (values.map fun value => (RealVolume.sectors value).toNat).sum

variable {array : RealVolumeArray inet.Addr}

/-- The parts that are read, one for each stored part. -/
def Read (values : List PartValue) (volumes : List (RealVolume inet.Addr)) : Prop :=
  List.Forall₂ (fun value volume => ∃ k, RealVolume.load inet value k = .ok volume) values volumes

theorem loadLoop_eq {values : List PartValue} (h : ∀ value ∈ values, RealVolume.Loads inet value) :
    ∀ counter (array : RealVolumeArray inet.Addr), ∃ volumes array', Read values volumes ∧
      loadLoop inet values counter array = .ok array' ∧ array'.index = array.index ∧
      array'.volumes = array.volumes ++ volumes := by
  induction values with
  | nil => exact fun _ array => ⟨[], array, .nil, rfl, rfl, (List.append_nil _).symm⟩
  | cons value values ih =>
    intro counter array
    obtain ⟨hvalue, hvalues⟩ := List.forall_mem_cons.mp h
    obtain ⟨volume, hload⟩ := hvalue counter
    obtain ⟨volumes, array', hread, hloop, hindex, hvolumes⟩ :=
      ih hvalues (counter + 1) (array.add volume)
    refine ⟨volume :: volumes, array', .cons ⟨counter, hload⟩ hread, ?_, hindex, ?_⟩
    · rw [loadLoop, hload]
      exact hloop
    · rw [hvolumes]
      exact List.append_assoc ..

theorem load_eq {values : List PartValue} (h : ∀ value ∈ values, RealVolume.Loads inet value)
    (key : Nat) :
    ∃ array, load inet (some values) key = .ok array ∧ array.index = key ∧
      Read values array.volumes := by
  obtain ⟨volumes, array, hread, hloop, hindex, hvolumes⟩ := loadLoop_eq h 0 (empty _ key)
  exact ⟨array, hloop, hindex, hvolumes ▸ hread⟩

theorem sectors_of_read {values : List PartValue} {volumes : List (RealVolume inet.Addr)}
    (h : Read values volumes) :
    volumes.map RealVolume.count = values.map RealVolume.sectors := by
  induction h with
  | nil => rfl
  | cons hread _ ih =>
    obtain ⟨k, hload⟩ := hread
    rw [List.map_cons, List.map_cons, ih, RealVolume.count_of_load hload]

theorem totalSectors_of_read {values : List PartValue} (h : Read values array.volumes) :
    array.totalSectors.toNat = size values % 2 ^ 64 := by
  rw [array.total, sectors_of_read h, toNat_sum, List.map_map]
  rfl

theorem validLoop_cases (volumes : List (RealVolume inet.Addr)) :
    validLoop volumes ≠ .ok false ∧ (validLoop volumes = .ok true →
      ∀ volume ∈ volumes, volume.valid = .ok true) := by
  induction volumes with
  | nil => exact ⟨nofun, fun _ => List.forall_mem_nil _⟩
  | cons volume volumes ih =>
    cases hvalid : volume.valid with
    | error failure =>
      rw [validLoop, hvalid]
      exact ⟨nofun, nofun⟩
    | ok b =>
      obtain rfl : b = true := eq_true_of_ne_false fun hb => RealVolume.valid_ne_false (hb ▸ hvalid)
      have hloop : validLoop (volume :: volumes) = validLoop volumes := by
        rw [validLoop, hvalid]
        rfl
      rw [hloop]
      exact ⟨ih.1, fun htrue => List.forall_mem_cons.mpr ⟨hvalid, ih.2 htrue⟩⟩

theorem valid_ne_false : array.valid ≠ .ok false := by
  unfold valid
  split
  · nofun
  · exact (validLoop_cases _).1

theorem serialize_of_valid (h : array.valid = .ok true) : ∃ values, array.serialize = .ok (some values) ∧
    List.Forall₂ (fun volume value => volume.serialize = .ok value) array.volumes values := by
  have hloop : validLoop array.volumes = .ok true := by
    unfold valid at h
    split at h
    · cases h
    · exact h
  obtain ⟨values, hvalues⟩ := mapM_ok_of_forall fun volume hvolume =>
    RealVolume.serialize_of_valid ((validLoop_cases _).2 hloop volume hvolume)
  refine ⟨values, ?_, mapM_ok hvalues⟩
  unfold serialize
  rw [hvalues]
  rfl

theorem loads_of_stored {volumes : List (RealVolume inet.Addr)} {values : List PartValue}
    (h : List.Forall₂ (fun volume value => volume.serialize = .ok value) volumes values) :
    (∀ value ∈ values, RealVolume.Loads inet value) ∧
      values.map RealVolume.sectors = volumes.map RealVolume.count := by
  induction h with
  | nil => exact ⟨List.forall_mem_nil _, rfl⟩
  | cons hserialize _ ih =>
    obtain ⟨hloads, hsectors⟩ := RealVolume.loads_of_serialize hserialize
    refine ⟨List.forall_mem_cons.mpr ⟨hloads, ih.1⟩, ?_⟩
    rw [List.map_cons, List.map_cons, hsectors, ih.2]

end RealVolumeArray

end Sstoraged.VolumeConfigurator
