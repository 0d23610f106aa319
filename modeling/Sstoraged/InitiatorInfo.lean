import Mathlib.Data.List.Infix
import Sstoraged.Json

namespace Sstoraged

open Json

inductive Stage
  | discovery
  | session
  deriving DecidableEq

inductive Role
  | initiator
  | target
  deriving DecidableEq

def Stage.name : Stage → String
  | discovery => "Discovery"
  | session => "Session"

def Stage.ofState (state : String) : Option Stage :=
  if state = "Discovery" then some .discovery else if state = "Session" then some .session else none

theorem Stage.ofState_name (stage : Stage) : Stage.ofState stage.name = some stage := by
  cases stage <;> decide

def Role.name : Role → String
  | initiator => "Initiator"
  | target => "Target"

/-- The names of members that an initiator has, and all others. -/
inductive Attr
  | initiatorName
  | initiatorAlias
  | initiatorAddress
  | lun
  | authMethod (stage : Stage)
  | username (stage : Stage) (role : Role)
  | password (stage : Stage) (role : Role)
  | other (name : String)
  deriving DecidableEq

def Attr.name : Attr → String
  | initiatorName => "InitiatorName"
  | initiatorAlias => "InitiatorAlias"
  | initiatorAddress => "InitiatorAddress"
  | lun => "LUN"
  | authMethod stage => stage.name ++ "AuthMethod"
  | username stage role => stage.name ++ role.name ++ "Username"
  | password stage role => stage.name ++ role.name ++ "Password"
  | other name => name

/-- What the system does with addresses. An address that can be printed is printed in the
form that is read. -/
structure InetUtil where
  Addr : Type
  zero : Addr
  getSockAddr : String → Option Addr
  getAddrPortStr : Addr → Option String
  getSockAddr_isSome : ∀ addr str, getAddrPortStr addr = some str → (getSockAddr str).isSome = true

structure AuthInfoiSCSI where
  method : String
  state : String
  name : String := ""
  password : String := ""
  deriving DecidableEq

/-- `std::string::find` finds the text. -/
def contains (method text : String) : Bool := decide (text.toList <:+: method.toList)

/-- An initiator of the configuration, without its LUNs. -/
structure InitiatorInfo (Addr : Type) where
  getName : String
  getAlias : String
  address : Addr
  peers : List AuthInfoiSCSI
  myowns : List AuthInfoiSCSI

namespace InitiatorInfo

/-- The entry that the members of a role stand for. -/
def readChap (value : Members Attr) (method : String) (stage : Stage) (role : Role) :
    Except (Failure String) (List AuthInfoiSCSI) := do
  if contains method "CHAP" && value.isMember (.username stage role) &&
    value.isMember (.password stage role) then
    let name ← (value.get (.username stage role)).asString
    let password ← (value.get (.password stage role)).asString
    return [{ method := "CHAP", state := stage.name, name, password }]
  else return []

/-- The peer entries and the own entries of a stage. -/
def readStage (value : Members Attr) (stage : Stage) :
    Except (Failure String) (List AuthInfoiSCSI × List AuthInfoiSCSI) := do
  if value.isMember (.authMethod stage) then
    let method ← (value.get (.authMethod stage)).asString
    let none := if contains method "None" then [{ method := "None", state := stage.name }] else []
    let peers ← readChap value method stage .initiator
    let myowns ← readChap value method stage .target
    return (none ++ peers, none ++ myowns)
  else return ([], [])

def readName (value : Members Attr) : Except (Failure String) String :=
  if value.isMember .initiatorName then (value.get .initiatorName).asString
  else .error (.thrown "InitiatorName is not specified\n")

def readAlias (value : Members Attr) (name : String) : Except (Failure String) String :=
  if value.isMember .initiatorAlias then (value.get .initiatorAlias).asString else .ok name

/-- An address that can not be read leaves the one from before. -/
def readAddress (inet : InetUtil) (value : Members Attr) : Except (Failure String) inet.Addr := do
  if value.isMember .initiatorAddress then
    let str ← (value.get .initiatorAddress).asString
    return (inet.getSockAddr str).getD inet.zero
  else return inet.zero

/-- The constructor from an object of the configuration. -/
def new (inet : InetUtil) (value : Members Attr) : Except (Failure String)
    (InitiatorInfo inet.Addr) := do
  let getName ← readName value
  let getAlias ← readAlias value getName
  let address ← readAddress inet value
  let discovery ← readStage value .discovery
  let session ← readStage value .session
  return { getName, getAlias, address, peers := discovery.1 ++ session.1,
           myowns := discovery.2 ++ session.2 }

/-- The first method of a stage is stored, and the next ones are appended to it. -/
def putMethod (tmp : Members Attr) (stage : Stage) (method : String) :
    Except (Failure String) (Members Attr) := do
  let old := tmp.get (.authMethod stage)
  if 0 < (← old.asString).length then
    return tmp.set (.authMethod stage) (← old.append (.string ("|" ++ method)))
  else return tmp.set (.authMethod stage) (.string method)

def putNames (tmp : Members Attr) (stage : Stage) (role : Role) (info : AuthInfoiSCSI) : Members Attr :=
  (tmp.set (.username stage role) (.string info.name)).set (.password stage role) (.string info.password)

def putPeer (tmp : Members Attr) (info : AuthInfoiSCSI) : Except (Failure String) (Members Attr) :=
  match Stage.ofState info.state with
  | none => .ok tmp
  | some stage => do
    let tmp ← putMethod tmp stage info.method
    return putNames tmp stage .initiator info

/-- For the own entries the method is stored once more. -/
def putMyown (tmp : Members Attr) (info : AuthInfoiSCSI) : Except (Failure String) (Members Attr) :=
  match Stage.ofState info.state with
  | none => .ok tmp
  | some stage => do
    let tmp ← putMethod tmp stage info.method
    return putNames (tmp.set (.authMethod stage) (.string info.method)) stage .target info

variable (inet : InetUtil)

/-- The address is left out when it can not be printed; the compiler may have made an
empty member for it by then. -/
def putAddress (early : Bool) (tmp : Members Attr) (address : inet.Addr) : Members Attr :=
  match inet.getAddrPortStr address with
  | some str => tmp.set .initiatorAddress (.string str)
  | none => if early then tmp.set .initiatorAddress .null else tmp

def serialize (early : Bool) (info : InitiatorInfo inet.Addr) :
    Except (Failure String) (Members Attr) := do
  let tmp := [(.initiatorName, .string info.getName), (.initiatorAlias, .string info.getAlias)]
  let tmp := putAddress inet early tmp info.address
  let tmp ← info.peers.foldlM putPeer tmp
  info.myowns.foldlM putMyown tmp

def required : List Attr := [.initiatorAlias, .initiatorName]

def pathMax : Nat := 4096

/-- `LengthValidator::valid`. -/
def lengthValid (min max : Nat) (challenge : String) : Bool :=
  decide (min ≤ challenge.length) && decide (challenge.length ≤ max)

/-- The validators of `InitiatorValidator`; there is one for each name that is required or
optional. -/
def validator : Attr → Option (String → Bool)
  | .initiatorAlias | .initiatorName => some (lengthValid 1 pathMax)
  | .initiatorAddress => some fun addrstr => (inet.getSockAddr addrstr).isSome
  | .lun | .authMethod _ => some fun _ => true
  | .username _ _ | .password _ _ => some (lengthValid 1 128)
  | .other _ => none

def attrsSatisfied (root : Members Attr) : Except (Failure String) Bool :=
  match (root.getMemberNames Attr.name).find? fun attr => (validator inet attr).isNone with
  | some attr => .error (.thrown ("Invalid attribute " ++ attr.name ++ " found"))
  | none =>
    match required.find? fun attr => attr ∉ root.getMemberNames Attr.name with
    | some attr => .error (.thrown (attr.name ++ " is not specified\n"))
    | none => .ok true

/-- The complaint about a member, if there is one. -/
def complaint (root : Members Attr) (attr : Attr) : Option String :=
  match root.get attr with
  | .string value =>
    if (validator inet attr).any (· value) then none else some (attr.name ++ " is invalid\n")
  | _ => some ("Unsupported type : " ++ attr.name)

def validAttrs (root : Members Attr) : Except (Failure String) Bool :=
  match (root.getMemberNames Attr.name).filterMap (complaint inet root) with
  | [] => .ok true
  | errors => .error (.thrown (String.join errors))

def valid (early : Bool) (info : InitiatorInfo inet.Addr) : Except (Failure String) Bool := do
  let tmp ← info.serialize inet early
  if ← attrsSatisfied inet tmp then validAttrs inet tmp else return false

def validPeer {Addr : Type} (info : InitiatorInfo Addr) (auth : AuthInfoiSCSI) : Bool :=
  if contains auth.method "None" then
    info.peers.any fun peer => auth.state == peer.state && auth.method == "None"
  else if contains auth.method "CHAP" then
    info.peers.any fun peer => auth.state == peer.state && auth.method == "CHAP" &&
      auth.name == peer.name &&
      auth.password == peer.password
  else false

end InitiatorInfo

end Sstoraged
