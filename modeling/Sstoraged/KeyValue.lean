import Sstoraged.LoginSession

namespace Sstoraged

/-- The configuration that sessions read: their numbers and flags, and the initiators
by name, each with its volumes unless one of them is missing. The conversion of
texts to numbers of some width throws where it has no result. -/
structure Config where
  nums : String → Nat
  flags : String → Bool
  initiators : List (String × Option (List LogicalVolume))
  globalTargetName : String
  digest : String → String
  lexicalCast : Nat → String → Option Nat

/-- The text in front of the last `=` and the text behind it. -/
def getKeyValuePair (str : String) : String × String :=
  let behind := str.toList.reverse.takeWhile (· ≠ '=')
  match str.toList.reverse.dropWhile (· ≠ '=') with
  | [] => ("", "")
  | _ :: before => (String.ofList before.reverse, String.ofList behind.reverse)

/-- The first `n` characters are the same but for their case. -/
def strncasecmp : List Char → List Char → Nat → Bool
  | _, _, 0 => true
  | [], [], _ + 1 => true
  | a :: as, b :: bs, n + 1 => decide (a.toLower = b.toLower) && strncasecmp as bs n
  | _, _, _ + 1 => false

def find (value sub : String) : Bool := value.toList.tails.any fun l => sub.toList.isPrefixOf l

inductive PairValidator
  | alwaysTrue
  | initiatorName
  | authMethod
  | sessionType
  | targetName
  | digest
  | boolString
  | rangeCast (min max : Nat)

def valueMaxlen : Nat := 255

namespace PairValidator

def segmentLenMin : Nat := 512
def segmentLenMax : Nat := 1024 * 1024 * 16 - 1

def valid (cfg : Config) (value : String) : PairValidator → Option Bool
  | alwaysTrue => some (decide (value.length ≤ valueMaxlen))
  | initiatorName => some (decide (value.length ≤ valueMaxlen) && (cfg.initiators.lookup value).isSome)
  | authMethod => some (decide (value.length ≤ valueMaxlen) && (value == "None" || value == "CHAP,None"))
  | sessionType =>
    some (decide (value.length ≤ valueMaxlen) && (value == "Discovery" || value == "Normal"))
  | targetName => some (decide (value.length ≤ valueMaxlen) &&
      strncasecmp value.toList cfg.globalTargetName.toList value.length)
  | digest => some (decide (value.length ≤ valueMaxlen) &&
      (value == "None" || value == "None,CRC32C" || value == "CRC32C,None"))
  | boolString => some (decide (value.length ≤ valueMaxlen) && (value == "No" || value == "Yes"))
  | rangeCast min max => (cfg.lexicalCast 64 value).map fun n => decide (min ≤ n ∧ n ≤ max)

end PairValidator

open PairValidator in
def pairValidators : List (String × PairValidator) :=
  [("InitiatorName", initiatorName), ("InitiatorAlias", alwaysTrue), ("AuthMethod", authMethod),
    ("SessionType", sessionType), ("TargetName", targetName), ("TargetAlias", alwaysTrue),
    ("HeaderDigest", digest), ("DataDigest", digest), ("IFMarker", boolString), ("OFMarker", boolString),
    ("MaxRecvDataSegmentLength", rangeCast segmentLenMin segmentLenMax),
    ("DefaultTime2Wait", rangeCast 0 3600), ("DefaultTime2Retain", rangeCast 0 3600),
    ("ErrorRecoveryLevel", rangeCast 0 2), ("MaxConnections", rangeCast 1 65535),
    ("MaxBurstLength", rangeCast segmentLenMin segmentLenMax),
    ("FirstBurstLength", rangeCast segmentLenMin segmentLenMax),
    ("MaxOutstandingR2T", rangeCast 1 65535), ("InitialR2T", boolString), ("ImmediateData", boolString),
    ("DataPDUInOrder", boolString), ("DataSequenceInOrder", boolString),
    ("X-com.cisco.PingTimeout", alwaysTrue), ("X-com.cisco.sendAsyncText", alwaysTrue),
    ("X-com.cisco.protocol", alwaysTrue)]

/-- The handlers that negotiate a number or a flag have its name as a parameter. -/
inductive PairHandler
  | initiatorName
  | initiatorAlias
  | authMethod
  | nothingTodo
  | targetAlias
  | digest (attr : String)
  | maxRecvDataSegmentLength
  | negotiateMax (attr : String)
  | negotiateMin (attr : String)
  | normalMin (attr : String)
  | normalOr (attr : String)
  | normalAnd (attr : String)
  | negotiateAnd (attr : String)
  deriving DecidableEq

open PairHandler in
def pairHandlers : List (String × PairHandler) :=
  [("InitiatorName", initiatorName), ("InitiatorAlias", initiatorAlias), ("AuthMethod", authMethod),
    ("SessionType", nothingTodo), ("TargetName", nothingTodo), ("TargetAlias", targetAlias),
    ("HeaderDigest", digest "HeaderDigest"), ("DataDigest", digest "DataDigest"),
    ("MaxRecvDataSegmentLength", maxRecvDataSegmentLength),
    ("DefaultTime2Wait", negotiateMax "DefaultTime2Wait"),
    ("DefaultTime2Retain", negotiateMin "DefaultTime2Retain"),
    ("ErrorRecoveryLevel", negotiateMin "ErrorRecoveryLevel"),
    ("MaxConnections", normalMin "MaxConnections"), ("MaxBurstLength", normalMin "MaxBurstLength"),
    ("FirstBurstLength", normalMin "FirstBurstLength"),
    ("MaxOutstandingR2T", normalMin "MaxOutstandingR2T"), ("InitialR2T", normalOr "InitialR2T"),
    ("ImmediateData", normalAnd "ImmediateData"), ("DataPDUInOrder", normalOr "DataPDUInOrder"),
    ("DataSequenceInOrder", normalOr "DataSequenceInOrder"), ("IFMarker", negotiateAnd "IFMarker"),
    ("OFMarker", negotiateAnd "OFMarker"), ("X-com.cisco.PingTimeout", nothingTodo),
    ("X-com.cisco.sendAsyncText", nothingTodo), ("X-com.cisco.protocol", nothingTodo)]

namespace PairHandler

abbrev Pairs := List (String × String)

/-- Negotiate a number that the session keeps under a name. -/
def negotiateNum (cfg : Config) (f : Nat → Nat → Nat) (attr value : String) (s : LoginSession)
    (reply : Pairs) : Outcome Pointer LoginSession (LoginSession × Pairs) := do
  let n ← .ofOption (cfg.lexicalCast 32 value)
  let negotiated := f (s.nums attr) n
  return ({ s with nums := Function.update s.nums attr negotiated },
    reply ++ [(attr, toString negotiated)])

def negotiateFlag (f : Bool → Bool → Bool) (attr value : String) (s : LoginSession) (reply : Pairs) :
    Outcome Pointer LoginSession (LoginSession × Pairs) :=
  let negotiated := f (s.flags attr) (value == "Yes")
  .ok ({ s with flags := Function.update s.flags attr negotiated },
    reply ++ [(attr, if negotiated then "Yes" else "No")])

/-- The key has no meaning in a session of another type. -/
def normalOnly (s : LoginSession) (r : Outcome Pointer LoginSession (LoginSession × Pairs)) :
    Outcome Pointer LoginSession (LoginSession × Pairs) :=
  if s.window.type = .normal then r else .error (.failed s)

def getInitiator (s : LoginSession) : Outcome Pointer LoginSession ISCSIInitiator :=
  match s.initiator with
  | none => .error (.null .initiator)
  | some initiator => .ok initiator

def authenticate (value : String) (s : LoginSession) (initiator : ISCSIInitiator) (reply : Pairs) :
    LoginSession × Pairs :=
  let chap := find value "CHAP"
  let none := find value "None"
  let authens := initiator.authens ++ (if chap then [("CHAP", s.window.type)] else []) ++
    if none then [("None", s.window.type)] else []
  let method := if chap then (if none then "CHAP,None" else "CHAP") else if none then "None" else ""
  ({ s with initiator := some { initiator with authens } }, reply ++ [("AuthMethod", method)])

def negotiateDigest (cfg : Config) (attr value : String) : String :=
  let crc := find (cfg.digest attr) "CRC32C" && find value "CRC32C"
  let none := find (cfg.digest attr) "None" && find value "None"
  if crc then (if none then "CRC32C,None" else "CRC32C") else if none then "None" else ""

def handle (cfg : Config) (value : String) (s : LoginSession) (reply : Pairs) :
    PairHandler → Outcome Pointer LoginSession (LoginSession × Pairs)
  | initiatorName =>
    match cfg.initiators.lookup value with
    | some (some lvs) =>
      .ok ({ s with initiator := some { name := value, lvs } }, reply ++ [("TargetPortalGroupTag", "1")])
    | _ => .error (.failed s)
  | initiatorAlias => do
    let initiator ← getInitiator s
    return ({ s with initiator := some { initiator with aliasName := value } }, reply)
  | authMethod =>
    if find value "CHAP" ∨ find value "None" then do
      let initiator ← getInitiator s
      return authenticate value s initiator reply
    else .ok (s, reply ++ [("AuthMethod", "")])
  | nothingTodo | targetAlias => .ok (s, reply)
  | digest attr => .ok (s, reply ++ [(attr, negotiateDigest cfg attr value)])
  | maxRecvDataSegmentLength => do
    let mrds ← .ofOption (cfg.lexicalCast 32 value)
    let initiator ← getInitiator s
    return ({ s with initiator := some { initiator with maxRecvDataSegmentLength := mrds } },
      reply ++ [("MaxRecvDataSegmentLength", toString (s.nums "MaxRecvDataSegmentLength"))])
  | negotiateMax attr => negotiateNum cfg max attr value s reply
  | negotiateMin attr => negotiateNum cfg min attr value s reply
  | normalMin attr => normalOnly s (negotiateNum cfg min attr value s reply)
  | normalOr attr => normalOnly s (negotiateFlag or attr value s reply)
  | normalAnd attr => normalOnly s (negotiateFlag and attr value s reply)
  | negotiateAnd attr => negotiateFlag and attr value s reply

end PairHandler

/-- Parse one key and check its value. Without a result the check throws. -/
def parsePair (cfg : Config) (apair : String × String) : Option Bool :=
  match pairValidators.lookup apair.1 with
  | none => some false
  | some v => v.valid cfg apair.2

/-- The pairs of the data segment, which is a list of texts. -/
def parsePairs (cfg : Config) : List String → Outcome Pointer Unit (List (String × String))
  | [] => .ok []
  | str :: data => do
    let apair := getKeyValuePair str
    if ← .ofOption (parsePair cfg apair) then
      return apair :: (← parsePairs cfg data)
    else .error (.failed ())

/-- The value of the first pair with the key. -/
def getPairValue (pairs : List (String × String)) (key : String) : String := (pairs.lookup key).getD ""

/-- Handle one key of a request, with the first value that the request has for it. -/
def handlePair (cfg : Config) (pairs : List (String × String)) (key : String) (s : LoginSession)
    (reply : List (String × String)) : Outcome Pointer LoginSession
      (LoginSession × List (String × String)) :=
  match pairHandlers.lookup key with
  | none => .error (.null .pairHandler)
  | some h => do
    let value := getPairValue pairs key
    let (s, reply) ← h.handle cfg value s reply
    return ({ s with accepted := s.accepted ++ [(key, value)] }, reply)

/-- Handle keys in the order of the request. -/
def handlePairs (cfg : Config) (pairs : List (String × String)) :
    List (String × String) → LoginSession → List (String × String) →
      Outcome Pointer LoginSession (LoginSession × List (String × String))
  | [], s, reply => .ok (s, reply)
  | (key, _) :: rest, s, reply => do
    let (s, reply) ← handlePair cfg pairs key s reply
    handlePairs cfg pairs rest s reply

end Sstoraged
