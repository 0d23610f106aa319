import Sstoraged.Target

namespace Sstoraged

/-- A Login request; its data segment is a list of texts. -/
structure LoginRequest where
  opCode : Nat := LoginSession.opLoginCmd
  immediate : Bool := true
  flags : UInt8
  sid : Nat
  tsih : Nat := 0
  cid : Nat
  itt : Nat := 0
  expstatsn : Nat := 0
  data : List String

namespace LoginRequest

def flagTransit : UInt8 := 0x80
def flagContinue : UInt8 := 0x40

def isTransit (req : LoginRequest) : Bool := decide (req.flags &&& flagTransit ≠ 0)
def isContinue (req : LoginRequest) : Bool := decide (req.flags &&& flagContinue ≠ 0)
def currentStage (req : LoginRequest) : UInt8 := (req.flags &&& 0x0c) >>> 2
def nextStage (req : LoginRequest) : UInt8 := req.flags &&& 0x03

def valid (req : LoginRequest) : Bool :=
  decide (req.opCode = LoginSession.opLoginCmd) && req.isTransit && !req.isContinue

/-- The stage that the request leads to, `0xff` for none. -/
def stage (req : LoginRequest) : UInt8 := LoginSession.shiftLoginStage req.currentStage req.nextStage

end LoginRequest

def SessionType.ofString (str : String) : SessionType :=
  if str = "Discovery" then .discovery else if str = "Normal" then .normal else .login

namespace Target

def setType (w : Target) (id : Nat) (type : SessionType) : Target :=
  w.setSes id { w.ses id with window := { (w.ses id).window with type } }

def setSid (w : Target) (id fd sid cid : Nat) : Target :=
  (w.setSes id { w.ses id with sid }).setConn fd { w.conn fd with cid }

def advanceSTATSN (w : Target) (fd : Nat) : Target :=
  w.setConn fd { w.conn fd with statsn := advanceSn (w.conn fd).statsn }

def handle1stDiscoveryRequest (w : Target) (id fd : Nat) (req : LoginRequest) :
    Outcome Pointer Target (Target × List SessionTask) := do
  if w.findSession req.sid then .error (.failed w)
  else
    w.findConnection id fd
    return (w.setSid id fd req.sid req.cid, [])

/-- The connection joins the session of a reactor, in place of the one that is
restarted, if any. The session is asked for a connection by the CID of the request. -/
def joinSession (w : Target) (id fd r : Nat) (req : LoginRequest) : Outcome Pointer Target Target :=
  let old := (w.reactor r).session
  if req.cid ∈ (w.ses old).connection then
    if req.expstatsn ≠ (w.conn req.cid).statsn then .error (.failed w)
    else do
      w.findConnection id fd
      let w := w.setConn fd { w.conn fd with statsn := (w.conn req.cid).statsn }
      return ((w.delConnection old req.cid).changeListener fd r).addConnection old fd
  else do
    w.findConnection id fd
    return (w.changeListener fd r).addConnection old fd

def handle1stNormalRequest (w : Target) (id fd : Nat) (req : LoginRequest) :
    Outcome Pointer Target (Target × List SessionTask) :=
  match w.findReactor req.sid with
  | none =>
    if req.tsih ≠ 0 then .error (.failed w)
    else do
      w.findConnection id fd
      return (w.setSid id fd req.sid req.cid, [.createReactor id fd])
  | some r =>
    let old := (w.reactor r).session
    if req.tsih = 0 then do
      w.findConnection id fd
      return (w.setSid id fd req.sid req.cid, [.removeReactor old, .createReactor id fd])
    else if req.tsih ≠ (w.ses old).tsih then .error (.failed w)
    else do
      let w ← w.joinSession id fd r req
      return (w.setSid id fd req.sid req.cid, [.closeSession id])

def handle1stRequest (w : Target) (id fd : Nat) (req : LoginRequest) :
    Outcome Pointer Target (Target × List SessionTask) :=
  match (w.ses id).window.type with
  | .discovery => w.handle1stDiscoveryRequest id fd req
  | .normal => w.handle1stNormalRequest id fd req
  | .login => .error (.failed w)

/-- Only the first request of a session sets its type. -/
def firstType (s : LoginSession) (pairs : List (String × String)) : SessionType :=
  if s.window.type = .login then .ofString (getPairValue pairs "SessionType") else s.window.type

def beginSession (w : Target) (id fd : Nat) (req : LoginRequest) (pairs : List (String × String)) :
    Outcome Pointer Target (Target × List SessionTask) :=
  if (w.ses id).window.type = .login then
    (w.setType id (firstType (w.ses id) pairs)).handle1stRequest id fd req
  else .ok (w, [])

/-- A session gets its TSIH when it first reaches the full feature phase. -/
def setTSIH (w : Target) (id : Nat) : Target :=
  if (w.ses id).tsih = 0 then w.getNextTSIH.2.setSes
    id { w.ses id with tsih := Tsih.store w.getNextTSIH.1 }
  else w

/-- The shift of the session to the stage that the request leads to. -/
def shiftStage (w : Target) (id : Nat) (nsg : UInt8) : Outcome Pointer Target Target := do
  if nsg = 0 ∨ nsg = 1 then return w
  else if nsg = 3 then
    let w := w.setTSIH id
    return w.setSes id (← (w.ses id).shift.mapError (Stop.map (w.setSes id)))
  else .error (.failed w)

/-- The pairs of the request are handled, and answered. -/
def negotiate (cfg : Config) (w : Target) (id : Nat) (pairs : List (String × String)) :
    Outcome Pointer Target (Target × List (String × String)) := do
  let (s, reply) ← (handlePairs cfg pairs pairs (w.ses id) []).mapError (Stop.map (w.setSes id))
  return (w.setSes id s, reply)

/-- `LoginHandler::handle`, with the size of the pool at this moment and the addresses
of the new tasks. -/
def handleLogin (cfg : Config) (l : LinearLimitter) (w : Target) (id fd poolnum : Nat)
    (addr : SessionTask → Nat) (req : LoginRequest) : Outcome Pointer Target Target := do
  if !req.valid then .error (.failed w)
  else
    let pairs ← (parsePairs cfg req.data).mapError (Stop.map fun _ => w)
    let (w, tasks) ← w.beginSession id fd req pairs
    let s ← .ofOption ((w.ses id).advanceCMDSNs l poolnum req.immediate)
    let w := w.setSes id s
    w.findConnection id fd
    let statsn := (w.conn fd).statsn
    let (w, reply) ← (w.advanceSTATSN fd).negotiate cfg id pairs
    let w ← w.shiftStage id req.stage
    return w.pushTasks id addr (.sendLogin fd
      { flags := LoginRequest.flagTransit ||| (req.currentStage <<< 2 ||| req.stage),
        itt := req.itt, statsn
        expcmdsn := s.window.expcmdsn, maxcmdsn := s.window.maxcmdsn
        sid := s.sid, pairs := reply } :: tasks)

end Target

end Sstoraged
