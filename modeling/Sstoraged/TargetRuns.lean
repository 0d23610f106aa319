import Sstoraged.Logout

namespace Sstoraged

/-- The kinds of PDUs other than logins and logouts. -/
inductive PduKind
  | text
  | command
  | dataOut
  | nopOut
  | nopIn
  | taskMng
  | unsupported
  deriving DecidableEq

namespace PduKind

def opCode : PduKind → Option Nat
  | text => some LoginSession.opTextCmd
  | command => some LoginSession.opScsiCmd
  | dataOut => some LoginSession.opScsiData
  | nopOut => some LoginSession.opNoopOut
  | nopIn => some LoginSession.opNoopIn
  | taskMng => some LoginSession.opTaskMgtReq
  | unsupported => none

/-- The handlers that step the command window. -/
def steps : PduKind → Bool
  | text | command | nopOut | taskMng => true
  | dataOut | nopIn | unsupported => false

end PduKind

/-- Logins and logouts with their contents, and the addresses of the tasks that they
queue; of the others what they do to the session. -/
inductive Pdu
  | login (poolnum : Nat) (addr : SessionTask → Nat) (req : LoginRequest)
  | logout (addr : SessionTask → Nat) (req : LogoutRequest)
  | other (kind : PduKind) (poolnum : Nat) (immediate accepted : Bool)

/-- What happens to the target: a connection is accepted, brings a PDU or is closed by
its peer, a session's queue is invoked, a reactor leaves its loop, and a connection
that no session has any more is destroyed. -/
inductive TargetEvent
  | accept (fd : Nat)
  | pdu (id fd : Nat) (pdu : Pdu)
  | close (id fd : Nat)
  | run (id : Nat) (sent : RunResult)
  | exit (r : Nat)
  | destroy (fd : Nat)

namespace Target

/-- No session is there. -/
def start : Target where
  ses _ := { nums := fun _ => 0, flags := fun _ => false, protos := fun _ => none, connection := [] }
  accepted := 0
  conn _ := { listener := none }
  ports _ := []
  sessions := []
  reactor _ := ⟨0, false⟩
  constructed := 0
  reactors := []
  tsihGen := 1

def isCreateReactor (id : Nat) : SessionTask → Bool
  | .createReactor id' _ => decide (id' = id)
  | _ => false

/-- Someone has the session: the pool, a registered reactor, or the task that is to
hand it to a reactor. -/
def isHeld (w : Target) (id : Nat) : Bool :=
  w.pooled id || w.reactors.any (fun r => (w.reactor r).session = id) ||
    (w.ses id).sendtask.any fun t => isCreateReactor id t.2

/-- The connection belongs to a session that someone has. -/
def isLive (w : Target) (fd : Nat) : Bool :=
  (List.range w.accepted).any fun id => w.isHeld id && decide (fd ∈ (w.ses id).connection)

/-- The socket is not in use. -/
def isFree (w : Target) (fd : Nat) : Bool :=
  !w.isLive fd && decide (fd ∉ w.ports .manager) &&
    (List.range w.constructed).all fun r => decide (fd ∉ w.ports (.reactor r))

/-- A handler that finds its PDU valid steps the window, if it does at all. -/
def handleValid (l : LinearLimitter) (w : Target) (id : Nat) (kind : PduKind) (poolnum : Nat)
    (immediate accepted : Bool) : Outcome Pointer Target Target :=
  if !accepted then .error (.failed w)
  else if kind.steps then do
    return w.setSes id (← .ofOption ((w.ses id).advanceCMDSNs l poolnum immediate))
  else .ok w

/-- The handlers of SCSI commands use the initiator. -/
def handleOther (l : LinearLimitter) (w : Target) (id : Nat) (kind : PduKind) (poolnum : Nat)
    (immediate accepted : Bool) : Outcome Pointer Target Target :=
  match kind.opCode.bind (w.ses id).protos, (w.ses id).initiator with
  | none, _ => .error (.failed w)
  | some (.command _ _), none => .error (.null .initiator)
  | some _, _ => w.handleValid l id kind poolnum immediate accepted

/-- The PDU goes to the handler that is registered for it. -/
def handlePdu (cfg : Config) (l : LinearLimitter) (w : Target) (id fd : Nat) :
    Pdu → Outcome Pointer Target Target
  | .login poolnum addr req =>
    if ((w.ses id).protos LoginSession.opLoginCmd).isNone then .error (.failed w)
    else w.handleLogin cfg l id fd poolnum addr req
  | .logout addr req =>
    if ((w.ses id).protos LoginSession.opLogoutCmd).isNone then .error (.failed w)
    else w.handleLogout id fd addr req
  | .other kind poolnum immediate accepted => w.handleOther l id kind poolnum immediate accepted

/-- A PDU that is not handled makes `doWork` clean up, and then `recv`. -/
def receive (cfg : Config) (l : LinearLimitter) (w : Target) (id fd : Nat) (pdu : Pdu) :
    Outcome Pointer Target Target :=
  match w.handlePdu cfg l id fd pdu with
  | .error (.failed w) => .ok ((w.cleanUp id fd).cleanUp id fd)
  | o => o

def destroy (w : Target) (fd : Nat) : Target :=
  let w := w.leaveListener fd
  w.setConn fd { w.conn fd with listener := none }

/-- One event; one that cannot happen has no result. -/
def act (cfg : Config) (l : LinearLimitter) (w : Target) : TargetEvent → Outcome Pointer Target Target
  | .accept fd => if w.isFree fd then .ok (w.accept cfg fd) else .error .aborted
  | .pdu id fd pdu =>
    if w.isHeld id ∧ fd ∈ (w.ses id).connection then w.receive cfg l id fd pdu else .error .aborted
  | .close id fd =>
    if w.isHeld id ∧ fd ∈ (w.ses id).connection then .ok (w.cleanUp id fd) else .error .aborted
  | .run id sent =>
    match w.invoke id sent with
    | .error (.failed w) => .ok w
    | o => o
  | .exit r => if r ∈ w.reactors then w.exit r else .error .aborted
  | .destroy fd => if w.isLive fd then .error .aborted else .ok (w.destroy fd)

def step (cfg : Config) (l : LinearLimitter) (w : Target) (e : TargetEvent) : Option Target :=
  (w.act cfg l e).toOption

theorem act_of_step {cfg : Config} {l : LinearLimitter} {w w' : Target} {e : TargetEvent}
    (h : step cfg l w e = some w') : w.act cfg l e = .ok w' := by
  unfold step at h
  cases hact : w.act cfg l e with
  | ok w'' =>
    rw [hact] at h
    exact congrArg _ (Option.some.inj h)
  | error e =>
    rw [hact] at h
    exact absurd h (Option.some_ne_none _).symm

theorem step_accept {cfg : Config} {l : LinearLimitter} {w : Target} {fd : Nat}
    (h : w.isFree fd = true) :
    step cfg l w (.accept fd) = some (w.accept cfg fd) := by rw [step, act, if_pos h]; rfl

end Target

end Sstoraged
