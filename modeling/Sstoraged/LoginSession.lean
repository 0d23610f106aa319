import Sstoraged.CommandWindow
import Sstoraged.DataOut
import Sstoraged.Outcome
import Sstoraged.ReadHandler
import Sstoraged.WriteHandler

namespace Sstoraged

/-- The initiator object that the InitiatorName handler creates. -/
structure ISCSIInitiator where
  name : String
  aliasName : String := ""
  authens : List (String × SessionType) := []
  maxRecvDataSegmentLength : Nat := 8192
  lvs : List LogicalVolume

/-- The protocol handlers, with what their constructors take from the session. -/
inductive ProtoHandler
  | login
  | text
  | logout
  | command (read : ReadHandler) (write : WriteHandler)
  | dataOut (handler : DataOutHandler)
  | nopOut
  | nopIn
  | taskMng

/-- The pointers that handlers and tasks use without a look at them. -/
inductive Pointer
  | initiator
  | connection
  | listener
  | reactor
  | pairHandler
  deriving DecidableEq

structure LoginReply where
  flags : UInt8
  itt : Nat
  statsn : Nat
  expcmdsn : Nat
  maxcmdsn : Nat
  sid : Nat
  pairs : List (String × String)

inductive LogoutResponse
  | success
  | cidNotFound
  | recoveryUnsupported
  | cleanupFailed
  deriving DecidableEq

structure LogoutReply where
  response : LogoutResponse
  itt : Nat
  time2Wait : Nat
  time2Retain : Nat
  statsn : Nat
  expcmdsn : Nat
  maxcmdsn : Nat

/-- The tasks that logins and logouts queue. Sessions are named by numbers, their
connections by the sockets. -/
inductive SessionTask
  | sendLogin (fd : Nat) (reply : LoginReply)
  | sendLogout (fd : Nat) (reply : LogoutReply)
  | createReactor (session fd : Nat)
  | removeReactor (session : Nat)
  | closeSession (session : Nat)
  | closeConnection (session fd : Nat)

/-- The session as logins see it. Each task is queued with its address. `accepted`
records the keys that were handled, with their values; no code reads it. -/
structure LoginSession where
  window : CommandWindow := .init
  initiator : Option ISCSIInitiator := none
  nums : String → Nat
  flags : String → Bool
  protos : Nat → Option ProtoHandler
  sid : Nat := 0
  tsih : Nat := 0
  connection : List Nat
  sendtask : List (Nat × SessionTask) := []
  accepted : List (String × String) := []

namespace LoginSession

def opNoopOut : Nat := 0x00
def opScsiCmd : Nat := 0x01
def opTaskMgtReq : Nat := 0x02
def opLoginCmd : Nat := 0x03
def opTextCmd : Nat := 0x04
def opScsiData : Nat := 0x05
def opLogoutCmd : Nat := 0x06
def opNoopIn : Nat := 0x20

/-- A new session knows the Login request only. -/
def new (nums : String → Nat) (flags : String → Bool) (fd : Nat) : LoginSession :=
  { nums, flags, connection := [fd]
    protos := fun op => if op = opLoginCmd then some .login else none }

theorem new_protos {nums : String → Nat} {flags : String → Bool} {fd op : Nat} {h : ProtoHandler}
    (hop : (new nums flags fd).protos op = some h) : op = opLoginCmd ∧ h = .login := by
  unfold new at hop
  dsimp only at hop
  split at hop
  · next hlogin => exact ⟨hlogin, (Option.some.inj hop).symm⟩
  · exact absurd hop (Option.some_ne_none _).symm

def register (s : LoginSession) (op : Nat) (h : ProtoHandler) : LoginSession :=
  { s with protos := Function.update s.protos op (some h) }

def shift2Discovery (s : LoginSession) : LoginSession :=
  (s.register opTextCmd .text).register opLogoutCmd .logout

/-- The handlers of a Normal session, for an initiator. -/
def registerNormal (s : LoginSession) (mrds : Nat) : LoginSession :=
  ((((((s.register opScsiCmd (.command ⟨mrds⟩ ⟨mrds, s.nums "FirstBurstLength",
    s.nums "MaxBurstLength", s.flags "ImmediateData", s.flags "InitialR2T"⟩)).register
      opScsiData (.dataOut ⟨mrds⟩)).register opNoopOut .nopOut).register opNoopIn .nopIn).register
        opTaskMgtReq .taskMng).register opLogoutCmd .logout)

/-- The constructors of the command handlers read the initiator, ReadHandler without
a look at the pointer. -/
def shift2Normal (s : LoginSession) : Outcome Pointer LoginSession LoginSession :=
  match s.initiator with
  | none => .error (.null .initiator)
  | some initiator =>
    .ok { s.registerNormal initiator.maxRecvDataSegmentLength with window := s.window.shift2Normal }

/-- The shift to the full feature phase, by the type of the session. -/
def shift (s : LoginSession) : Outcome Pointer LoginSession LoginSession :=
  match s.window.type with
  | .discovery => .ok s.shift2Discovery
  | .normal => s.shift2Normal
  | .login => .error (.failed s)

/-- `shiftLoginStage` with the phases of the header's two stage fields. -/
def shiftLoginStage (csg nsg : UInt8) : UInt8 :=
  if csg = 0 then (if nsg = 3 ∨ nsg = 1 then nsg else 0xff)
  else if csg = 1 then (if nsg = 3 then 3 else 0xff)
  else 0xff

def advanceCMDSNs (l : LinearLimitter) (poolnum : Nat) (immediate : Bool) (s : LoginSession) :
    Option LoginSession := (s.window.update l poolnum immediate).map fun window => { s with window }

@[simp] theorem register_protos_self (s : LoginSession) (op : Nat) (h : ProtoHandler) :
    (s.register op h).protos op = some h := Function.update_self ..

theorem register_protos_of_ne {s : LoginSession} {op op' : Nat} {h : ProtoHandler} (hne : op' ≠ op) :
    (s.register op h).protos op' = s.protos op' := Function.update_of_ne hne ..

theorem registerNormal_initiator (s : LoginSession) (mrds : Nat) :
    (s.registerNormal mrds).initiator = s.initiator := rfl

theorem registerNormal_accepted (s : LoginSession) (mrds : Nat) :
    (s.registerNormal mrds).accepted = s.accepted := rfl

end LoginSession

end Sstoraged
