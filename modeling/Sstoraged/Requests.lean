import Sstoraged.CdbBytes
import Sstoraged.Text

namespace Sstoraged

def iscsiOpImmediate : UInt8 := 0x40

namespace Parser

variable (p : Parser)

def isImmediateCmd : Bool := decide (p.bhs 0 &&& iscsiOpImmediate ≠ 0)

/-- The transfer tag is kept as it stands in memory. -/
def getTTT : Nat := p.bhs.host32 20

/-- The function code and the referenced task tag of a task management request. -/
def getFunction : UInt8 := p.getFlags &&& 0x7F
def getRTT : Nat := p.bhs.ntohl 20

end Parser

structure NopInReply where
  opcode : UInt8 := 0x20
  flags : UInt8 := iscsiFlagFinal
  itt : Nat
  ttt : Nat := iscsiRsvdTaskTag
  statsn : Nat
  expcmdsn : Nat
  maxcmdsn : Nat

structure TaskMngReply where
  opcode : UInt8 := 0x22
  flags : UInt8 := iscsiFlagFinal
  response : Nat := 0
  lun : Nat
  itt : Nat
  statsn : Nat
  expcmdsn : Nat
  maxcmdsn : Nat

namespace NopOutHandler

def opNoopOut : UInt8 := 0x00

/-- A ping that is not an echo, without data. -/
def valid (bhs : Header) : Bool :=
  let req : Parser := ⟨bhs⟩
  decide (req.getOpCode = opNoopOut) && req.isFinal && decide (req.getITT ≠ iscsiRsvdTaskTag) &&
    decide (req.getTTT = iscsiRsvdTaskTag) && decide (req.getDlength = 0)

end NopOutHandler

namespace NopInHandler

def opNoopIn : UInt8 := 0x20

def valid (bhs : Header) : Bool :=
  let req : Parser := ⟨bhs⟩
  decide (req.getOpCode = opNoopIn) && req.isFinal && decide (req.getTTT = iscsiRsvdTaskTag)

/-- A ping is accepted, and nothing is done. -/
def handle (bhs : Header) : Bool := valid bhs

end NopInHandler

namespace TaskMngHandler

def opTaskMgtReq : UInt8 := 0x02
def funcAbortTask : UInt8 := 1
def funcTaskReassign : UInt8 := 8

/-- Only two of the functions refer to a task. -/
def valid (bhs : Header) : Bool :=
  let req : Parser := ⟨bhs⟩
  decide (req.getOpCode = opTaskMgtReq) && req.isFinal && decide (req.getHlength = 0) &&
    decide (req.getDlength = 0) &&
    (decide (req.getFunction = funcAbortTask) || decide (req.getFunction = funcTaskReassign) ||
      decide (req.getRTT = iscsiRsvdTaskTag))

end TaskMngHandler

namespace Target

/-- What the handlers do between their checks and their replies: the window of the
session is stepped, and the StatSN of the connection is read and stepped. -/
def stepCounters (l : LinearLimitter) (w : Target) (id fd poolnum : Nat) (immediate : Bool) :
    Outcome Pointer Target (Target × CommandWindow × Nat) := do
  let s ← .ofOption ((w.ses id).advanceCMDSNs l poolnum immediate)
  let w := w.setSes id s
  w.findConnection id fd
  return (w.advanceSTATSN fd, s.window, (w.conn fd).statsn)

/-- `NopOutHandler::handle`, with the reply that is queued. -/
def handleNopOut (l : LinearLimitter) (w : Target) (id fd poolnum : Nat) (bhs : Header) :
    Outcome Pointer Target (Target × NopInReply) :=
  let req : Parser := ⟨bhs⟩
  if NopOutHandler.valid bhs = false then .error (.failed w)
  else do
    let (w, window, statsn) ← w.stepCounters l id fd poolnum req.isImmediateCmd
    return (w, { itt := req.getITT, statsn, expcmdsn := window.expcmdsn, maxcmdsn := window.maxcmdsn })

/-- `TaskMngHandler::handle`: every function is said to be complete. -/
def handleTaskMng (l : LinearLimitter) (w : Target) (id fd poolnum : Nat) (bhs : Header) :
    Outcome Pointer Target (Target × TaskMngReply) :=
  let req : Parser := ⟨bhs⟩
  if TaskMngHandler.valid bhs = false then .error (.failed w)
  else do
    let (w, window, statsn) ← w.stepCounters l id fd poolnum req.isImmediateCmd
    return (w, { lun := req.getLUN, itt := req.getITT, statsn, expcmdsn := window.expcmdsn,
                 maxcmdsn := window.maxcmdsn })

end Target

namespace CommandHandler

open CdbBytes (Command)

variable {B : Type} {ix : LbaIndex}

def opScsiCmd : UInt8 := 0x01

/-- Reading and writing in one command is not supported. -/
def valid (bhs : Header) : Bool :=
  let req : Parser := ⟨bhs⟩
  decide (req.getOpCode = opScsiCmd) &&
    !(decide (req.getFlags &&& commandFlagRead ≠ 0) && decide (req.getFlags &&& commandFlagWrite ≠ 0))

/-- The supported commands; the last ones are answered and nothing is done. -/
def commands (read : ReadHandler) (write : WriteHandler) : List (UInt8 × Command) :=
  [(0xa0, .reply .reportLuns), (0x12, .reply .inquiry), (0x25, .reply .readCapacity),
    (0x9e, .reply .readCapacity16), (0x1a, .reply .modeSense), (0x28, .read read), (0x2a, .write write),
    (0xa3, .maintenanceIn), (0x00, .dummy), (0x2f, .dummy), (0x35, .dummy), (0x1b, .dummy),
    (0x07, .dummy), (0x16, .dummy), (0x17, .dummy)]

/-- The command of a request, when the handler knows it. -/
def find (read : ReadHandler) (write : WriteHandler) (bhs : Header) : Option Command :=
  (commands read write).lookup ((Parser.mk bhs).getSCB 0)

/-- `CommandHandler::handle`. The replies take the counters of the window as it is
stepped. -/
def handle (l : LinearLimitter) (read : ReadHandler) (write : WriteHandler) (window : CommandWindow)
    (poolnum : Nat) (s : Session B ix) (t : Token B) : Option (CommandWindow × Bool × Session B ix) :=
  if valid t.bhs = false then some (window, false, s)
  else do
    let window ← window.update l poolnum (Parser.mk t.bhs).isImmediateCmd
    let s := { s with expcmdsn := window.expcmdsn, maxcmdsn := window.maxcmdsn }
    match find read write t.bhs with
    | none => some (window, false, s)
    | some c => (c.handle s t).map fun r => (window, r)

end CommandHandler

end Sstoraged
