import Sstoraged.Iscsi
import Sstoraged.Task
import Sstoraged.WriteCache

namespace Sstoraged

/-- Step a 32-bit sequence counter that starts again at 0. -/
def advanceSn (sn : Nat) : Nat := if 2 ^ 32 - 1 ≤ sn then 0 else sn + 1

structure DataInHeader where
  opcode : UInt8 := 0x25
  flags : UInt8 := 0
  cmdStatus : UInt8 := 0
  hlength : Nat := 0
  dlength : Nat := 0
  lun : Nat := 0
  itt : Nat := 0
  ttt : Nat := 0
  statsn : Nat := 0
  expcmdsn : Nat := 0
  maxcmdsn : Nat := 0
  datasn : Nat := 0
  offset : Nat := 0
  residualCount : Nat := 0
  deriving DecidableEq

structure SCSIRspHeader where
  opcode : UInt8 := 0x21
  flags : UInt8 := 0
  response : UInt8 := 0
  cmdStatus : UInt8 := 0
  hlength : Nat := 0
  dlength : Nat := 0
  itt : Nat := 0
  snackTag : Nat := 0
  statsn : Nat := 0
  expcmdsn : Nat := 0
  maxcmdsn : Nat := 0
  expdatasn : Nat := 0
  residualCount : Nat := 0
  deriving DecidableEq

structure R2THeader where
  opcode : UInt8 := 0x31
  flags : UInt8 := 0
  hlength : Nat := 0
  dlength : Nat := 0
  lun : Nat := 0
  itt : Nat := 0
  ttt : Nat := 0
  statsn : Nat := 0
  expcmdsn : Nat := 0
  maxcmdsn : Nat := 0
  r2tsn : Nat := 0
  offset : Nat := 0
  transferLength : Nat := 0
  deriving DecidableEq

/-- The header at the head of a reply's common buffer. -/
inductive ReplyHeader
  | dataIn (h : DataInHeader)
  | scsiRsp (h : SCSIRspHeader)
  | r2t (h : R2THeader)
  deriving DecidableEq

def ReplyHeader.dlength : ReplyHeader → Nat
  | .dataIn h => h.dlength
  | .scsiRsp h => h.dlength
  | .r2t h => h.dlength

/-- What is still to be received of a write, in bytes. -/
structure DataOutInfo where
  lba : Nat
  total : Nat
  remain : Nat
  r2tsn : Nat
  deriving DecidableEq

/-- The session as its handlers see it: the volumes of the initiator with their
caches, the sequence numbers, the receive records by task tag, and the send
queue with the buffers of the replies in it. `pushed` records what was pushed
into which cache; no code reads it. -/
structure Session (B : Type) (ix : LbaIndex) where
  lvs : List LogicalVolume
  wcaches : List (WriteCache B ix)
  statsn : Nat
  expcmdsn : Nat
  maxcmdsn : Nat
  recvinfo : Nat → Option DataOutInfo
  sendtask : List (Task B)
  bufs : Nat → CommonBuf
  headers : Nat → ReplyHeader
  next : Nat
  pushed : List (Nat × WriteSegment B) := []

namespace Session

variable {B : Type} {ix : LbaIndex}

def push (s : Session B ix) (t : Task B) : Session B ix := { s with sendtask := s.sendtask ++ [t] }

/-- A new common buffer with a reply header at its head, and the cursors given. -/
def alloc (s : Session B ix) (b : CommonBuf) (h : ReplyHeader) : Session B ix :=
  { s with
    bufs := Function.update s.bufs s.next b
    headers := Function.update s.headers s.next h
    next := s.next + 1 }

def getLUN (s : Session B ix) (lun : Nat) : Option LogicalVolume := s.lvs[lun]?

def advanceSTATSN (s : Session B ix) : Session B ix := { s with statsn := advanceSn s.statsn }

/-- Queue the buffer of a reply. -/
def pushSend (s : Session B ix) (cbuf : Nat) : Session B ix := s.push (.send (SendTask.new s.bufs cbuf))

/-- Push a segment into the cache of a LUN. -/
def store (s : Session B ix) (lun : Nat) (ws : WriteSegment B) : Session B ix :=
  { s with wcaches := s.wcaches.modify lun (·.push ws), pushed := s.pushed ++ [(lun, ws)] }

/-- An entry that is there already stays as it is. -/
def putRecvinfo (s : Session B ix) (itt : Nat) (info : DataOutInfo) : Session B ix :=
  match s.recvinfo itt with
  | some _ => s
  | none => { s with recvinfo := Function.update s.recvinfo itt (some info) }

def setRecvinfo (s : Session B ix) (itt : Nat) (info : Option DataOutInfo) : Session B ix :=
  { s with recvinfo := Function.update s.recvinfo itt info }

/-- Queue the SCSI Response of a command that is done. -/
def pushGood (s : Session B ix) (itt : Nat) : Session B ix :=
  ((s.alloc (CommonBuf.new.stepForwardTail sizeofHeader) (.scsiRsp
    { flags := iscsiFlagFinal, itt, statsn := s.statsn, expcmdsn := s.expcmdsn,
      maxcmdsn := s.maxcmdsn })).advanceSTATSN).pushSend s.next

/-- Queue an R2T; the status sequence number is not stepped. -/
def pushR2T (s : Session B ix) (itt lun r2tsn offset transferLength : Nat) : Session B ix :=
  (s.alloc (CommonBuf.new.stepForwardTail sizeofHeader) (.r2t
    { flags := iscsiFlagFinal, lun, itt, ttt := itt, statsn := s.statsn, expcmdsn := s.expcmdsn,
      maxcmdsn := s.maxcmdsn, r2tsn, offset, transferLength })).pushSend s.next

@[simp] theorem push_sendtask (s : Session B ix) (t : Task B) :
    (s.push t).sendtask = s.sendtask ++ [t] := rfl

@[simp] theorem push_bufs (s : Session B ix) (t : Task B) : (s.push t).bufs = s.bufs := rfl

@[simp] theorem push_headers (s : Session B ix) (t : Task B) : (s.push t).headers = s.headers := rfl

@[simp] theorem push_next (s : Session B ix) (t : Task B) : (s.push t).next = s.next := rfl

@[simp] theorem push_wcaches (s : Session B ix) (t : Task B) : (s.push t).wcaches = s.wcaches := rfl

theorem putRecvinfo_of_none {s : Session B ix} {itt : Nat} (h : s.recvinfo itt = none)
    (info : DataOutInfo) : s.putRecvinfo itt info = s.setRecvinfo itt (some info) := by
  simp only [putRecvinfo, h, setRecvinfo]

@[simp] theorem setRecvinfo_recvinfo (s : Session B ix) (itt : Nat) (info : Option DataOutInfo) :
    (s.setRecvinfo itt info).recvinfo = Function.update s.recvinfo itt info := rfl

section Reply

variable (s : Session B ix) (itt lun r2tsn offset length : Nat)

@[simp] theorem pushGood_recvinfo : (s.pushGood itt).recvinfo = s.recvinfo := rfl

@[simp] theorem pushR2T_recvinfo : (s.pushR2T itt lun r2tsn offset length).recvinfo = s.recvinfo := rfl

@[simp] theorem pushGood_lvs : (s.pushGood itt).lvs = s.lvs := rfl

@[simp] theorem pushGood_pushed : (s.pushGood itt).pushed = s.pushed := rfl

@[simp] theorem pushR2T_pushed : (s.pushR2T itt lun r2tsn offset length).pushed = s.pushed := rfl

end Reply

section Store

variable (s : Session B ix) (lun : Nat) (ws : WriteSegment B)

@[simp] theorem store_sendtask : (s.store lun ws).sendtask = s.sendtask := rfl

@[simp] theorem store_statsn : (s.store lun ws).statsn = s.statsn := rfl

@[simp] theorem store_recvinfo : (s.store lun ws).recvinfo = s.recvinfo := rfl

@[simp] theorem store_pushed : (s.store lun ws).pushed = s.pushed ++ [(lun, ws)] := rfl

@[simp] theorem store_lvs : (s.store lun ws).lvs = s.lvs := rfl

@[simp] theorem length_store_wcaches : (s.store lun ws).wcaches.length = s.wcaches.length := by
  simp [store]

end Store

end Session

end Sstoraged
