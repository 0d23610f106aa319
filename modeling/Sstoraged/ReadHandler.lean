import Sstoraged.DataIn

namespace Sstoraged

structure ReadHandler where
  byteMrds : Nat

namespace ReadHandler

variable {B : Type} {ix : LbaIndex}

def read10 : UInt8 := 0x28
def good : UInt8 := 0x00

def transferMrds (h : ReadHandler) : Nat := offset2Lba h.byteMrds

/-- The cached segments that take part in one PDU. -/
def getHitSegments (cache : List (WriteSegment B)) (lba transferLength : Nat) : List (WriteSegment B) :=
  cache.filter fun ws =>
    decide (lba ≤ ws.rlba ∧ ws.rlba ≤ lba + transferLength) ||
    decide (ws.rlba < lba ∧ lba + transferLength < ws.rlba + ws.rlength) ||
    decide (ws.rlba < lba ∧ lba < ws.rlba + ws.rlength)

/-- The data tasks of one PDU, and the LBA that the next PDU goes on from. -/
def sendCache (lv : LogicalVolume) : List (WriteSegment B) → Nat → Nat → List (Task B) × Nat
  | [], rlba, transferLength =>
    if 0 < transferLength then
      ([.sendfile (SendfileTask.new lv rlba transferLength)], rlba + transferLength)
    else ([], rlba)
  | ws :: hits, rlba, transferLength =>
    if transferLength = 0 then ([], rlba)
    else
      let clba := ws.rlba
      let clength := u32 ws.rlength
      if clba ≤ rlba then
        let hitLength := u32 (clength - (rlba - clba : Int))
        let hitLength := if rlba + transferLength < clba + clength then
          u32 (hitLength - (clba + clength - rlba - transferLength : Int)) else hitLength
        let (tasks, rlba') := sendCache lv hits (rlba + hitLength) (u32 (transferLength - hitLength))
        (.sendCache (SendCacheTask.new ws rlba hitLength) :: tasks, rlba')
      else if rlba + transferLength ≤ clba + clength then
        let missLength := u32 (clba - rlba)
        ([.sendfile (SendfileTask.new lv rlba missLength),
          .sendCache (SendCacheTask.new ws clba (u32 (transferLength - missLength)))],
          clba + clength - missLength)
      else
        let missLength := u32 (clba - rlba)
        let (tasks, rlba') := sendCache lv hits (clba + clength)
          (u32 (transferLength - (missLength + clength : Int)))
        (.sendfile (SendfileTask.new lv rlba missLength) ::
          .sendCache (SendCacheTask.new ws clba clength) :: tasks, rlba')

/-- What follows the header of a PDU when nothing of the READ is cached. -/
def missData (lv : LogicalVolume) (lba length : Nat) : Option (List (Task B) × Nat) :=
  some ([.sendfile (SendfileTask.new lv lba length)], lba + length)

/-- What follows the header of a PDU when something of the READ is cached. -/
def hitData (lv : LogicalVolume) (cache : List (WriteSegment B)) (lba length : Nat) :
    Option (List (Task B) × Nat) :=
  let hits := getHitSegments cache lba length
  if hits.isEmpty then none else some (sendCache lv hits lba length)

/-- Fill in and queue the header of the next PDU. The result is the length of
the PDU in blocks, and whether it is the last one. -/
def pushHeader (h : ReadHandler) (reply : DataInGenerator) (transferLength : Nat) (s : Session B ix) :
    Nat × Bool × Session B ix :=
  if h.transferMrds < transferLength then
    let s := reply.setDlength h.byteMrds s
    (h.transferMrds, false, (reply.serialize s).pushSend reply.cbuf)
  else
    let s := reply.setDlength (lba2Offset transferLength) (reply.setCmdStatus good s)
    (transferLength, true, (reply.serialize s).pushSend reply.cbuf)

/-- The loop over the PDUs of a reply; the two loops of the handler differ only
in the data tasks. A loop that does not end has no result. -/
def dataInLoop (h : ReadHandler) (data : Nat → Nat → Option (List (Task B) × Nat)) :
    Nat → DataInGenerator → Nat → Nat → Session B ix → Option (Bool × Session B ix)
  | 0, _, _, _, _ => none
  | fuel + 1, reply, lba, transferLength, s =>
    let (length, last, s) := h.pushHeader reply transferLength s
    match data lba length with
    | none => some (false, s)
    | some (tasks, lba) =>
      let s := { s with sendtask := s.sendtask ++ tasks }
      if last then some (true, s)
      else
        let (reply, s) := reply.replica s
        let (reply, s) := reply.advanceDataSN s
        let s := reply.addOffset (lba2Offset length) s
        dataInLoop h data fuel reply lba (transferLength - length) s

/-- The checks on the flags and on the command block. -/
def valid (bhs : Header) : Bool :=
  let req : Parser := ⟨bhs⟩
  let cdb : Cdb10 := ⟨req.getSCB⟩
  decide (req.getFlags &&& commandFlagRead ≠ 0) && decide (req.getFlags &&& commandFlagWrite = 0) &&
    cdb.valid read10

def handle (h : ReadHandler) (s : Session B ix) (bhs : Header) : Option (Bool × Session B ix) :=
  let req : Parser := ⟨bhs⟩
  let cdb : Cdb10 := ⟨req.getSCB⟩
  if valid bhs = false then some (false, s)
  else if req.isFinal = false then some (false, s)
  else
    match s.getLUN req.getLUN with
    | none => some (false, s)
    | some lv =>
      let lba := cdb.getLBA
      let transferLength := cdb.getTransferLength
      if lv.getTotalSize ≤ lba ∨ transferLength = 0 ∨ lv.getTotalSize < lba + transferLength then
        some (false, s)
      else
        let (reply, s) := DataInGenerator.new s
        let s := reply.set (fun b => { b with
          itt := req.getITT, ttt := iscsiRsvdTaskTag, statsn := s.statsn
          expcmdsn := s.expcmdsn, maxcmdsn := s.maxcmdsn }) s.advanceSTATSN
        match s.wcaches[req.getLUN]? with
        | none => none
        | some wc =>
          let cache := (wc.search lba transferLength).map wc.ws
          let s := s.push .cork
          if cache.isEmpty then
            (h.dataInLoop (missData lv) transferLength reply lba transferLength s).map
              fun (_, s) => (true, s.push .uncork)
          else
            (h.dataInLoop (hitData lv cache) transferLength reply lba transferLength s).map
              fun (ok, s) => if ok then (true, s.push .uncork) else (false, s)

end ReadHandler

end Sstoraged
