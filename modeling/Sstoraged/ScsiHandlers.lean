import Sstoraged.DataIn

namespace Sstoraged

variable {B : Type} {ix : LbaIndex}

def statusGood : UInt8 := 0x00
def checkCondition : UInt8 := 0x01

/-- The checks that the handlers of a reading command begin with. -/
def readsFinal (bhs : Header) : Bool :=
  let req : Parser := ⟨bhs⟩
  decide (req.getFlags &&& commandFlagRead ≠ 0) && decide (req.getFlags &&& commandFlagWrite = 0) &&
    req.isFinal

/-- The generator of a reply of one PDU with a status. -/
def newDataIn (bhs : Header) (code : UInt8) (s : Session B ix) : DataInGenerator × Session B ix :=
  let (reply, s) := DataInGenerator.new s
  let s := reply.setCmdStatus code s
  (reply, reply.set (fun h => { h with
    itt := (Parser.mk bhs).getITT, ttt := iscsiRsvdTaskTag, statsn := s.statsn
    expcmdsn := s.expcmdsn, maxcmdsn := s.maxcmdsn }) s.advanceSTATSN)

namespace DataInGenerator

/-- Queue a reply of one PDU. -/
def send (g : DataInGenerator) (s : Session B ix) : Session B ix := (g.serialize s).pushSend g.cbuf

/-- Queue it with the residual count for the expected length of the request. -/
def sendResidual (g : DataInGenerator) (bhs : Header) (s : Session B ix) : Session B ix :=
  g.send (g.setResidualCount (Parser.mk bhs).getEXPDATALEN (g.getDlength s) s)

end DataInGenerator

namespace InquiryHandler

def inquiry : UInt8 := 0x12

def isEVPD (cdb : Header) : Bool := decide (cdb 1 &&& 0x01 ≠ 0)
def getPageCode (cdb : Header) : UInt8 := cdb 2
def getAllocationLength (cdb : Header) : Nat := cdb.ntohs 3

def valid (cdb : Header) : Bool := decide (cdb 0 = inquiry) && decide (16 ≤ getAllocationLength cdb)

/-- The sizes of the standard data and of the pages SupportedVPD, ProductSerial and
DeviceID. -/
def dataSize (cdb : Header) : Option Nat :=
  if isEVPD cdb = false then some 36
  else if getPageCode cdb = 0x00 then some 7
  else if getPageCode cdb = 0x80 then some 8
  else if getPageCode cdb = 0x83 then some 32
  else none

def handle (s : Session B ix) (bhs : Header) : Option (Bool × Session B ix) :=
  let cdb := (Parser.mk bhs).getSCB
  if readsFinal bhs = false ∨ valid cdb = false then some (false, s)
  else
    let (reply, s) := newDataIn bhs statusGood s
    match dataSize cdb with
    | none => some (false, s)
    | some size =>
      if getAllocationLength cdb < size then some (false, s)
      else (reply.reserveDataSegment size s).map fun s => (true, reply.sendResidual bhs s)

end InquiryHandler

/-- READ CAPACITY and its 16-byte form differ in their command blocks and data only. -/
structure ReadCapacityHandler where
  opcode : UInt8
  lba : Header → Nat
  flags : Header → UInt8
  size : Nat

namespace ReadCapacityHandler

def readCapacity : ReadCapacityHandler := ⟨0x25, fun cdb => cdb.ntohl 2, fun cdb => cdb 8, 8⟩

/-- The allocation length of the parser is 8 bytes wide, so its flags lie behind the
command block. -/
def readCapacity16 : ReadCapacityHandler :=
  ⟨0x9e, fun cdb => cdb.ntohl 2 * 2 ^ 32 + cdb.ntohl 6, fun cdb => cdb 18, 32⟩

def fixedSenseSize : Nat := 14

def isPMI (h : ReadCapacityHandler) (cdb : Header) : Bool := decide (h.flags cdb &&& 0x01 ≠ 0)

def valid (h : ReadCapacityHandler) (cdb : Header) : Bool :=
  decide (cdb 0 = h.opcode) && !h.isPMI cdb

/-- A command for another address than 0 is answered with sense data. -/
def handle (h : ReadCapacityHandler) (s : Session B ix) (bhs : Header) :
    Option (Bool × Session B ix) :=
  let req : Parser := ⟨bhs⟩
  let cdb := req.getSCB
  if readsFinal bhs = false ∨ h.valid cdb = false then some (false, s)
  else
    let (reply, s) := newDataIn bhs statusGood s
    if h.lba cdb = 0 then
      (reply.reserveDataSegment h.size s).map fun s =>
        match s.getLUN req.getLUN with
        | none => (false, s)
        | some _ => (true, reply.sendResidual bhs s)
    else
      let s := reply.setCmdStatus checkCondition s
      (reply.reserveDataSegment fixedSenseSize s).map fun s => (true, reply.sendResidual bhs s)

end ReadCapacityHandler

namespace MaintenanceInHandler

def maintenanceIn : UInt8 := 0xa3
def senseErrorSize : Nat := 18

def valid (cdb : Header) : Bool := decide (cdb 0 = maintenanceIn)

/-- The answer is always a sense error. -/
def handle (s : Session B ix) (bhs : Header) : Option (Bool × Session B ix) :=
  let cdb := (Parser.mk bhs).getSCB
  if readsFinal bhs = false ∨ valid cdb = false then some (false, s)
  else
    let (reply, s) := newDataIn bhs checkCondition s
    (reply.reserveDataSegment senseErrorSize s).map fun s => (true, reply.sendResidual bhs s)

end MaintenanceInHandler

namespace ModeSenseHandler

def modeSense : UInt8 := 0x1a
def headerSize : Nat := 4
def blockDescriptorSize : Nat := 8

def isDBD (cdb : Header) : Bool := decide (cdb 1 &&& 0x08 ≠ 0)
def getPageCode (cdb : Header) : UInt8 := cdb 2 &&& 0x3F
def getAllocationLength (cdb : Header) : Nat := (cdb 4).toNat

def valid (cdb : Header) : Bool := decide (cdb 0 = modeSense)

/-- The sizes of the mode pages, by page code. -/
def pageSize (page : UInt8) : Option Nat :=
  if page = 0x00 then some 0
  else if page = 0x02 then some 16
  else if page = 0x03 then some 24
  else if page = 0x04 then some 24
  else if page = 0x08 then some 4
  else if page = 0x0A then some 12
  else if page = 0x1C then some 12
  else if page = 0x3F then some (16 + 24 + 24 + 4 + 12 + 12)
  else none

/-- The length that the mode data adds up to, whether it fits or not. -/
def getLength (cdb : Header) : Option Nat :=
  if getAllocationLength cdb = headerSize then some headerSize
  else (pageSize (getPageCode cdb)).map fun size =>
    headerSize + (if isDBD cdb then 0 else blockDescriptorSize) + size

/-- With an allocation length of 0 the data is at a null pointer, which every
descriptor and every page writes to. -/
def handle (s : Session B ix) (bhs : Header) : Option (Bool × Session B ix) :=
  let req : Parser := ⟨bhs⟩
  let cdb := req.getSCB
  if readsFinal bhs = false ∨ valid cdb = false then some (false, s)
  else
    let (reply, s) := newDataIn bhs statusGood s
    match reply.reserveDataSegment (getAllocationLength cdb) s with
    | none =>
      match s.getLUN req.getLUN with
      | none => some (false, s)
      | some _ =>
        if isDBD cdb = false ∨ ∃ n ∈ pageSize (getPageCode cdb), n ≠ 0 then none else some (false, s)
    | some s =>
      match s.getLUN req.getLUN with
      | none => some (false, s)
      | some _ =>
        match getLength cdb with
        | none => some (false, s)
        | some length =>
          match reply.resetDlength (min length (getAllocationLength cdb)) s with
          | (false, s) => some (false, s)
          | (true, s) => some (true, reply.sendResidual bhs s)

end ModeSenseHandler

namespace ReportLUNSHandler

def reportLuns : UInt8 := 0xa0

def getAllocationLength (cdb : Header) : Nat := cdb.ntohl 6

def valid (cdb : Header) : Bool := decide (cdb 0 = reportLuns) && decide (16 ≤ getAllocationLength cdb)

/-- The data segment is as long as the allocation length; a null pointer for it is
written to. -/
def handle (s : Session B ix) (bhs : Header) : Option (Bool × Session B ix) :=
  let cdb := (Parser.mk bhs).getSCB
  if readsFinal bhs = false ∨ valid cdb = false then some (false, s)
  else
    let (reply, s) := newDataIn bhs statusGood s
    (reply.reserveDataSegment (getAllocationLength cdb) s).map fun s =>
      if s.lvs.isEmpty then (false, s) else (true, reply.send s)

end ReportLUNSHandler

namespace DummyHandler

def rspFlagUnderflow : UInt8 := 0x02

/-- A SCSI Response has no data, so there is an underflow or no residual at all. -/
def handle (s : Session B ix) (bhs : Header) : Bool × Session B ix :=
  let req : Parser := ⟨bhs⟩
  if req.isFinal = false then (false, s)
  else
    let exp := req.getEXPDATALEN
    let flags := if 0 < exp then iscsiFlagFinal ||| rspFlagUnderflow else iscsiFlagFinal
    (true, ((s.alloc (CommonBuf.new.stepForwardTail sizeofHeader) (.scsiRsp
      { flags, itt := req.getITT, statsn := s.statsn, expcmdsn := s.expcmdsn, maxcmdsn := s.maxcmdsn,
        residualCount := exp })).advanceSTATSN).pushSend s.next)

end DummyHandler

end Sstoraged
