import Sstoraged.Common

namespace Sstoraged

/-- The bytes of a PDU from its basic header segment on. -/
abbrev Header := Nat → UInt8

namespace Header

def ntoh24 (b : Header) (i : Nat) : Nat :=
  (b i).toNat * 2 ^ 16 + (b (i + 1)).toNat * 2 ^ 8 + (b (i + 2)).toNat

def ntohs (b : Header) (i : Nat) : Nat := (b i).toNat * 2 ^ 8 + (b (i + 1)).toNat

def ntohl (b : Header) (i : Nat) : Nat := ntohs b i * 2 ^ 16 + ntohs b (i + 2)

/-- A 32-bit field as a little-endian host reads it from memory. -/
def host32 (b : Header) (i : Nat) : Nat :=
  (b i).toNat + (b (i + 1)).toNat * 2 ^ 8 + (b (i + 2)).toNat * 2 ^ 16 + (b (i + 3)).toNat * 2 ^ 24

theorem ntoh24_lt (b : Header) (i : Nat) : b.ntoh24 i < 2 ^ 24 := by
  have h₀ := (b i).toNat_lt
  have h₁ := (b (i + 1)).toNat_lt
  have h₂ := (b (i + 2)).toNat_lt
  unfold ntoh24
  omega

theorem ntohs_lt (b : Header) (i : Nat) : b.ntohs i < 2 ^ 16 := by
  have h₀ := (b i).toNat_lt
  have h₁ := (b (i + 1)).toNat_lt
  unfold ntohs
  omega

end Header

/-- The bytes of a field in network order. -/
def htons (n : Nat) : List UInt8 := [.ofNat (n / 2 ^ 8), .ofNat n]

def hton24 (n : Nat) : List UInt8 := .ofNat (n / 2 ^ 16) :: htons n

def htonl (n : Nat) : List UInt8 := .ofNat (n / 2 ^ 24) :: hton24 n

def htobe64 (n : Nat) : List UInt8 := htonl (n / 2 ^ 32) ++ htonl n

def sizeofHeader : Nat := 48

def padWordLen : Nat := 4

/-- The padding behind a data segment. -/
def padding (n : Nat) : Nat := if n % padWordLen ≠ 0 then padWordLen - n % padWordLen else 0

def iscsiFlagFinal : UInt8 := 0x80
def iscsiOpcodeMask : UInt8 := 0x3F
def iscsiOpScsiData : UInt8 := 0x05
def iscsiRsvdTaskTag : Nat := 0xffffffff

/-- The parser of the fields that every PDU has. -/
structure Parser where
  bhs : Header

namespace Parser

variable (p : Parser)

def getFlags : UInt8 := p.bhs 1
def isFinal : Bool := decide (p.getFlags &&& iscsiFlagFinal ≠ 0)
def getOpCode : UInt8 := p.bhs 0 &&& iscsiOpcodeMask
def getHlength : Nat := (p.bhs 4).toNat
def getDlength : Nat := p.bhs.ntoh24 5

/-- The LUN field: four bytes are skipped, the others keep their order in memory. -/
def getLUN : Nat := p.bhs.host32 12

/-- The task tag is kept as it stands in memory. -/
def getITT : Nat := p.bhs.host32 16

def getPDUlength : Nat :=
  let pduLength := sizeofHeader + p.getHlength + p.getDlength
  if pduLength % padWordLen ≠ 0 then pduLength + (padWordLen - pduLength % padWordLen) else pduLength

def getDataSegmentOffset : Nat := if p.getDlength = 0 then 0 else sizeofHeader + p.getHlength

def getEXPDATALEN : Nat := p.bhs.ntohl 20

/-- The SCSI command block of a command PDU. -/
def getSCB : Header := fun i => p.bhs (32 + i)

theorem sizeofHeader_le : sizeofHeader ≤ p.getPDUlength := by
  simp only [getPDUlength]
  split <;> omega

theorem getDlength_lt : p.getDlength < 2 ^ 24 := p.bhs.ntoh24_lt 5

theorem getHlength_lt : p.getHlength < 2 ^ 8 := (p.bhs 4).toNat_lt

end Parser

def commandFlagRead : UInt8 := 0x40
def commandFlagWrite : UInt8 := 0x20

/-- READ(10) and WRITE(10) command blocks have one layout. -/
structure Cdb10 where
  cdb : Header

namespace Cdb10

variable (p : Cdb10)

def getOpCode : UInt8 := p.cdb 0
def getPROTECT : UInt8 := p.cdb 1 &&& 0xE0
def isDPO : Bool := decide (p.cdb 1 &&& 0x10 ≠ 0)
def getLBA : Nat := p.cdb.ntohl 2
def getTransferLength : Nat := p.cdb.ntohs 7

/-- FUA and FUA_NV only raise a warning. -/
def valid (opcode : UInt8) : Bool :=
  decide (p.getOpCode = opcode ∧ p.getPROTECT = 0 ∧ p.isDPO = false)

theorem getTransferLength_lt : p.getTransferLength < 2 ^ 16 := p.cdb.ntohs_lt 7

end Cdb10

end Sstoraged
