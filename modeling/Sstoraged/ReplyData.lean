import Sstoraged.ReportLuns

namespace Sstoraged

variable {B : Type} {ix : LbaIndex}

/-- A structure on the stack, `fields` of which its constructor sets, is copied to the
head of the data segment. -/
def construct (size : Nat) (fields : List (Store UInt8)) (stack : Header) : Store UInt8 :=
  ⟨0, (List.range size).map (Store.run fields stack)⟩

def fixedSense : List (Store UInt8) := [⟨0, [0x70, 0, 0x05, 0, 0, 0, 0, 6, 0, 0, 0, 0, 0x24, 0]⟩]

def lbaUnit : Nat := 512

namespace InquiryHandler

def vendorId : List UInt8 := [0x50, 0x52, 0x49, 0x56, 0x20, 0x20, 0x20, 0x20]

def productId : List UInt8 :=
  [0x73, 0x53, 0x74, 0x6f, 0x72, 0x61, 0x67, 0x65, 0x20, 0x20, 0x20, 0x20, 0x20, 0x20, 0x20, 0x20]

def revision : List UInt8 := [0x30, 0x2e, 0x31]

/-- Of the serial number and of the designator only the first three bytes are set. -/
def stores (cdb : Header) (stack : Header) : List (Store UInt8) :=
  if isEVPD cdb = false then
    [construct 36 [⟨0, [0, 0, 0x06, 0x42, 0, 0, 0, 0x02] ++ vendorId ++ productId ++
      revision ++ [0]⟩] stack,
      ⟨4, [32]⟩]
  else if getPageCode cdb = 0x00 then [construct 7 [⟨0, [0, 0, 0, 0, 0x00, 0x80, 0x83]⟩] stack, ⟨3, [3]⟩]
  else if getPageCode cdb = 0x80 then [construct 8 [⟨0, [0, 0x80, 0, 0] ++ revision⟩] stack, ⟨3, [4]⟩]
  else if getPageCode cdb = 0x83 then
    [construct 32 [⟨0, [0, 0x83, 0, 0, 0x01, 0x01, 0, 24, 0x49, 0x53, 0x50]⟩] stack]
  else []

end InquiryHandler

namespace ReadCapacityHandler

/-- READ CAPACITY has 32 bits for the last LBA. -/
def data10 (total : Nat) : List (Store UInt8) :=
  [⟨0, htonl (if 0xFFFFFFFF < total then 0xFFFFFFFF else u32 (total - 1))⟩]

/-- The fields behind the block length are left as they are. -/
def data16 (total : Nat) : List (Store UInt8) := [⟨0, htobe64 (u64 (total - 1))⟩]

def stores (h : ReadCapacityHandler) (lbaSize : Nat) (setLBA : Nat → List (Store UInt8))
    (s : Session B ix) (bhs stack : Header) : List (Store UInt8) :=
  if h.lba (Parser.mk bhs).getSCB = 0 then
    construct h.size [⟨0, List.replicate lbaSize 0 ++ htonl lbaUnit⟩] stack ::
      ((s.getLUN (Parser.mk bhs).getLUN).map fun lv => setLBA lv.getTotalSize).getD []
  else [construct fixedSenseSize fixedSense stack]

end ReadCapacityHandler

/-- The information fields of the sense data are left as they are. -/
def MaintenanceInHandler.stores (stack : Header) : List (Store UInt8) :=
  [construct senseErrorSize [⟨0, [0x70]⟩, ⟨2, [0x05]⟩, ⟨7, [10]⟩, ⟨12, htons 0x2400⟩] stack]

namespace ModeSenseHandler

/-- A mode page, with the fields that are set. -/
structure Page where
  size : Nat
  fields : List (Store UInt8)

def disconnectReconnect : Page := ⟨16, [⟨0, [0x02, 14, 0x80, 0x80]⟩, ⟨5, [10]⟩]⟩

def formatDevice : Page := ⟨24, [⟨0, [0x03, 22]⟩, ⟨10, [1]⟩, ⟨12, [2]⟩, ⟨20, [0x0c]⟩]⟩

def rigidDiskGeometry : Page :=
  ⟨24, [⟨0, [0x04, 22]⟩, ⟨2, hton24 0x80⟩, ⟨5, [0x40]⟩, ⟨20, htons 15000⟩]⟩

def caching : Page := ⟨4, [⟨0, [0x08, 2, 0x14]⟩]⟩

def control : Page := ⟨12, [⟨0, [0x0A, 10, 0x02]⟩, ⟨10, htons 500⟩]⟩

def informationalExceptionsCtrl : Page := ⟨12, [⟨0, [0x1C, 10, 0x08]⟩]⟩

def pages (page : UInt8) : Option (List Page) :=
  if page = 0x00 then some []
  else if page = 0x02 then some [disconnectReconnect]
  else if page = 0x03 then some [formatDevice]
  else if page = 0x04 then some [rigidDiskGeometry]
  else if page = 0x08 then some [caching]
  else if page = 0x0A then some [control]
  else if page = 0x1C then some [informationalExceptionsCtrl]
  else if page = 0x3F then
    some [disconnectReconnect, formatDevice, rigidDiskGeometry, caching, control,
      informationalExceptionsCtrl]
  else none

/-- The length field is set to a length that does not count itself. -/
def setLength (total : Nat) : Store UInt8 := ⟨0, [.ofNat (total - 1)]⟩

/-- A page that does not fit is left out, but its length is counted. -/
def appendPages (limit : Nat) : Nat → List Page → List (Store UInt8)
  | _, [] => []
  | total, p :: ps =>
    let next := total + p.size
    setLength next :: (if limit < next ∨ 0x100 < next then []
      else p.fields.map fun w => ⟨total + w.addr, w.vals⟩) ++ appendPages limit next ps

def appendBlockDescriptor (limit size : Nat) : List (Store UInt8) :=
  if limit < headerSize + blockDescriptorSize then []
  else
    [setLength (headerSize + blockDescriptorSize),
      ⟨headerSize, htonl (if 0 < size / 2 ^ 32 then 0xFFFFFFFF else size)⟩]

def stores (s : Session B ix) (bhs stack : Header) : List (Store UInt8) :=
  let cdb := (Parser.mk bhs).getSCB
  let limit := getAllocationLength cdb
  let size := ((s.getLUN (Parser.mk bhs).getLUN).map LogicalVolume.getTotalSize).getD 0
  (if headerSize ≤ limit then [construct headerSize [⟨0, [0, 0, 0, 0]⟩] stack] else []) ++
    (if isDBD cdb then [] else [⟨3, [.ofNat blockDescriptorSize]⟩]) ++
    if limit = headerSize then [⟨0, [0x1F]⟩]
    else
      (if isDBD cdb then [] else appendBlockDescriptor limit size) ++
        appendPages limit (headerSize + if isDBD cdb then 0 else blockDescriptorSize)
          ((pages (getPageCode cdb)).getD [])

theorem pageSize_eq (page : UInt8) : pageSize page = (pages page).map fun ps =>
    (ps.map Page.size).sum := by
  unfold pageSize pages
  repeat' split
  all_goals rfl

end ModeSenseHandler

end Sstoraged
