import Sstoraged.Common

namespace Sstoraged

/-- A part of a volume, as it is configured. -/
structure RealVolume where
  path : String
  start : Nat
  count : Nat

def RealVolume.sector (part : RealVolume) : Nat := lba2Offset part.count

/-- A file or device that backs a part of a volume; the path stands for its descriptor. -/
structure PhysicalVolume where
  path : String
  start : Nat
  count : UInt32

structure LowHandle where
  path : String
  offset : Int
  length : Nat

/-- The bytes of the files and devices, by path and offset. -/
abbrev Disk := String × Nat → UInt8

namespace PhysicalVolume

/-- The counter of a part has 32 bits. -/
def new (part : RealVolume) : PhysicalVolume := ⟨part.path, part.start, .ofNat part.count⟩

def sector (pv : PhysicalVolume) : Nat := lba2Offset pv.count.toNat

def getCoverage (pv : PhysicalVolume) (offset length : Nat) : Nat :=
  if pv.sector < offset then 0
  else if offset + length < pv.sector then length
  else pv.sector - offset

end PhysicalVolume

/-- The parts of a volume from the first that may be reached on. -/
def getLowHandles : List PhysicalVolume → Int → Nat → List LowHandle
  | [], _, _ => []
  | pv :: volumes, cur, remain =>
    let covered := pv.getCoverage (u64 cur) remain
    if 0 < covered then
      ⟨pv.path, pv.start + cur, covered⟩ ::
        (if remain - covered = 0 then [] else getLowHandles volumes 0 (remain - covered))
    else getLowHandles volumes (cur - pv.sector) remain

structure LogicalVolume where
  volumes : List PhysicalVolume

namespace LogicalVolume

def getTotalSize (lv : LogicalVolume) : Nat := (lv.volumes.map fun pv => pv.count.toNat).sum

def getLowHandles (lv : LogicalVolume) (offset remain : Nat) : List LowHandle :=
  Sstoraged.getLowHandles lv.volumes offset remain

end LogicalVolume

end Sstoraged
