import Mathlib.Data.List.GetD
import Sstoraged.BufferChain
import Sstoraged.Common

namespace Sstoraged

/-- A write segment over buffers of type `B`: the whole range to WRITE, and the
part of it that a READ may still take from memory. -/
structure WriteSegment (B : Type) where
  lba : Nat
  transferLength : Nat
  rlba : Nat
  rlength : Nat
  copy : Bool
  cbufs : List B
  dsOffset : Nat
  stored : Nat

namespace WriteSegment

variable {B : Type}

def new (lba length : Nat) : WriteSegment B :=
  { lba, transferLength := length, rlba := lba, rlength := length, copy := false,
    cbufs := [], dsOffset := 0, stored := 0 }

/-- The copy constructor shares the buffers but starts again at offset 0. -/
def copyOf (ptr : WriteSegment B) : WriteSegment B := { ptr with copy := true, dsOffset := 0 }

def set1stDataSegment (ws : WriteSegment B) (cbuf : B) (size offset : Nat) :
    Option (WriteSegment B) :=
  if ws.cbufs.isEmpty then
    if lba2Offset ws.transferLength < ws.stored + size then none
    else some { ws with stored := ws.stored + size, cbufs := ws.cbufs ++ [cbuf], dsOffset := offset }
  else none

def addDataSegment (ws : WriteSegment B) (cbuf : B) (size : Nat) : Option (WriteSegment B) :=
  if ws.cbufs.isEmpty then none
  else if lba2Offset ws.transferLength < ws.stored + size then none
  else some { ws with stored := ws.stored + size, cbufs := ws.cbufs ++ [cbuf] }

/-- The end of the range to WRITE and of the range to READ. -/
def tail (ws : WriteSegment B) : Nat := ws.lba + ws.transferLength
def rtail (ws : WriteSegment B) : Nat := ws.rlba + ws.rlength

def covers (ws : WriteSegment B) (a : Nat) : Bool := decide (ws.lba ≤ a / 512 ∧ a / 512 < ws.tail)

/-- The byte of the disk address `a` that the segment holds in memory. -/
def val (mem : B → Nat → UInt8) (ws : WriteSegment B) (a : Nat) : UInt8 :=
  (BufferChain.contents commonBufSize mem ws.cbufs ws.dsOffset).getD (a - 512 * ws.lba) 0

/-- A segment as the command handlers build it, with all its data stored. -/
structure Filled (ws : WriteSegment B) : Prop where
  original : ws.copy = false
  whole : ws.rlba = ws.lba ∧ ws.rlength = ws.transferLength
  positive : 0 < ws.transferLength
  fits : ws.transferLength < 2 ^ 32
  stored_eq : ws.stored = lba2Offset ws.transferLength
  inside : ws.dsOffset ≤ commonBufSize
  enough : lba2Offset ws.transferLength ≤ BufferChain.capacity commonBufSize ws.cbufs ws.dsOffset

theorem covers_iff (ws : WriteSegment B) (a : Nat) :
    ws.covers a = true ↔ ws.lba ≤ a / 512 ∧ a / 512 < ws.tail := by
  simp [covers]

theorem take_drop_contents (mem : B → Nat → UInt8) (ws : WriteSegment B) (b n : Nat)
    (hb : ws.lba ≤ b) (hn : b + n ≤ ws.tail)
    (hc : 512 * ws.transferLength ≤ BufferChain.capacity commonBufSize ws.cbufs ws.dsOffset) :
    ((BufferChain.contents commonBufSize mem ws.cbufs ws.dsOffset).drop
      (512 * (b - ws.lba))).take (512 * n) = (List.range' (512 * b) (512 * n)).map (ws.val mem) := by
  have hlen := BufferChain.length_contents commonBufSize mem ws.cbufs ws.dsOffset
  unfold tail at hn
  apply List.ext_getElem
  · simp only [List.length_take, List.length_drop, List.length_map, List.length_range', hlen]
    omega
  · intro i h₁ h₂
    simp only [List.length_map, List.length_range'] at h₂
    have hi : 512 * (b - ws.lba) + i < BufferChain.capacity commonBufSize ws.cbufs ws.dsOffset := by
      omega
    have ha : 512 * b + 1 * i - 512 * ws.lba = 512 * (b - ws.lba) + i := by omega
    simp only [List.getElem_take, List.getElem_drop, List.getElem_map, List.getElem_range', val, ha]
    rw [List.getD_eq_getElem _ _ (by omega)]

end WriteSegment

/-- A segment in one buffer. -/
def sampleSegment (lba length dsOffset : Nat) : WriteSegment Unit :=
  { (WriteSegment.new lba length : WriteSegment Unit) with
    cbufs := [()], dsOffset, stored := 512 * length }

theorem filled_sampleSegment {lba length dsOffset : Nat} (hl : 0 < length)
    (hc : 512 * length + dsOffset ≤ commonBufSize) : (sampleSegment lba length dsOffset).Filled := by
  have hsize : commonBufSize = 131072 := rfl
  refine ⟨rfl, ⟨rfl, rfl⟩, hl, ?_, (lba2Offset_eq _).symm, ?_, ?_⟩
  · show length < 2 ^ 32
    omega
  · show dsOffset ≤ commonBufSize
    omega
  · rw [lba2Offset_eq]
    show 512 * length ≤ commonBufSize - dsOffset + 0
    omega

end Sstoraged
