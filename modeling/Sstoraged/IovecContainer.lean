import Mathlib.Logic.Function.Basic
import Sstoraged.CommonBuf

namespace Sstoraged

structure Iovec where
  cbuf : Nat
  offset : Nat
  len : Nat
  deriving DecidableEq

/-- The receive space of a connection: the array for `readv`, and the common
buffers, which are numbered in the order of their allocation. A pointer is a
buffer and an offset in it. -/
structure IovecContainer where
  vec : List Iovec
  cbufs : List Nat
  remain : Nat
  overflow : Nat
  bufs : Nat → CommonBuf
  mem : Nat → Nat → UInt8
  next : Nat

namespace IovecContainer

/-- The first call allocates the space; later ones change nothing. -/
def reserve (total : Nat) (mem : Nat → Nat → UInt8) : IovecContainer :=
  let count := max (total / commonBufSize + 1) 2
  { vec := (List.range' 0 count).map fun k => ⟨k, 0, commonBufSize⟩
    cbufs := List.range' 0 count
    remain := commonBufSize * count
    overflow := 0
    bufs := fun _ => .new
    mem
    next := count }

def space (vec : List Iovec) : Nat := (vec.map (·.len)).sum

/-- `readv` of `n` bytes of a source. -/
def scatter (src : Nat → UInt8) : List Iovec → Nat → (Nat → Nat → UInt8) → Nat → Nat → UInt8
  | [], _, mem => mem
  | v :: vec, n, mem =>
    let size := min n v.len
    scatter (fun i => src (size + i)) vec (n - size) fun b i =>
      if b = v.cbuf ∧ v.offset ≤ i ∧ i < v.offset + size then src (i - v.offset) else mem b i

def fillTails : List Nat → Nat → (Nat → CommonBuf) → Nat × (Nat → CommonBuf)
  | [], size, bufs => (size, bufs)
  | b :: cbufs, size, bufs =>
    if size = 0 then (0, bufs)
    else
      let capacity := (bufs b).getCapacity
      if capacity < size then
        fillTails cbufs (size - capacity) (Function.update bufs b ((bufs b).stepForwardTail capacity))
      else (0, Function.update bufs b ((bufs b).stepForwardTail size))

def stepForwardTail (c : IovecContainer) (size : Nat) : Bool × IovecContainer :=
  let (size, bufs) := fillTails c.cbufs size c.bufs
  (decide (size = 0), { c with bufs })

/-- The buffer stepped in, and the size that is left. -/
def stepForwardOffset (c : IovecContainer) (size : Nat) : Option (Nat × Nat × IovecContainer) :=
  (c.cbufs.find? fun b => !(c.bufs b).atEnd).map fun b =>
    let capacity := (c.bufs b).getRemain
    if capacity < size then
      (b, size - capacity, { c with
        bufs := Function.update c.bufs b ((c.bufs b).stepForwardOffset capacity), remain :=
          c.remain - capacity })
    -- `remain` is left: the size is subtracted from it after it was set to zero
    else (b, 0, { c with bufs := Function.update c.bufs b ((c.bufs b).stepForwardOffset size) })

/-- Move the array up by one entry and add a new buffer. A move of a negative
number of entries has no result. -/
def rotate (c : IovecContainer) (index : Nat) : Option IovecContainer :=
  if c.vec.length < index + 1 then none
  else
    let moved := c.vec.length - index - 1
    some { c with
      vec := ((c.vec.drop 1).take moved ++ c.vec.drop moved).set (c.vec.length - 1)
        ⟨c.next, 0, commonBufSize⟩
      cbufs := c.cbufs ++ [c.next]
      remain := c.remain + commonBufSize
      bufs := Function.update c.bufs c.next .new
      next := c.next + 1 }

/-- Drop the buffers in front that are read to their end. -/
def cleanup : Nat → Nat → IovecContainer → Option IovecContainer
  | 0, _, c => some c
  | fuel + 1, index, c =>
    match c.cbufs with
    | [] => some c
    | b :: cbufs =>
      if (c.bufs b).atEnd then
        if 0 < c.overflow then cleanup fuel (index + 1) { c with cbufs, overflow := c.overflow - 1 }
        else (rotate { c with cbufs } index).bind (cleanup fuel (index + 1))
      else some c

/-- Step over the buffers that are written to their end. -/
def overflowLoop : Nat → Nat → IovecContainer → Option IovecContainer
  | 0, _, c => some c
  | fuel + 1, index, c =>
    match c.cbufs[c.overflow]? with
    | none => some c
    | some b =>
      if (c.bufs b).getCapacity = 0 then
        (c.rotate index).bind fun c => overflowLoop fuel
          (index + 1) { c with overflow := c.overflow + 1 }
      else some c

/-- The pointer lies in the buffer or right behind it. -/
def inRange (b : Nat) (v : Iovec) : Bool := decide (v.cbuf = b ∧ v.offset ≤ commonBufSize)

/-- Let the first entry of the array point behind the data of the current buffer. -/
def updateFirst (c : IovecContainer) : Option IovecContainer :=
  (c.cbufs[c.overflow]?).map fun b =>
    { c with vec := c.vec.set 0 ⟨b, (c.bufs b).tail, (c.bufs b).getCapacity⟩ }

def update (c : IovecContainer) : Option IovecContainer :=
  (cleanup c.cbufs.length 0 c).bind fun c =>
  (c.cbufs[c.overflow]?).bind fun b =>
  (c.vec[0]?).bind fun v =>
  (if inRange b v then overflowLoop c.cbufs.length 0 c else some c).bind updateFirst

end IovecContainer

end Sstoraged
