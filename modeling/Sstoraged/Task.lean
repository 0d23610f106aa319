import Sstoraged.CommonBuf
import Sstoraged.Volume
import Sstoraged.WriteSegment

namespace Sstoraged

variable {B : Type}

/-- The answers of the kernel to the send calls, counted from 0: the number of
bytes taken of those offered, or an error below 0. -/
structure Kernel where
  writev : Nat → Nat → Int
  sendfile : Nat → Nat → Int

/-- Send the unsent part of some common buffers. -/
structure SendTask where
  cbufs : List Nat
  totalRemain : Nat
  deriving DecidableEq

namespace SendTask

def new (bufs : Nat → CommonBuf) (cbuf : Nat) : SendTask := ⟨[cbuf], (bufs cbuf).getRemain⟩

def offered (bufs : Nat → CommonBuf) (t : SendTask) : Nat :=
  (t.cbufs.map fun p => (bufs p).getRemain).sum

def stepForward (bufs : Nat → CommonBuf) : List Nat → Nat → Nat → SendTask × (Nat → CommonBuf)
  | [], total, _ => (⟨[], total⟩, bufs)
  | p :: cbufs, total, tmp =>
    if tmp = 0 then (⟨p :: cbufs, total⟩, bufs)
    else if (bufs p).getRemain ≤ tmp then
      stepForward bufs cbufs (u64 (total - (bufs p).getRemain)) (tmp - (bufs p).getRemain)
    else (⟨p :: cbufs, u64 (total - tmp)⟩, Function.update bufs p ((bufs p).stepForwardOffset tmp))

def runLoop (k : Kernel) :
    Nat → Nat → (Nat → CommonBuf) → SendTask → Bool × SendTask × (Nat → CommonBuf) × Nat
  | 0, n, bufs, t => (false, t, bufs, n)
  | fuel + 1, n, bufs, t =>
    if t.cbufs.isEmpty then (false, t, bufs, n)
    else
      let size := k.writev n (t.offered bufs)
      if size ≤ 0 then (false, t, bufs, n + 1)
      else if size = t.offered bufs then (true, t, bufs, n + 1)
      else
        let (t, bufs) := stepForward bufs t.cbufs t.totalRemain size.toNat
        runLoop k fuel (n + 1) bufs t

def run (k : Kernel) (n : Nat) (bufs : Nat → CommonBuf) (t : SendTask) :
    Bool × SendTask × (Nat → CommonBuf) × Nat := runLoop k (t.offered bufs + 1) n bufs t

end SendTask

structure SendfileTask where
  lv : LogicalVolume
  offset : Nat
  remain : Nat

namespace SendfileTask

def new (lv : LogicalVolume) (lba length : Nat) : SendfileTask := ⟨lv, lba2Offset lba, lba2Offset length⟩

def runHandles (k : Kernel) : List LowHandle → Nat → SendfileTask → Bool × SendfileTask × Nat
  | [], n, t => (true, t, n)
  | h :: lhs, n, t =>
    let size := k.sendfile n h.length
    if size < 0 then (false, t, n + 1)
    else
      let t := { t with offset := t.offset + size.toNat, remain := u64 (t.remain - size) }
      if h.length ≠ size.toNat then (false, t, n + 1) else runHandles k lhs (n + 1) t

def run (k : Kernel) (n : Nat) (t : SendfileTask) : Bool × SendfileTask × Nat :=
  if 0 < t.remain then runHandles k (t.lv.getLowHandles t.offset t.remain) n t else (false, t, n)

end SendfileTask

/-- Send a part of a segment out of its buffers. No run changes the fields of
the segment that are read here. -/
structure SendCacheTask (B : Type) where
  ws : WriteSegment B
  clba : Nat
  totalRemain : Nat
  curIndex : Nat
  offset : Nat

namespace SendCacheTask

/-- Step over `tmp` bytes of the buffers from the current one on. -/
def stepBuffers (totalRemain dsOffset : Nat) : List B → Nat → Nat → Nat → Bool × Nat × Nat
  | [], curIndex, offset, tmp => (decide (tmp = 0), curIndex, offset)
  | _ :: cbufs, curIndex, offset, tmp =>
    if tmp = 0 then (true, curIndex, offset)
    else
      let remain := min totalRemain (commonBufSize - offset - (if curIndex = 0 then dsOffset else 0))
      if remain ≤ tmp then stepBuffers totalRemain dsOffset cbufs (curIndex + 1) 0 (tmp - remain)
      else (true, curIndex, offset + tmp)

def new (ws : WriteSegment B) (lba length : Nat) : SendCacheTask B :=
  let skip := lba2Offset (lba - ws.lba)
  if ws.lba < lba then
    let (_, curIndex, offset) := stepBuffers (lba2Offset length + skip) ws.dsOffset ws.cbufs 0 0 skip
    ⟨ws, lba, lba2Offset length, curIndex, offset⟩
  else ⟨ws, lba, lba2Offset length, 0, 0⟩

def size (t : SendCacheTask B) : Nat := t.ws.cbufs.length - t.curIndex

/-- The scatter list over the bytes still to send. -/
def iovec (t : SendCacheTask B) : List (B × Nat × Nat) :=
  BufferChain.pieces commonBufSize (t.ws.cbufs.drop t.curIndex)
    (t.offset + if t.curIndex = 0 then t.ws.dsOffset else 0) t.totalRemain

def offered (t : SendCacheTask B) : Nat := (t.iovec.map fun p => p.2.2).sum

def stepForward (t : SendCacheTask B) (size : Nat) : Option (SendCacheTask B) :=
  if t.size = 0 ∨ t.totalRemain < size then none
  else
    match stepBuffers t.totalRemain t.ws.dsOffset (t.ws.cbufs.drop t.curIndex) t.curIndex
      t.offset size with
    | (true, curIndex, offset) => some { t with curIndex, offset, totalRemain := t.totalRemain - size }
    | (false, _, _) => none

def runLoop (k : Kernel) : Nat → Nat → SendCacheTask B → Bool × SendCacheTask B × Nat
  | 0, n, t => (false, t, n)
  | fuel + 1, n, t =>
    if t.size = 0 then (false, t, n)
    else
      let size := k.writev n t.offered
      if size ≤ 0 then (false, t, n + 1)
      else if size = t.totalRemain then (true, t, n + 1)
      else
        match t.stepForward size.toNat with
        | none => (true, t, n + 1)
        | some t => runLoop k fuel (n + 1) t

def run (k : Kernel) (n : Nat) (t : SendCacheTask B) : Bool × SendCacheTask B × Nat :=
  runLoop k (t.totalRemain + 1) n t

end SendCacheTask

inductive Task (B : Type)
  | cork
  | uncork
  | send (t : SendTask)
  | sendfile (t : SendfileTask)
  | sendCache (t : SendCacheTask B)

namespace Task

/-- Setting a socket option only warns when it fails. -/
def run (k : Kernel) (n : Nat) (bufs : Nat → CommonBuf) :
    Task B → Bool × Task B × (Nat → CommonBuf) × Nat
  | .cork => (true, .cork, bufs, n)
  | .uncork => (true, .uncork, bufs, n)
  | .send t =>
    match t.run k n bufs with
    | (done, t, bufs, n) => (done, .send t, bufs, n)
  | .sendfile t =>
    match t.run k n with
    | (done, t, n) => (done, .sendfile t, bufs, n)
  | .sendCache t =>
    match t.run k n with
    | (done, t, n) => (done, .sendCache t, bufs, n)

/-- The blocks whose data the task sends. -/
def blocks : Task B → List Nat
  | .sendfile t => List.range' (offset2Lba t.offset) (offset2Lba t.remain)
  | .sendCache t => List.range' t.clba (offset2Lba t.totalRemain)
  | _ => []

/-- How many data bytes the task sends. -/
def dataLength : Task B → Nat
  | .sendfile t => t.remain
  | .sendCache t => t.totalRemain
  | _ => 0

/-- The data bytes that the task sends, with memory and disk as they are. -/
def deliver (mem : B → Nat → UInt8) (disk : Nat → UInt8) : Task B → List UInt8
  | .sendfile t => (List.range' t.offset t.remain).map disk
  | .sendCache t => BufferChain.gather mem t.iovec
  | _ => []

end Task

/-- Run the tasks of the queue from the front until one has to wait. -/
def invoke (k : Kernel) : Nat → (Nat → CommonBuf) → List (Task B) → List (Task B) × (Nat → CommonBuf)
  | _, bufs, [] => ([], bufs)
  | n, bufs, t :: tasks =>
    match t.run k n bufs with
    | (true, _, bufs, n) => invoke k n bufs tasks
    | (false, t, bufs, _) => (t :: tasks, bufs)

end Sstoraged
