import Sstoraged.DiskWriter
import Sstoraged.HandleMap
import Sstoraged.WriteCache

namespace Sstoraged.AioDiskWriter

variable {B : Type} {ix : LbaIndex}

def iocbMax : Nat := 64

/-- A write of one piece of a segment: the address of the volume that it is for, and the
descriptor and the offset that `getHandle` translates it to. -/
structure Iocb (B : Type) where
  ws : Nat
  start : Nat
  buf : B
  offset : Nat
  nbytes : Nat
  path : String
  realOffset : Nat

/-- Cut a piece of a buffer at the ends of the handles. -/
def cut (handles : List (Nat × LowHandle)) (p : Nat) (b : B) :
    Nat → Nat → Nat → Nat → Option (List (Iocb B))
  | 0, _, _, segment => if segment = 0 then some [] else none
  | fuel + 1, start, offset, segment =>
    if segment = 0 then some []
    else
      match DiskWriter.getHandle handles start segment with
      | none => none
      | some (path, covered, realOffset) =>
        (cut handles p b fuel (start + covered) (offset + covered) (segment - covered)).map
          (⟨p, start, b, offset, covered, path, realOffset⟩ :: ·)

/-- The loop over the buffers of a segment. -/
def prepareLoop (handles : List (Nat × LowHandle)) (p : Nat) :
    Nat → Nat → List (B × Nat × Nat) → List (Iocb B) → Option (List (Iocb B) × Nat)
  | _, length, [], iocbs => some (iocbs, length)
  | start, length, (b, off, segment) :: ps, iocbs =>
    if iocbs.length < iocbMax then
      match cut handles p b segment start off segment with
      | none => none
      | some new => prepareLoop handles p (start + segment) (length - segment) ps (iocbs ++ new)
    else some (iocbs, length)

/-- The writes of a whole segment, whatever part of it is still live. -/
def prepare (handles : List (Nat × LowHandle)) (p : Nat) (ws : WriteSegment B) :
    Option (List (Iocb B)) :=
  match prepareLoop handles p (lba2Offset ws.lba) (lba2Offset ws.transferLength)
      (BufferChain.pieces commonBufSize ws.cbufs ws.dsOffset (lba2Offset ws.transferLength)) [] with
  | some (iocbs, 0) => if iocbs.length < iocbMax then some iocbs else none
  | _ => none

/-- The writer, its listener and the kernel, with the history of what was
pushed, submitted, reported, failed and popped. -/
structure State (B : Type) (ix : LbaIndex) where
  cache : WriteCache B ix
  currentWs : Option Nat
  iocbsSizes : List Nat
  iocbsTotal : Nat
  /-- The loops of the two threads are still running. -/
  writer : Bool
  listener : Bool
  /-- The kernel: writes in flight and finished, those read by the listener, the files. -/
  flight : List (Iocb B)
  done : List (Iocb B × Int)
  batch : List (Iocb B × Int)
  disk : Disk
  pushed : List (Nat × WriteSegment B)
  submitted : List (Nat × List (Iocb B))
  reported : List (Iocb B)
  failed : List (Iocb B)
  popped : List Nat

/-- What happens next: a push, a round of the loop of `doWork` with the answer of
the kernel, a write that the kernel finishes, a batch of events that
`doListenerWork` reads, and one event of the batch. -/
inductive Event (B : Type)
  | push (ws : WriteSegment B) (filled : ws.Filled)
  | submit (res : Int)
  | finish (k : Nat) (res : Int) (junk : Disk)
  | getEvents (ks : List Nat)
  | event

def start (disk₀ : Disk) : State B ix where
  cache := .init
  currentWs := none
  iocbsSizes := []
  iocbsTotal := 0
  writer := true
  listener := true
  flight := []
  done := []
  batch := []
  disk := disk₀
  pushed := []
  submitted := []
  reported := []
  failed := []
  popped := []

/-- Take the elements at the given places out of a list, one after the other. -/
def pick {α : Type} : List Nat → List α → Option (List α × List α)
  | [], l => some ([], l)
  | k :: ks, l =>
    match l[k]? with
    | none => none
    | some x => (pick ks (l.eraseIdx k)).map fun r => (x :: r.1, r.2)

/-- Where the first `n` bytes of a write go. -/
def Iocb.places (i : Iocb B) (n : Nat) : List (String × Nat) := HandleMap.cells (i.path, n, i.realOffset)

/-- What a write has for a place. -/
def Iocb.data (mem : B → Nat → UInt8) (i : Iocb B) : Disk :=
  fun place => mem i.buf (i.offset + u64 ((place.2 : Int) - i.realOffset))

/-- The files after some places are written. -/
def land (data : Disk) (places : List (String × Nat)) (disk : Disk) : Disk :=
  fun place => if place ∈ places then data place else disk place

/-- One round of the loop of `doWork`. -/
def submit (handles : List (Nat × LowHandle)) (s : State B ix) (res : Int) : Option (State B ix) :=
  if s.writer = true ∧ s.iocbsTotal < iocbMax then
    match s.cache.getNext s.currentWs with
    | none => none
    | some (p, cache) =>
      match prepare handles p (cache.ws p) with
      | none => some { s with cache, currentWs := some p, writer := false }
      | some iocbs =>
        some { s with
          cache, currentWs := some p
          iocbsSizes := s.iocbsSizes ++ [iocbs.length]
          iocbsTotal := s.iocbsTotal + iocbs.length
          flight := s.flight ++ iocbs.take res.toNat
          failed := s.failed ++ iocbs.drop res.toNat
          submitted := s.submitted ++ [(p, iocbs)] }
  else none

/-- The kernel finishes a write. A segment that has left the cache may have
given its buffers back, and then anything may be written. -/
def finish (mem : B → Nat → UInt8) (s : State B ix) (k : Nat) (res : Int) (junk : Disk) :
    Option (State B ix) :=
  match s.flight[k]? with
  | none => none
  | some i =>
    some { s with
      flight := s.flight.eraseIdx k
      done := s.done ++ [(i, res)]
      disk := land (if i.ws ∈ s.cache.fifo then i.data mem else junk)
        (i.places (min res.toNat i.nbytes)) s.disk
      failed := if res = i.nbytes then s.failed else s.failed ++ [i] }

/-- One call of `io_getevents`. -/
def getEvents (s : State B ix) (ks : List Nat) : Option (State B ix) :=
  if s.listener = true ∧ s.iocbsSizes ≠ [] ∧ s.batch = [] ∧ ks.length ≤ iocbMax then
    match pick ks s.done with
    | none => none
    | some (batch, done) => some { s with batch, done }
  else none

/-- One round of the loop over the events. No entry of the queue is 0. -/
def event (s : State B ix) : Option (State B ix) :=
  match s.batch, s.iocbsSizes with
  | (i, res) :: batch, size :: sizes =>
    if (i.nbytes : Int) ≠ res then some { s with listener := false, batch := [] }
    else if s.iocbsTotal = 0 then none
    else if size - 1 = 0 then
      some { s with
        batch, iocbsTotal := s.iocbsTotal - 1, reported := s.reported ++ [i]
        cache := s.cache.front.2.pop, iocbsSizes := sizes
        popped := s.popped ++ s.cache.front.1.toList }
    else
      some { s with
        batch, iocbsTotal := s.iocbsTotal - 1, reported := s.reported ++ [i]
        iocbsSizes := (size - 1) :: sizes }
  | _, _ => none

def step (mem : B → Nat → UInt8) (handles : List (Nat × LowHandle)) (s : State B ix) :
    Event B → Option (State B ix)
  | .push ws _ =>
    some { s with cache := s.cache.push ws, pushed := s.pushed ++ [((s.cache.push ws).next - 1, ws)] }
  | .submit res => submit handles s res
  | .finish k res junk => finish mem s k res junk
  | .getEvents ks => getEvents s ks
  | .event => event s

end Sstoraged.AioDiskWriter
