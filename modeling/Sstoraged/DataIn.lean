import Sstoraged.Session

namespace Sstoraged

/-- The generator of Data-In PDUs: the buffer of the current header and the
counter that its data sequence numbers come from. -/
structure DataInGenerator where
  cbuf : Nat
  datasnGen : Nat

namespace DataInGenerator

variable {B : Type} {ix : LbaIndex}

def datainFlagStatus : UInt8 := 0x01
def datainFlagUnderflow : UInt8 := 0x02
def datainFlagOverflow : UInt8 := 0x04

def new (s : Session B ix) : DataInGenerator × Session B ix :=
  (⟨s.next, advanceSn 0⟩, s.alloc (CommonBuf.new.stepForwardTail sizeofHeader) (.dataIn {}))

/-- Change a field of the current header. -/
def set (g : DataInGenerator) (f : DataInHeader → DataInHeader) (s : Session B ix) : Session B ix :=
  match s.headers g.cbuf with
  | .dataIn h => { s with headers := Function.update s.headers g.cbuf (.dataIn (f h)) }
  | _ => s

def setDlength (g : DataInGenerator) (length : Nat) : Session B ix → Session B ix :=
  g.set fun h => { h with dlength := length % 2 ^ 24 }

def setCmdStatus (g : DataInGenerator) (code : UInt8) : Session B ix → Session B ix :=
  g.set fun h => { h with flags := h.flags ||| (iscsiFlagFinal ||| datainFlagStatus), cmdStatus := code }

def addOffset (g : DataInGenerator) (offset : Nat) : Session B ix → Session B ix :=
  g.set fun h => { h with offset := u32 (h.offset + offset) }

def getDlength (g : DataInGenerator) (s : Session B ix) : Nat :=
  match s.headers g.cbuf with
  | .dataIn h => h.dlength
  | _ => 0

/-- Shrinking to the expected length changes the header only. -/
def setResidualCount (g : DataInGenerator) (exp cur : Nat) (s : Session B ix) : Session B ix :=
  if cur < exp then
    g.set (fun h => { h with flags := h.flags ||| datainFlagUnderflow, residualCount := exp - cur }) s
  else if exp < cur then
    g.setDlength exp
      (g.set (fun h => { h with flags := h.flags ||| datainFlagOverflow, residualCount := cur - exp }) s)
  else s

/-- The result is none where the source returns a null pointer. -/
def reserveDataSegment (g : DataInGenerator) (size : Nat) (s : Session B ix) : Option (Session B ix) :=
  if size = 0 then none
  else if (s.bufs g.cbuf).getCapacity < size then none
  else
    let s := g.setDlength size s
    some { s with bufs := Function.update s.bufs g.cbuf ((s.bufs g.cbuf).stepForwardTail size) }

def resetDlength (g : DataInGenerator) (size : Nat) (s : Session B ix) : Bool × Session B ix :=
  if size = 0 then (false, s)
  else if (s.bufs g.cbuf).getCapacity < size then (false, s)
  else
    let oldSize := g.getDlength s
    if oldSize < size then (false, s)
    else
      let s := g.setDlength size s
      match (s.bufs g.cbuf).stepBackwardTail (oldSize - size) with
      | none => (false, s)
      | some b => (true, { s with bufs := Function.update s.bufs g.cbuf b })

def advanceDataSN (g : DataInGenerator) (s : Session B ix) : DataInGenerator × Session B ix :=
  ({ g with datasnGen := advanceSn g.datasnGen }, g.set (fun h => { h with datasn := g.datasnGen }) s)

/-- Each call pads the buffer again. -/
def serialize (g : DataInGenerator) (s : Session B ix) : Session B ix :=
  if g.getDlength s % padWordLen ≠ 0 then
    let padded := (s.bufs g.cbuf).stepForwardTail (padWordLen - g.getDlength s % padWordLen)
    { s with bufs := Function.update s.bufs g.cbuf padded }
  else s

/-- The copy constructor serializes the old generator once more. -/
def replica (old : DataInGenerator) (s : Session B ix) : DataInGenerator × Session B ix :=
  let s := old.serialize s
  (⟨s.next, old.datasnGen⟩,
    s.alloc (CommonBuf.new.stepForwardTail (s.bufs old.cbuf).getRemain) (s.headers old.cbuf))

end DataInGenerator

end Sstoraged
