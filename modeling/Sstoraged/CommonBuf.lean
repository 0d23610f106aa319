import Sstoraged.Common

namespace Sstoraged

/-- The cursors of a common buffer: what was read from it and written to it. -/
structure CommonBuf where
  offset : Nat
  tail : Nat
  deriving DecidableEq

namespace CommonBuf

def new : CommonBuf := ⟨0, 0⟩

def getSize (_ : CommonBuf) : Nat := commonBufSize
def getRemain (b : CommonBuf) : Nat := b.tail - b.offset
def getCapacity (b : CommonBuf) : Nat := b.getSize - b.tail

/-- On the edge: fewer than `challenge` bytes are left from the position on. -/
def isEdge (b : CommonBuf) (pos challenge : Nat) : Bool := decide (b.getSize - pos < challenge)

def atEnd (b : CommonBuf) : Bool := decide (b.offset = b.getSize)

def stepForwardTail (b : CommonBuf) (step : Nat) : CommonBuf :=
  if b.getSize < b.tail + step then b else { b with tail := b.tail + step }

/-- It fails when there is less to read than the step. -/
def stepBackwardTail (b : CommonBuf) (step : Nat) : Option CommonBuf :=
  if b.getRemain < step then none else some { b with tail := b.tail - step }

def stepForwardOffset (b : CommonBuf) (step : Nat) : CommonBuf :=
  if b.getRemain < step then b else { b with offset := b.offset + step }

end CommonBuf

end Sstoraged
