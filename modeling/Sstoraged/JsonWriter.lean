import Sstoraged.JsonErrors

namespace Sstoraged.JsonText

open ConfigBinder (cstr)

variable {R : Type}

/-- The digits are written from the last one, in front of the text. -/
def uintToString (value : UInt32) (current : Text) : Text :=
  let current := ('0'.toUInt8 + (value % 10).toUInt8) :: current
  if h : value / 10 ≠ 0 then uintToString (value / 10) current else current
termination_by value.toNat
decreasing_by
  have hne : (value / 10).toNat ≠ 0 := fun heq => h (UInt32.toNat_inj.mp heq)
  simp only [UInt32.toNat_div] at hne ⊢
  exact Nat.div_lt_self (Nat.pos_of_ne_zero (by grind)) (by decide)

/-- The digits are those of the low 32 bits. -/
def intToString (value : Int32) : Text :=
  if value < 0 then '-'.toUInt8 :: uintToString (Reader.toUInt (-value)).toUInt32 []
  else uintToString (Reader.toUInt value).toUInt32 []

def unsignedToString (value : UInt64) : Text := uintToString value.toUInt32 []

def booleanToString (value : Bool) : Text := if value then text "true" else text "false"

def valueToQuotedString (value : Text) : Text := '"'.toUInt8 :: (cstr value ++ ['"'.toUInt8])

def rightMargin : Nat := 74

def indentSize : Nat := 3

structure StyledWriter where
  document : Text
  childValues : List Text
  addChildValues : Bool
  indentString : Text

namespace StyledWriter

def add (t : Text) (w : StyledWriter) : StyledWriter := { w with document := w.document ++ t }

def pushValue (value : Text) (w : StyledWriter) : StyledWriter :=
  if w.addChildValues then { w with childValues := w.childValues ++ [value] } else w.add value

/-- Nothing is done behind a blank. -/
def writeIndent (w : StyledWriter) : StyledWriter :=
  match w.document.getLast? with
  | none => w.add w.indentString
  | some last =>
    if last = ' '.toUInt8 then w
    else if last = '\n'.toUInt8 then w.add w.indentString
    else (w.add (text "\n")).add w.indentString

def writeWithIndent (value : Text) (w : StyledWriter) : StyledWriter := w.writeIndent.add value

def indent (w : StyledWriter) : StyledWriter :=
  { w with indentString := w.indentString ++ List.replicate indentSize ' '.toUInt8 }

def unindent (w : StyledWriter) : StyledWriter :=
  { w with indentString := w.indentString.take (w.indentString.length - indentSize) }

end StyledWriter

/-- An array or an object that is not empty. -/
def Value.nests : Value R → Bool
  | .array vs => !vs.isEmpty
  | .object ms => !ms.isEmpty
  | _ => false

open StyledWriter

/-- Whether an array takes several lines. Its elements are written to find their lengths,
unless there are too many of them or one has a part of its own. -/
def isMultineArray (writeValues : StyledWriter → StyledWriter) (value : List (Value R))
    (w : StyledWriter) :
    Bool × StyledWriter :=
  let w := { w with childValues := [] }
  if rightMargin ≤ value.length * 3 ∨ value.any Value.nests = true then (true, w)
  else
    let w := { writeValues { w with addChildValues := true } with addChildValues := false }
    let lineLength := 4 + (value.length - 1) * 2 + (w.childValues.map List.length).sum
    (decide (rightMargin ≤ lineLength), w)

/-- The next element on its line, with its text if that is there. -/
def writeLine (writeElement : StyledWriter → StyledWriter) (lines : List Text) (w : StyledWriter) :
    StyledWriter :=
  match lines with
  | line :: _ => w.writeWithIndent line
  | [] => writeElement w.writeIndent

/-- `writeLines` writes the elements on lines of their own, the texts of which may be there. -/
def writeArrayValue (writeValues : StyledWriter → StyledWriter)
    (writeLines : List Text → StyledWriter → StyledWriter)
    (value : List (Value R)) (w : StyledWriter) : StyledWriter :=
  if value.isEmpty then w.pushValue (text "[]")
  else
    let (isArrayMultiLine, w) := isMultineArray writeValues value w
    if isArrayMultiLine then
      (writeLines w.childValues (w.writeWithIndent (text "[")).indent).unindent.writeWithIndent
        (text "]")
    else w.add (text "[ " ++ (text ", ").intercalate w.childValues ++ text " ]")

variable (D : Doubles)

mutual

def writeValue : Value D.Double → StyledWriter → StyledWriter
  | .null, w => w.pushValue (text "null")
  | .int n, w => w.pushValue (intToString n)
  | .uint n, w => w.pushValue (unsignedToString n)
  | .real r, w => w.pushValue (D.sprintf r)
  | .string s, w => w.pushValue (valueToQuotedString s)
  | .boolean b, w => w.pushValue (booleanToString b)
  | .array vs, w =>
    writeArrayValue (fun w => writeValues vs w) (fun lines w => writeLines vs lines w) vs w
  | .object ms, w =>
    if ms.isEmpty then w.pushValue (text "\x7b\x7d")
    else (writeMembers ms (w.writeWithIndent (text "\x7b")).indent).unindent.writeWithIndent
      (text "\x7d")

def writeValues : List (Value D.Double) → StyledWriter → StyledWriter
  | [], w => w
  | v :: vs, w => writeValues vs (writeValue v w)

def writeLines : List (Value D.Double) → List Text → StyledWriter → StyledWriter
  | [], _, w => w
  | v :: vs, lines, w =>
    let w := writeLine (fun w => writeValue v w) lines w
    if vs.isEmpty then w else writeLines vs lines.tail (w.add (text ","))

def writeMembers : List (Text × Value D.Double) → StyledWriter → StyledWriter
  | [], w => w
  | (name, v) :: ms, w =>
    let w := writeValue v ((w.writeWithIndent (valueToQuotedString name)).add (text " : "))
    if ms.isEmpty then w else writeMembers ms (w.add (text ","))

end

def write (root : Value D.Double) : Text :=
  ((writeValue D root ⟨[], [], false, []⟩).add (text "\n")).document

end Sstoraged.JsonText
