import Sstoraged.ConfigBinder
import Sstoraged.JsonValue

namespace Sstoraged.JsonText

inductive TokenType
  | endOfStream
  | objectBegin
  | objectEnd
  | arrayBegin
  | arrayEnd
  | string
  | number
  | true
  | false
  | null
  | arraySeparator
  | memberSeparator
  | comment
  | error
  deriving DecidableEq

/-- A location is the text from there to the end of the document. -/
structure Token where
  type : TokenType
  start : Text
  stop : Text

def Token.text (token : Token) : Text := token.start.take (token.start.length - token.stop.length)

structure ErrorInfo where
  token : Token
  message : Text
  extra : Option Text

namespace Reader

def isSpace (c : UInt8) : Bool :=
  match Char.ofUInt8 c with
  | ' ' | '\t' | '\r' | '\n' => true
  | _ => false

def skipSpaces (current : Text) : Text := current.dropWhile isSpace

def matchPattern (pattern current : Text) : Bool × Text :=
  if pattern.isPrefixOf current then (true, current.drop pattern.length) else (false, current)

/-- A backslash takes the character behind it along. -/
def readString : Text → Bool × Text
  | [] => (false, [])
  | [c] => (decide (c = '"'.toUInt8), [])
  | c :: e :: rest =>
    if c = '\\'.toUInt8 then readString rest
    else if c = '"'.toUInt8 then (true, e :: rest)
    else readString (e :: rest)

def inNumber (c : UInt8) : Bool :=
  decide ('0'.toUInt8 ≤ c ∧ c ≤ '9'.toUInt8) ||
    match Char.ofUInt8 c with
    | '.' | 'e' | 'E' | '+' | '-' => true
    | _ => false

def readNumber (current : Text) : Text := current.dropWhile inNumber

def readCStyleComment : Text → Bool × Text
  | [] => (false, [])
  | c :: rest =>
    if c = '*'.toUInt8 ∧ rest.head? = some '/'.toUInt8 then (true, rest.tail) else readCStyleComment rest

/-- The end of the line belongs to the comment. -/
def readCppStyleComment : Text → Text
  | [] => []
  | c :: rest => if c = '\r'.toUInt8 ∨ c = '\n'.toUInt8 then rest else readCppStyleComment rest

/-- What follows a slash. -/
def readComment : Text → Bool × Text
  | [] => (false, [])
  | c :: rest =>
    if c = '*'.toUInt8 then readCStyleComment rest
    else if c = '/'.toUInt8 then (true, readCppStyleComment rest)
    else (false, rest)

def ifOk (type : TokenType) (read : Bool × Text) : TokenType × Text :=
  (if read.1 then type else .error, read.2)

/-- The type of the token that begins here, and the text behind it. A NUL ends the
document where it stands. -/
def scan : Text → TokenType × Text
  | [] => (.endOfStream, [])
  | c :: rest =>
    match Char.ofUInt8 c with
    | '{' => (.objectBegin, rest)
    | '}' => (.objectEnd, rest)
    | '[' => (.arrayBegin, rest)
    | ']' => (.arrayEnd, rest)
    | '"' => ifOk .string (readString rest)
    | '/' => ifOk .comment (readComment rest)
    | '0' | '1' | '2' | '3' | '4' | '5' | '6' | '7' | '8' | '9' | '-' => (.number, readNumber rest)
    | 't' => ifOk .true (matchPattern (text "rue") rest)
    | 'f' => ifOk .false (matchPattern (text "alse") rest)
    | 'n' => ifOk .null (matchPattern (text "ull") rest)
    | ',' => (.arraySeparator, rest)
    | ':' => (.memberSeparator, rest)
    | '\x00' => (.endOfStream, rest)
    | _ => (.error, rest)

def maxUInt : UInt64 := 0 - 1

/-- The conversion keeps the low 32 bits. -/
def toInt (n : UInt64) : Int32 := n.toUInt32.toInt32

def minInt : Int32 := toInt (~~~(maxUInt / 2))

def maxInt : Int32 := toInt (maxUInt / 2)

/-- The conversion extends the sign. -/
def toUInt (n : Int32) : UInt64 := n.toInt64.toUInt64

inductive Digits
  | value (n : UInt64)
  | large
  | bad

/-- The threshold is compared with the number in front of each digit. -/
def decodeDigits (threshold value : UInt64) : Text → Digits
  | [] => .value value
  | c :: rest =>
    if c < '0'.toUInt8 ∨ '9'.toUInt8 < c then .bad
    else if threshold ≤ value then .large
    else decodeDigits threshold (value * 10 + (c - '0'.toUInt8).toUInt64) rest

variable (D : Doubles)

def notNumber (token : Text) : Text := text "'" ++ token ++ text "' is not a number."

def bufferSize : Int32 := 32

/-- The stores of a double conversion into its buffer, each with its first offset and the
number of its bytes: the text, as many bytes of it as an `int` says, and the NUL behind it.
A longer text has a string of its own. -/
def decodeDoubleStores (token : Text) : List (Int × Nat) :=
  let length := Int32.ofNat token.length
  if length ≤ bufferSize then [(0, (toUInt length).toNat), (length.toInt, 1)] else []

def InBuffer (store : Int × Nat) : Prop := 0 ≤ store.1 ∧ store.1 + store.2 ≤ bufferSize.toInt

instance (store : Int × Nat) : Decidable (InBuffer store) := inferInstanceAs (Decidable (_ ∧ _))

def convert (token : Text) : Option D.Double :=
  let length := Int32.ofNat token.length
  if ∀ store ∈ decodeDoubleStores token, InBuffer store then
    D.sscanf (if length ≤ bufferSize then token.take length.toNatClampNeg else token)
  else D.overrun token

def decodeDouble (token : Text) : Except Text (Value D.Double) :=
  match convert D token with
  | some r => .ok (.real r)
  | none => .error (notNumber token)

def inDouble (c : UInt8) : Bool :=
  match Char.ofUInt8 c with
  | '.' | 'e' | 'E' | '+' => true
  | _ => false

/-- A point, an exponent or a sign inside the number. -/
def isDouble (token : Text) : Bool := token.any inDouble || token.tail.any (· = '-'.toUInt8)

def decodeNumber (token : Text) : Except Text (Value D.Double) :=
  if isDouble token then decodeDouble D token
  else
    let isNegative := token.head? = some '-'.toUInt8
    let threshold := (if isNegative then toUInt (-minInt) else maxUInt) / 10
    match decodeDigits threshold 0 (if isNegative then token.tail else token) with
    | .bad => .error (notNumber token)
    | .large => decodeDouble D token
    | .value value =>
      if isNegative then .ok (.int (-toInt value))
      else if value ≤ toUInt maxInt then .ok (.int (toInt value))
      else .ok (.uint value)

/-- The stores into the buffer of the double conversion when a number is read. -/
def decodeNumberStores (token : Text) : List (Int × Nat) :=
  if isDouble token then decodeDoubleStores token
  else
    let isNegative := token.head? = some '-'.toUInt8
    let threshold := (if isNegative then toUInt (-minInt) else maxUInt) / 10
    match decodeDigits threshold 0 (if isNegative then token.tail else token) with
    | .large => decodeDoubleStores token
    | _ => []

def hexDigit (c : UInt8) : Option Nat :=
  if '0'.toUInt8 ≤ c ∧ c ≤ '9'.toUInt8 then some (c - '0'.toUInt8).toNat
  else if 'a'.toUInt8 ≤ c ∧ c ≤ 'f'.toUInt8 then some ((c - 'a'.toUInt8).toNat + 10)
  else if 'A'.toUInt8 ≤ c ∧ c ≤ 'F'.toUInt8 then some ((c - 'A'.toUInt8).toNat + 10)
  else none

/-- A complaint is a message, with the place that it is about. -/
abbrev Complaint := Text × Option Text

/-- The four digits of an escape sequence, with the location behind them. -/
def decodeUnicodeEscapeSequence (behind : Text) : Nat → Text → Except Complaint Nat
  | unicode, [] => .ok unicode
  | unicode, c :: digits =>
    match hexDigit c with
    | none =>
      .error (text "Bad unicode escape sequence in string: hexadecimal digit expected.",
        some (digits ++ behind))
    | some d => decodeUnicodeEscapeSequence behind (unicode * 16 + d) digits

inductive Escape
  | char (c : UInt8)
  | unicode
  | bad

def unescape (escape : UInt8) : Escape :=
  match Char.ofUInt8 escape with
  | '"' => .char '"'.toUInt8
  | '/' => .char '/'.toUInt8
  | '\\' => .char '\\'.toUInt8
  | 'b' => .char 8
  | 'f' => .char 12
  | 'n' => .char '\n'.toUInt8
  | 'r' => .char '\r'.toUInt8
  | 't' => .char '\t'.toUInt8
  | 'u' => .unicode
  | _ => .bad

/-- The text between two quotes, the second of which is where `stop` begins. The number
of a Unicode escape is read and dropped. -/
def decodeString (stop : Text) : Text → Except Complaint Text
  | [] => .ok []
  | c :: current =>
    if c = '"'.toUInt8 then .ok []
    else if c = '\\'.toUInt8 then
      match current with
      | [] => .error (text "Empty escape sequence in string", some stop)
      | escape :: current =>
        match unescape escape with
        | .char c => (decodeString stop current).map (c :: ·)
        | .unicode =>
          match current with
          | a :: b :: c :: d :: current =>
            (decodeUnicodeEscapeSequence (current ++ stop) 0 [a, b, c, d]).bind fun _ =>
              decodeString stop current
          | current =>
            .error (text "Bad unicode escape sequence in string: four digits expected.",
              some (current ++ stop))
        | .bad => .error (text "Bad escape sequence in string", some (current ++ stop))
    else (decodeString stop current).map (c :: ·)

end Reader

/-- What is left of the document, and the errors so far. -/
structure Reader where
  current : Text
  errors : List ErrorInfo

namespace Reader

open ConfigBinder (cstr)

def readToken (r : Reader) : Token × Reader :=
  let start := skipSpaces r.current
  let (type, current) := scan start
  (⟨type, start, current⟩, { r with current })

/-- Read tokens up to one of some types. Tokens that do not end have no result. -/
def readUntil (stop : TokenType → Bool) : Nat → Reader → Option (Token × Reader)
  | 0, _ => none
  | fuel + 1, r =>
    let (token, r) := r.readToken
    if stop token.type then some (token, r) else readUntil stop fuel r

def skipCommentTokens (fuel : Nat) (r : Reader) : Option (Token × Reader) :=
  readUntil (fun type => decide (type ≠ .comment)) fuel r

def addError (r : Reader) (complaint : Complaint) (token : Token) : Reader :=
  { r with errors := r.errors ++ [⟨token, complaint.1, complaint.2⟩] }

def recoverFromError (fuel : Nat) (skipUntilToken : TokenType) (r : Reader) : Option Reader :=
  (readUntil (fun type => decide (type = skipUntilToken ∨ type = .endOfStream)) fuel r).map Prod.snd

def addErrorAndRecover (fuel : Nat) (message : String) (token : Token) (skipUntilToken : TokenType)
    (r : Reader) :
    Option Reader :=
  (r.addError (text message, none) token).recoverFromError fuel skipUntilToken

variable (D : Doubles)

/-- The value that a name stands for, null when it is new. -/
def member (ms : List (Text × Value D.Double)) (name : Text) : Value D.Double :=
  (ms.lookup name).getD .null

/-- The text between the quotes of a token. -/
def quoted (token : Token) : Text := token.text.tail.dropLast

/-- The location of the second quote of a token. -/
def closing (token : Token) : Text := '"'.toUInt8 :: token.stop

mutual

/-- Read a value into the place of another one. The result tells whether there was no
error; the place may have changed in any case. A name ends at its first NUL, and so does a
text that is stored. -/
def readValue : Nat → Value D.Double → Reader → Option (Bool × Value D.Double × Reader)
  | 0, _, _ => none
  | fuel + 1, current, r =>
    match skipCommentTokens fuel r with
    | none => none
    | some (token, r) =>
      match token.type with
      | .objectBegin => readObject fuel [] [] r
      | .arrayBegin =>
        let r := { r with current := skipSpaces r.current }
        if r.current.head? = some ']'.toUInt8 then some (true, .array [], r.readToken.2)
          else readArray fuel [] r
      | .number =>
        match decodeNumber D token.text with
        | .error message => some (false, current, r.addError (message, none) token)
        | .ok v => some (true, v, r)
      | .string =>
        match decodeString (closing token) (quoted token) with
        | .error complaint => some (false, current, r.addError complaint token)
        | .ok decoded => some (true, .string (cstr decoded), r)
      | .true => some (true, .boolean true, r)
      | .false => some (true, .boolean false, r)
      | .null => some (true, .null, r)
      | _ =>
        some (false, current, r.addError (text "Syntax error: value, object or array expected.",
          none) token)

/-- Read on in an object behind its members so far, the last of which has the given name. -/
def readObject : Nat → Text → List (Text × Value D.Double) → Reader →
    Option (Bool × Value D.Double × Reader)
  | 0, _, _, _ => none
  | fuel + 1, name, ms, r =>
    match skipCommentTokens fuel r with
    | none => none
    | some (tokenName, r) =>
      if tokenName.type = .objectEnd ∧ name = [] then some (true, .object ms, r)
      else if tokenName.type ≠ .string then
        (r.addErrorAndRecover fuel "Missing '\x7d' or object member name" tokenName .objectEnd).map
          (false, .object ms, ·)
      else
        match decodeString (closing tokenName) (quoted tokenName) with
        | .error complaint =>
          ((r.addError complaint tokenName).recoverFromError fuel .objectEnd).map (false, .object ms, ·)
        | .ok name =>
          let (colon, r) := r.readToken
          if colon.type ≠ .memberSeparator then
            (r.addErrorAndRecover fuel "Missing ':' after object member name" colon .objectEnd).map
              (false, .object ms, ·)
          else
            match readValue fuel (member D ms (cstr name)) r with
            | none => none
            | some (ok, v, r) =>
              let ms := SortedMap.assign ms (cstr name) v
              if ok = false then (r.recoverFromError fuel .objectEnd).map (false, .object ms, ·)
              else
                let (comma, r) := r.readToken
                if comma.type = .objectEnd then some (true, .object ms, r)
                else if comma.type = .arraySeparator then readObject fuel name ms r
                else
                  let message := "Missing ',' or '\x7d' in object declaration"
                  (r.addErrorAndRecover fuel message comma .objectEnd).map (false, .object ms, ·)

/-- Read on in an array behind its elements so far. -/
def readArray : Nat → List (Value D.Double) → Reader → Option (Bool × Value D.Double × Reader)
  | 0, _, _ => none
  | fuel + 1, vs, r =>
    match readValue fuel .null r with
    | none => none
    | some (ok, v, r) =>
      let vs := vs ++ [v]
      if ok = false then (r.recoverFromError fuel .arrayEnd).map (false, .array vs, ·)
      else
        let (token, r) := r.readToken
        if token.type = .arrayEnd then some (true, .array vs, r)
        else if token.type = .arraySeparator then readArray fuel vs r
        else
          (r.addErrorAndRecover fuel "Missing ',' or ']' in array declaration" token .arrayEnd).map
            (false, .array vs, ·)

end

/-- What follows the value is looked at for comments only. -/
def parse (fuel : Nat) (document : Text) (root : Value D.Double) :
    Option (Bool × Value D.Double × List ErrorInfo) :=
  match readValue D fuel root ⟨document, []⟩ with
  | none => none
  | some (successful, root, r) => (r.skipCommentTokens fuel).map fun _ => (successful, root, r.errors)

end Reader

end Sstoraged.JsonText
