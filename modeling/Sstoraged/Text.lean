import Sstoraged.Login

namespace Sstoraged

/-- A Text request; its data segment is a list of texts. -/
structure TextRequest where
  opCode : Nat := LoginSession.opTextCmd
  immediate : Bool := true
  flags : UInt8
  ttt : Nat := iscsiRsvdTaskTag
  itt : Nat := 0
  data : List String

/-- The pointers that the handler uses without a look at them: its connection, and the
first of the pairs. -/
inductive TextPointer
  | connection
  | attrs
  deriving DecidableEq

structure TextReply where
  flags : UInt8
  itt : Nat
  ttt : Nat
  statsn : Nat
  expcmdsn : Nat
  maxcmdsn : Nat
  pairs : List (String × String)

namespace TextRequest

def flagContinue : UInt8 := 0x40

def isFinal (req : TextRequest) : Bool := decide (req.flags &&& iscsiFlagFinal ≠ 0)
def isContinue (req : TextRequest) : Bool := decide (req.flags &&& flagContinue ≠ 0)

def valid (req : TextRequest) : Bool :=
  decide (req.opCode = LoginSession.opTextCmd) && !(req.isContinue || !req.isFinal) &&
    decide (req.ttt = iscsiRsvdTaskTag)

/-- The only key is `SendTargets`. -/
def parsePair (apair : String × String) : Bool :=
  apair.1 == "SendTargets" && (decide (apair.2.length ≤ valueMaxlen) && apair.2 == "All")

def parsePairs : List String → Outcome TextPointer Unit (List (String × String))
  | [] => .ok []
  | str :: data => do
    let apair := getKeyValuePair str
    if parsePair apair then return apair :: (← parsePairs data) else .error (.failed ())

end TextRequest

/-- `TextHandler::handle`, with the size of the pool at this moment and the pairs for the
targets, and with the reply that is queued. -/
def Target.handleText (l : LinearLimitter) (w : Target) (id fd poolnum : Nat)
    (targets : List (String × String)) (req : TextRequest) :
    Outcome TextPointer Target (Target × TextReply) := do
  if !req.valid then .error (.failed w)
  else
    let attrs ← (TextRequest.parsePairs req.data).mapError (Stop.map fun _ => w)
    let s ← .ofOption ((w.ses id).advanceCMDSNs l poolnum req.immediate)
    let w := w.setSes id s
    if fd ∉ s.connection then .error (.null .connection)
    else
      let statsn := (w.conn fd).statsn
      let w := w.advanceSTATSN fd
      match attrs with
      | [] => .error (.null .attrs)
      | attr :: _ =>
        if attr.1 ≠ "SendTargets" then .error (.failed w)
        else return (w,
          { flags := iscsiFlagFinal, itt := req.itt, ttt := iscsiRsvdTaskTag, statsn
            expcmdsn := s.window.expcmdsn, maxcmdsn := s.window.maxcmdsn, pairs := targets })

end Sstoraged
