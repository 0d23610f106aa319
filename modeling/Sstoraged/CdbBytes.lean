import Sstoraged.ReadHandler
import Sstoraged.ReplyLeaks
import Sstoraged.WriteHandler

namespace Sstoraged

variable {B : Type} {ix : LbaIndex}

/-- The 48 bytes of a header, and nothing behind them. -/
def Header.head (bhs : Header) : Header := fun i => if i < sizeofHeader then bhs i else 0

def Token.head (t : Token B) : Token B := { t with bhs := t.bhs.head }

namespace CdbBytes

open ReplyFraming

/-- The handlers of SCSI commands. -/
inductive Command
  | reply (c : ReplyLeaks.Command)
  | maintenanceIn
  | dummy
  | read (r : ReadHandler)
  | write (w : WriteHandler)

namespace Command

def handle (s : Session B ix) (t : Token B) : Command → Option (Bool × Session B ix)
  | .reply c => c.handle s t.bhs
  | .maintenanceIn => MaintenanceInHandler.handle s t.bhs
  | .dummy => some (DummyHandler.handle s t.bhs)
  | .read r => r.handle s t.bhs
  | .write w => some (w.handle s t)

/-- The data segment of the reply, with what was on the stack and in the buffer. -/
def data (s : Session B ix) (t : Token B) (stack mem : Header) : Command → Header
  | .reply c => c.data s t.bhs stack mem
  | .maintenanceIn => Store.run (MaintenanceInHandler.stores stack) mem
  | .dummy | .read _ | .write _ => mem

/-- What a call decides, and the session and the data that it leaves when it accepts. -/
def outcome (c : Command) (s : Session B ix) (t : Token B) :
    Option (Option (Session B ix × (Header → Header → Header))) :=
  (c.handle s t).map fun r => if r.1 then some (r.2, (c.data s t · ·)) else none

end Command

/-- A byte from the header on that belongs to the data segment and lies in the same
buffer. -/
def InData (t : Token B) (i : Nat) : Prop :=
  sizeofHeader + (Parser.mk t.bhs).getHlength ≤ i ∧
    i < sizeofHeader + (Parser.mk t.bhs).getHlength + (Parser.mk t.bhs).getDlength ∧
    t.offset + i < commonBufSize

/-- The same PDU, with other bytes behind it. -/
structure SamePdu (t t' : Token B) : Prop where
  offset : t'.offset = t.offset
  cbufs : t'.cbufs = t.cbufs
  header : ∀ i < sizeofHeader, t'.bhs i = t.bhs i
  data : ∀ i, InData t i → t'.bhs i = t.bhs i

/-- The command is judged by its own bytes. -/
def Judged (c : Command) (s : Session B ix) (t : Token B) : Prop :=
  ∀ t', SamePdu t t' → c.outcome s t' = c.outcome s t

/-- Where the parser of READ CAPACITY(16) looks for the PMI flag, from the header on. -/
def flagsOffset : Nat := 50

/-- READ CAPACITY(16) that is rejected whatever its flags are. -/
def Settled (s : Session B ix) (bhs : Header) : Prop :=
  readsFinal bhs = false ∨ (Parser.mk bhs).getSCB 0 ≠ ReadCapacityHandler.readCapacity16.opcode ∨
    ReadCapacityHandler.readCapacity16.lba (Parser.mk bhs).getSCB = 0 ∧
      s.getLUN (Parser.mk bhs).getLUN = none

variable {s : Session B ix} {t t' : Token B}

theorem SamePdu.head (h : SamePdu t t') : t'.head = t.head := by
  obtain ⟨hoff, hcbufs, hbytes, -⟩ := h
  have hbhs : t'.bhs.head = t.bhs.head := by
    funext i
    rw [Header.head, Header.head]
    split
    · rename_i hi
      exact hbytes i hi
    · rfl
  rw [Token.head, Token.head, hbhs, hoff, hcbufs]

theorem eq_of_head {α : Sort*} {f : Header → α} (hf : ∀ b : Header, f b.head = f b) {b b' : Header}
    (h : b'.head = b.head) : f b' = f b := by
  rw [← hf, h, hf]

section Write

variable (w : WriteHandler) (s : Session B ix) (t : Token B)

theorem valid_head : WriteHandler.valid t.bhs.head = WriteHandler.valid t.bhs := rfl

theorem front_head (lba length : Nat) :
    t.head.frontDataSegment lba length = t.frontDataSegment lba length := rfl

theorem receive_head (remain : Nat) : w.receive s t.bhs.head remain = w.receive s t.bhs remain := rfl

theorem finish_head : w.finish s t.bhs.head = w.finish s t.bhs := rfl

theorem write_head : w.handle s t.head = w.handle s t := by
  have hlun : (Parser.mk t.bhs.head).getLUN = (Parser.mk t.bhs).getLUN := rfl
  have hdlength : (Parser.mk t.bhs.head).getDlength = (Parser.mk t.bhs).getDlength := rfl
  have hlba : (Cdb10.mk (Parser.mk t.bhs.head).getSCB).getLBA =
      (Cdb10.mk (Parser.mk t.bhs).getSCB).getLBA := rfl
  have hlength : (Cdb10.mk (Parser.mk t.bhs.head).getSCB).getTransferLength =
      (Cdb10.mk (Parser.mk t.bhs).getSCB).getTransferLength := rfl
  have hbhs : t.head.bhs = t.bhs.head := rfl
  unfold WriteHandler.handle
  dsimp only
  simp only [hbhs, valid_head, front_head, receive_head, finish_head, hlun, hdlength, hlba, hlength]

end Write

theorem outcome_head {c : Command} (h : c ≠ .reply .readCapacity16) (s : Session B ix) (t : Token B) :
    c.outcome s t.head = c.outcome s t := by
  cases c with
  | reply c =>
    cases c with
    | readCapacity16 => exact absurd rfl h
    | inquiry => rfl
    | readCapacity => rfl
    | modeSense => rfl
    | reportLuns => rfl
  | maintenanceIn => rfl
  | dummy => rfl
  | read r => rfl
  | write w =>
    rw [Command.outcome, Command.handle, write_head]
    rfl

section ReadCapacity16

open ReadCapacityHandler

/-- What is left to do when the checks are passed. -/
def accepted (s : Session B ix) (bhs : Header) : Option (Bool × Session B ix) :=
  let (reply, s) := newDataIn bhs statusGood s
  if readCapacity16.lba (Parser.mk bhs).getSCB = 0 then
    (reply.reserveDataSegment readCapacity16.size s).map fun s =>
      match s.getLUN (Parser.mk bhs).getLUN with
      | none => (false, s)
      | some _ => (true, reply.sendResidual bhs s)
  else
    let s := reply.setCmdStatus checkCondition s
    (reply.reserveDataSegment fixedSenseSize s).map fun s => (true, reply.sendResidual bhs s)

theorem handle_eq (s : Session B ix) (bhs : Header) :
    readCapacity16.handle s bhs = if readsFinal bhs = false ∨
        readCapacity16.valid (Parser.mk bhs).getSCB = false then some (false, s)
          else accepted s bhs := rfl

theorem valid_eq (bhs : Header) : readCapacity16.valid (Parser.mk bhs).getSCB =
    (decide ((Parser.mk bhs).getSCB 0 = readCapacity16.opcode) &&
      decide (bhs flagsOffset &&& 0x01 = 0)) := by
  have hflags : readCapacity16.flags (Parser.mk bhs).getSCB = bhs flagsOffset := rfl
  rw [valid, isPMI, hflags, decide_not, Bool.not_not]

theorem accepted_head (s : Session B ix) (bhs : Header) : accepted s bhs.head = accepted s bhs := rfl

theorem accepted_cases (s : Session B ix) (bhs : Header) : ∃ s', accepted s bhs =
    some (!decide (readCapacity16.lba (Parser.mk bhs).getSCB = 0 ∧
      s.getLUN (Parser.mk bhs).getLUN = none),
      s') := by
  have hopen := newDataIn_open s bhs statusGood
  have hcap : sizeofHeader + 32 ≤ commonBufSize := by decide
  unfold accepted
  dsimp only
  split
  · rename_i hlba
    obtain ⟨s₁, heq, hopen⟩ := hopen.reserve (show readCapacity16.size ≠ 0 by decide) hcap
    have hlun : s₁.getLUN (Parser.mk bhs).getLUN = s.getLUN (Parser.mk bhs).getLUN := by
      rw [Session.getLUN, hopen.lvs, Session.getLUN]
    rw [heq, Option.map_some, hlun]
    cases hget : s.getLUN (Parser.mk bhs).getLUN with
    | none => exact ⟨_, congrArg some (Prod.ext (by simp [hlba]) rfl)⟩
    | some lv => exact ⟨_, congrArg some (Prod.ext (by simp) rfl)⟩
  · rename_i hlba
    obtain ⟨s₁, heq, -⟩ := (hopen.set fun h => { h with
      flags := h.flags ||| (iscsiFlagFinal ||| DataInGenerator.datainFlagStatus)
      cmdStatus := checkCondition }).reserve (show fixedSenseSize ≠ 0 by decide) (by decide)
    rw [DataInGenerator.setCmdStatus, heq, Option.map_some]
    exact ⟨_, congrArg some (Prod.ext (by simp [hlba]) rfl)⟩

end ReadCapacity16

theorem outcome_false {c : Command} (s' : Session B ix) (h : c.handle s t = some (false, s')) :
    c.outcome s t = some none := by
  rw [Command.outcome, h]
  rfl

theorem outcome_true {c : Command} {s' : Session B ix} (h : c.handle s t = some (true, s')) :
    c.outcome s t = some (some (s', (c.data s t · ·))) := by
  rw [Command.outcome, h]
  rfl

open ReadCapacityHandler in
theorem outcome_settled (h : Settled s t.bhs) :
    Command.outcome (.reply .readCapacity16) s t = some none := by
  have hhandle : Command.handle s t (.reply .readCapacity16) = readCapacity16.handle s t.bhs := rfl
  by_cases hcheck : readsFinal t.bhs = false ∨ readCapacity16.valid (Parser.mk t.bhs).getSCB = false
  · exact outcome_false s (by rw [hhandle, handle_eq, if_pos hcheck])
  · rw [not_or, Bool.not_eq_false, Bool.not_eq_false, valid_eq, Bool.and_eq_true, decide_eq_true_eq]
      at hcheck
    obtain hfinal | hopcode | hlun := h
    · exact absurd (hfinal.symm.trans hcheck.1) (by decide)
    · exact absurd hcheck.2.1 hopcode
    · obtain ⟨s', heq⟩ := accepted_cases s t.bhs
      rw [decide_eq_true hlun, Bool.not_true] at heq
      refine outcome_false s' ?_
      rw [hhandle, handle_eq, if_neg, heq]
      rw [not_or, Bool.not_eq_false, Bool.not_eq_false, valid_eq, Bool.and_eq_true, decide_eq_true_eq]
      exact hcheck

/-- The token with another byte in place of the flags. -/
def withFlags (t : Token B) (flags : UInt8) : Token B :=
  { t with bhs := Function.update t.bhs flagsOffset flags }

theorem samePdu_withFlags (h : ¬ InData t flagsOffset) (flags : UInt8) :
    SamePdu t (withFlags t flags) := by
  refine ⟨rfl, rfl, fun i hi => ?_, fun i hi => ?_⟩
  · refine Function.update_of_ne (fun heq => ?_) _ _
    rw [heq] at hi
    exact absurd hi (by decide)
  · refine Function.update_of_ne (fun heq => ?_) _ _
    rw [heq] at hi
    exact h hi

open ReadCapacityHandler in
theorem not_judged_of_free (hfree : ¬ InData t flagsOffset) (h : ¬ Settled s t.bhs) :
    ¬ Judged (.reply .readCapacity16) s t := by
  intro hj
  have hhandle : ∀ u : Token B, Command.handle s u (.reply .readCapacity16) =
      readCapacity16.handle s u.bhs := fun u => rfl
  have hhead : ∀ flags, (withFlags t flags).bhs.head = t.bhs.head := fun flags =>
    congrArg Token.bhs (samePdu_withFlags hfree flags).head
  have hfinal : ∀ flags, readsFinal (withFlags t flags).bhs = readsFinal t.bhs := fun flags =>
    eq_of_head (f := readsFinal) (fun _ => rfl) (hhead flags)
  rw [Settled, not_or, not_or, Bool.not_eq_false, not_not] at h
  have hvalid : ∀ flags, readCapacity16.valid (Parser.mk (withFlags t flags).bhs).getSCB =
      decide (flags &&& 0x01 = 0) := by
    intro flags
    have hopcode : (Parser.mk (withFlags t flags).bhs).getSCB 0 = readCapacity16.opcode :=
      (eq_of_head (f := fun b => (Parser.mk b).getSCB 0) (fun _ => rfl) (hhead flags)).trans h.2.1
    have hbyte : (withFlags t flags).bhs flagsOffset = flags := by
      change Function.update t.bhs flagsOffset flags flagsOffset = flags
      rw [Function.update_self]
    rw [valid_eq, hopcode, hbyte, decide_eq_true rfl, Bool.true_and]
  have hset : Command.outcome (.reply .readCapacity16) s (withFlags t 1) = some none := by
    refine outcome_false s ?_
    rw [hhandle, handle_eq, if_pos (.inr ((hvalid 1).trans (by decide)))]
  obtain ⟨s', heq⟩ := accepted_cases s t.bhs
  rw [decide_eq_false h.2.2, Bool.not_false] at heq
  have hclear : Command.handle s (withFlags t 0) (.reply .readCapacity16) = some (true, s') := by
    rw [hhandle, handle_eq, if_neg]
    · rw [← accepted_head, hhead, accepted_head, heq]
    · rw [hfinal, h.1, hvalid]
      decide
  have hsame := (hj _ (samePdu_withFlags hfree 0)).trans (hj _ (samePdu_withFlags hfree 1)).symm
  rw [hset, outcome_true hclear] at hsame
  cases hsame

open ReadCapacityHandler in
theorem judged_of_inData (h : InData t flagsOffset) : Judged (.reply .readCapacity16) s t := by
  intro t' hsame
  have hhandle : ∀ u : Token B, Command.handle s u (.reply .readCapacity16) =
      readCapacity16.handle s u.bhs := fun u => rfl
  have hhead : t'.bhs.head = t.bhs.head := congrArg Token.bhs hsame.head
  have hvalid : readCapacity16.valid (Parser.mk t'.bhs).getSCB =
      readCapacity16.valid (Parser.mk t.bhs).getSCB := by
    have hopcode : (Parser.mk t'.bhs).getSCB 0 = (Parser.mk t.bhs).getSCB 0 :=
      eq_of_head (f := fun b => (Parser.mk b).getSCB 0) (fun _ => rfl) hhead
    rw [valid_eq, valid_eq, hopcode, hsame.data _ h]
  have hfinal : readsFinal t'.bhs = readsFinal t.bhs := eq_of_head (f := readsFinal) (fun _ => rfl) hhead
  have hacc : accepted s t'.bhs = accepted s t.bhs := eq_of_head (accepted_head s) hhead
  have hdata : (Command.data s t' · · (.reply .readCapacity16)) =
      (Command.data s t · · (.reply .readCapacity16)) := by
    have hd : ∀ u : Token B, (Command.data s u.head · · (.reply .readCapacity16)) =
        (Command.data s u · · (.reply .readCapacity16)) := fun u => rfl
    rw [← hd t', ← hd t, hsame.head]
  rw [Command.outcome, Command.outcome, hhandle, hhandle, handle_eq, handle_eq, hfinal, hvalid, hacc]
  simp only [hdata]

/-- Every command is judged by its own bytes, except READ CAPACITY(16) when it is not
rejected anyway and the byte behind its command block that is taken for the flags is none
of its data segment. -/
theorem judged_iff (c : Command) (s : Session B ix) (t : Token B) : Judged c s t ↔
    c ≠ .reply .readCapacity16 ∨ InData t flagsOffset ∨ Settled s t.bhs := by
  by_cases hc : c = .reply .readCapacity16
  · subst hc
    refine ⟨fun hj => ?_, ?_⟩
    · by_contra hnot
      rw [not_or, not_or] at hnot
      exact not_judged_of_free hnot.2.1 hnot.2.2 hj
    · rintro (hne | hin | hset)
      · exact absurd rfl hne
      · exact judged_of_inData hin
      · intro t' hsame
        have hset' : Settled s t'.bhs := by
          have hhead : t'.bhs.head = t.bhs.head := congrArg Token.bhs hsame.head
          exact (eq_of_head (f := Settled s) (fun _ => rfl) hhead).mpr hset
        rw [outcome_settled hset, outcome_settled hset']
  · refine iff_of_true (fun t' hsame => ?_) (.inl hc)
    rw [← outcome_head hc s t', hsame.head, outcome_head hc]

section Sample

/-- READ CAPACITY(16) of LUN 0, without data and with nothing but zeros behind it. -/
def sampleCapacity16 : Token Unit where
  bhs
    | 0 => 0x01
    | 1 => 0xC0
    | 32 => 0x9e
    | _ => 0
  offset := 0
  cbufs := [()]

/-- What follows the command on the connection decides if it is rejected. -/
theorem not_judged_capacity16 :
    ¬ Judged (.reply .readCapacity16) (ReportLuns.sampleLuns 1) sampleCapacity16 := by
  apply not_judged_of_free
  · rintro ⟨-, hlt, -⟩
    exact absurd hlt (by decide)
  · rintro (hfinal | hopcode | ⟨-, hlun⟩)
    · exact absurd hfinal (by decide)
    · exact absurd hopcode (by decide)
    · have hzero : (Parser.mk sampleCapacity16.bhs).getLUN = 0 := by decide
      rw [hzero] at hlun
      cases hlun

end Sample

end CdbBytes

end Sstoraged
