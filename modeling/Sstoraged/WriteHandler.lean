import Sstoraged.DataSegment
import Sstoraged.Session

namespace Sstoraged

structure WriteHandler where
  mrds : Nat
  firstBurstLength : Nat
  maxBurstLength : Nat
  immediateEnabled : Bool
  initialR2T : Bool

namespace WriteHandler

variable {B : Type} {ix : LbaIndex}

def write10 : UInt8 := 0x2A

/-- The checks on the flags and on the command block. -/
def valid (bhs : Header) : Bool :=
  let req : Parser := ⟨bhs⟩
  let cdb : Cdb10 := ⟨req.getSCB⟩
  decide (req.getFlags &&& commandFlagWrite ≠ 0) && decide (req.getFlags &&& commandFlagRead = 0) &&
    cdb.valid write10

/-- Record what is still to come, and ask for it unless it comes unsolicited. -/
def receive (h : WriteHandler) (s : Session B ix) (bhs : Header) (remain : Nat) : Session B ix :=
  let req : Parser := ⟨bhs⟩
  let cdb : Cdb10 := ⟨req.getSCB⟩
  let itt := req.getITT
  let total := lba2Offset cdb.getTransferLength
  if h.initialR2T ∨ h.firstBurstLength ≤ req.getDlength then
    (s.pushR2T itt req.getLUN 0 (u32 (total - remain)) (min remain h.mrds)).putRecvinfo itt
      ⟨cdb.getLBA, total, remain, advanceSn 0⟩
  else s.putRecvinfo itt ⟨cdb.getLBA, total, remain, 0⟩

/-- What is left to do when the immediate data is stored. -/
def finish (h : WriteHandler) (s : Session B ix) (bhs : Header) : Bool × Session B ix :=
  let req : Parser := ⟨bhs⟩
  let cdb : Cdb10 := ⟨req.getSCB⟩
  let remain := u32 (lba2Offset cdb.getTransferLength - req.getDlength)
  if remain = 0 then
    if req.isFinal = false then (false, s) else (true, s.pushGood req.getITT)
  else (true, h.receive s bhs remain)

def handle (h : WriteHandler) (s : Session B ix) (t : Token B) : Bool × Session B ix :=
  let req : Parser := ⟨t.bhs⟩
  let cdb : Cdb10 := ⟨req.getSCB⟩
  let transferLength := cdb.getTransferLength
  let lba := cdb.getLBA
  if valid t.bhs = false then (false, s)
  else if h.maxBurstLength < lba2Offset transferLength then (false, s)
  else
    match s.getLUN req.getLUN with
    | none => (false, s)
    | some lv =>
      if lv.getTotalSize ≤ lba ∨ transferLength = 0 ∨ lv.getTotalSize < lba + transferLength then
        (false, s)
      else if h.immediateEnabled then
        match t.frontDataSegment lba (offset2Lba req.getDlength) with
        | none => (false, s)
        | some ws =>
          if s.wcaches.length ≤ req.getLUN then (false, s)
          else h.finish (s.store req.getLUN ws) t.bhs
      else (true, h.receive s t.bhs (lba2Offset transferLength))

/-- The command is a WRITE(10) of some blocks of a volume. -/
structure Checked (h : WriteHandler) (s : Session B ix) (bhs : Header) (lv : LogicalVolume) : Prop where
  valid : valid bhs = true
  burst : lba2Offset (Cdb10.mk (Parser.mk bhs).getSCB).getTransferLength ≤ h.maxBurstLength
  lun : s.getLUN (Parser.mk bhs).getLUN = some lv
  positive : 0 < (Cdb10.mk (Parser.mk bhs).getSCB).getTransferLength
  inside : (Cdb10.mk (Parser.mk bhs).getSCB).getLBA +
    (Cdb10.mk (Parser.mk bhs).getSCB).getTransferLength ≤ lv.getTotalSize

theorem handle_cases (h : WriteHandler) (s : Session B ix) (t : Token B) :
    h.handle s t = (false, s) ∨ ∃ lv, Checked h s t.bhs lv ∧
      ((h.immediateEnabled = false ∧ h.handle s t = (true, h.receive s t.bhs
          (lba2Offset (Cdb10.mk (Parser.mk t.bhs).getSCB).getTransferLength))) ∨
        h.immediateEnabled = true ∧ ∃ ws, t.frontDataSegment
            (Cdb10.mk (Parser.mk t.bhs).getSCB).getLBA (offset2Lba (Parser.mk t.bhs).getDlength) =
              some ws ∧
          (Parser.mk t.bhs).getLUN < s.wcaches.length ∧
          h.handle s t = h.finish (s.store (Parser.mk t.bhs).getLUN ws) t.bhs) := by
  unfold handle
  dsimp only
  split
  · exact .inl rfl
  rename_i hvalid
  split
  · exact .inl rfl
  rename_i hburst
  split
  · exact .inl rfl
  rename_i lv hlun
  split
  · exact .inl rfl
  rename_i hrange
  have hchecked : Checked h s t.bhs lv :=
    ⟨by simpa using hvalid, Nat.le_of_not_lt hburst, hlun, by omega, by omega⟩
  split
  · rename_i himm
    split
    · exact .inl rfl
    rename_i ws hfront
    split
    · exact .inl rfl
    · rename_i hcaches
      exact .inr ⟨lv, hchecked, .inr ⟨himm, ws, hfront, Nat.lt_of_not_le hcaches, rfl⟩⟩
  · rename_i himm
    exact .inr ⟨lv, hchecked, .inl ⟨by simpa using himm, rfl⟩⟩

theorem receive_frame (h : WriteHandler) (s : Session B ix) (bhs : Header) (remain : Nat) :
    (h.receive s bhs remain).pushed = s.pushed ∧ (h.receive s bhs remain).wcaches = s.wcaches ∧
      (h.receive s bhs remain).lvs = s.lvs ∧ ∀ itt, itt ≠ (Parser.mk bhs).getITT →
        (h.receive s bhs remain).recvinfo itt = s.recvinfo itt := by
  simp only [receive, Session.putRecvinfo]
  split
  · split
    · exact ⟨rfl, rfl, rfl, fun itt _ => rfl⟩
    · exact ⟨rfl, rfl, rfl, fun itt hne => Function.update_of_ne hne _ _⟩
  · split
    · exact ⟨rfl, rfl, rfl, fun itt _ => rfl⟩
    · exact ⟨rfl, rfl, rfl, fun itt hne => Function.update_of_ne hne _ _⟩

theorem finish_frame (h : WriteHandler) (s : Session B ix) (bhs : Header) :
    (h.finish s bhs).2.pushed = s.pushed ∧ (h.finish s bhs).2.wcaches = s.wcaches ∧
      (h.finish s bhs).2.lvs = s.lvs ∧ ∀ itt, itt ≠ (Parser.mk bhs).getITT →
        (h.finish s bhs).2.recvinfo itt = s.recvinfo itt := by
  unfold finish
  dsimp only
  split
  · split
    · exact ⟨rfl, rfl, rfl, fun itt _ => rfl⟩
    · exact ⟨rfl, rfl, rfl, fun itt _ => rfl⟩
  · exact h.receive_frame s bhs _

end WriteHandler

end Sstoraged
