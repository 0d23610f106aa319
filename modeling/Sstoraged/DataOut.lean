import Sstoraged.DataSegment
import Sstoraged.Session

namespace Sstoraged

structure DataOutHandler where
  mrds : Nat

namespace DataOutHandler

variable {B : Type} {ix : LbaIndex}

def valid (bhs : Header) : Bool := decide ((Parser.mk bhs).getOpCode = iscsiOpScsiData)

/-- Take the data off the record of the task, and answer the last PDU of a sequence. -/
def finish (h : DataOutHandler) (s : Session B ix) (bhs : Header) (dinfo : DataOutInfo) :
    Bool × Session B ix :=
  let req : Parser := ⟨bhs⟩
  let itt := req.getITT
  if dinfo.remain < req.getDlength then (false, s)
  else
    let remain := dinfo.remain - req.getDlength
    let s := s.setRecvinfo itt (some { dinfo with remain })
    if req.isFinal = false then (true, s)
    else if remain = 0 then (true, (s.pushGood itt).setRecvinfo itt none)
    else
      (true, (s.pushR2T itt req.getLUN dinfo.r2tsn (u32 (dinfo.total - remain))
        (min remain h.mrds)).setRecvinfo itt
          (some { dinfo with remain, r2tsn := advanceSn dinfo.r2tsn }))

def handle (h : DataOutHandler) (s : Session B ix) (t : Token B) : Bool × Session B ix :=
  let req : Parser := ⟨t.bhs⟩
  if valid t.bhs = false then (false, s)
  else
    match s.recvinfo req.getITT with
    | none => (false, s)
    | some dinfo =>
      match t.frontDataSegment (dinfo.lba + offset2Lba (u32 (dinfo.total - dinfo.remain)))
          (offset2Lba req.getDlength) with
      | none => h.finish s t.bhs dinfo
      | some ws =>
        if s.wcaches.length ≤ req.getLUN then (false, s)
        else h.finish (s.store req.getLUN ws) t.bhs dinfo

/-- Where the data of a Data-Out goes, by the record of its task. -/
def front (t : Token B) (dinfo : DataOutInfo) : Option (WriteSegment B) :=
  t.frontDataSegment (dinfo.lba + offset2Lba (u32 (dinfo.total - dinfo.remain)))
    (offset2Lba (Parser.mk t.bhs).getDlength)

theorem handle_cases (h : DataOutHandler) (s : Session B ix) (t : Token B) :
    h.handle s t = (false, s) ∨ ∃ dinfo, valid t.bhs = true ∧
      s.recvinfo (Parser.mk t.bhs).getITT = some dinfo ∧
      ((front t dinfo = none ∧ h.handle s t = h.finish s t.bhs dinfo) ∨
        ∃ ws, front t dinfo = some ws ∧ (Parser.mk t.bhs).getLUN < s.wcaches.length ∧
          h.handle s t = h.finish (s.store (Parser.mk t.bhs).getLUN ws) t.bhs dinfo) := by
  unfold handle
  dsimp only
  split
  · exact .inl rfl
  rename_i hvalid
  split
  · exact .inl rfl
  rename_i dinfo hinfo
  split
  · rename_i hfront
    exact .inr ⟨dinfo, by simpa using hvalid, hinfo, .inl ⟨hfront, rfl⟩⟩
  rename_i ws hfront
  split
  · exact .inl rfl
  · rename_i hlun
    exact .inr ⟨dinfo, by simpa using hvalid, hinfo, .inr ⟨ws, hfront, Nat.lt_of_not_le hlun, rfl⟩⟩

theorem finish_frame (h : DataOutHandler) (s : Session B ix) (bhs : Header) (dinfo : DataOutInfo) :
    (h.finish s bhs dinfo).2.pushed = s.pushed ∧ (h.finish s bhs dinfo).2.wcaches = s.wcaches ∧
      (h.finish s bhs dinfo).2.lvs = s.lvs ∧ ∀ itt, itt ≠ (Parser.mk bhs).getITT →
        (h.finish s bhs dinfo).2.recvinfo itt = s.recvinfo itt := by
  unfold finish
  dsimp only
  split
  · exact ⟨rfl, rfl, rfl, fun itt _ => rfl⟩
  split
  · exact ⟨rfl, rfl, rfl, fun itt hne => Function.update_of_ne hne _ _⟩
  split
  · refine ⟨rfl, rfl, rfl, fun itt hne => ?_⟩
    rw [Session.setRecvinfo_recvinfo, Function.update_of_ne hne, Session.pushGood_recvinfo,
      Session.setRecvinfo_recvinfo, Function.update_of_ne hne]
  · refine ⟨rfl, rfl, rfl, fun itt hne => ?_⟩
    rw [Session.setRecvinfo_recvinfo, Function.update_of_ne hne, Session.pushR2T_recvinfo,
      Session.setRecvinfo_recvinfo, Function.update_of_ne hne]

end DataOutHandler

end Sstoraged
