import Sstoraged.PairGenerator
import Sstoraged.ReplyFraming
import Sstoraged.WriteReplies
import Sstoraged.WriteTransfer

namespace Sstoraged.OutgoingFraming

open ReadFormat ReplyFraming WriteReplies

variable {B : Type} {ix : LbaIndex}

/-- The requests that are answered with a Data-In PDU of one buffer or a SCSI Response. -/
inductive Command
  | inquiry
  | readCapacity
  | readCapacity16
  | modeSense
  | reportLuns
  | maintenanceIn
  | dummy
  | write (w : WriteHandler)
  | dataOut (d : DataOutHandler)

def Command.handle (s : Session B ix) (t : Token B) : Command → Option (Bool × Session B ix)
  | .inquiry => InquiryHandler.handle s t.bhs
  | .readCapacity => ReadCapacityHandler.readCapacity.handle s t.bhs
  | .readCapacity16 => ReadCapacityHandler.readCapacity16.handle s t.bhs
  | .modeSense => ModeSenseHandler.handle s t.bhs
  | .reportLuns => ReportLUNSHandler.handle s t.bhs
  | .maintenanceIn => MaintenanceInHandler.handle s t.bhs
  | .dummy => some (DummyHandler.handle s t.bhs)
  | .write w => some (w.handle s t)
  | .dataOut d => some (d.handle s t)

/-- The data of the commands whose replies are cut to the expected length. -/
def Command.dataSize (bhs : Header) : Command → Option Nat
  | .inquiry => InquiryHandler.dataSize (Parser.mk bhs).getSCB
  | .readCapacity => some (capacitySize .readCapacity (Parser.mk bhs).getSCB)
  | .readCapacity16 => some (capacitySize .readCapacity16 (Parser.mk bhs).getSCB)
  | .modeSense => (ModeSenseHandler.getLength (Parser.mk bhs).getSCB).map fun length =>
      min length (ModeSenseHandler.getAllocationLength (Parser.mk bhs).getSCB)
  | .maintenanceIn => some MaintenanceInHandler.senseErrorSize
  | .reportLuns | .dummy | .write _ | .dataOut _ => none

/-- The bytes of each reply that a call hands to the sender are its header and the padded
data segment that the header announces. -/
def Framed (s s' : Session B ix) : Prop :=
  ∀ t ∈ s'.sendtask.drop s.sendtask.length, ∃ p bytes, t = .send ⟨[p], bytes⟩ ∧
    bytes = sizeofHeader + wordPad (s'.headers p).dlength

/-- The condition: the initiator expects all the data that there is. -/
def Fits (bhs : Header) (c : Command) : Prop :=
  ∀ size ∈ c.dataSize bhs, size ≤ (Parser.mk bhs).getEXPDATALEN

variable {s s' : Session B ix}

theorem framed_of_nil (h : s'.sendtask = s.sendtask) : Framed s s' := by
  intro t ht
  rw [h, List.drop_length] at ht
  exact absurd ht List.not_mem_nil

theorem framed_send_iff {p bytes : Nat} (h : s'.sendtask = s.sendtask ++ [.send ⟨[p], bytes⟩]) :
    Framed s s' ↔ bytes = sizeofHeader + wordPad (s'.headers p).dlength := by
  rw [Framed, h, List.drop_left]
  refine ⟨fun hf => ?_, fun hf t ht => ⟨p, bytes, List.mem_singleton.1 ht, hf⟩⟩
  obtain ⟨q, n, heq, hn⟩ := hf _ List.mem_cons_self
  rw [Task.send.injEq, SendTask.mk.injEq, List.cons.injEq] at heq
  rw [heq.2, heq.1.1, hn]

theorem framed_of_queued (h : Queued s s') : Framed s s' := by
  cases h with
  | nothing sendtask statsn => exact framed_of_nil sendtask
  | asked p h sendtask header dlength statsn =>
    rw [framed_send_iff sendtask, header, ReplyHeader.dlength, dlength]
    rfl
  | answered p h sendtask header dlength header_statsn statsn =>
    rw [framed_send_iff sendtask, header, ReplyHeader.dlength, dlength]
    rfl

theorem framed_replied_iff {bhs : Header} {size : Nat} {hd : DataInHeader}
    (h : Replied s bhs s' size hd) : Framed s s' ↔ size ≤ (Parser.mk bhs).getEXPDATALEN := by
  obtain ⟨p, hsend, hhead⟩ := h.sendtask
  rw [framed_send_iff hsend, hhead, ReplyHeader.dlength, wordPad_eq, h.dlength, Nat.add_assoc]
  have hmin := Nat.min_le_left size (Parser.mk bhs).getEXPDATALEN
  refine ⟨fun heq => ?_, fun hle => by rw [Nat.min_eq_left hle]⟩
  have hsize : size = min size (Parser.mk bhs).getEXPDATALEN := by omega
  rw [hsize]
  exact Nat.min_le_right _ _

theorem command_framed_iff (c : Command) {t : Token B} (h : c.handle s t = some (true, s')) :
    Framed s s' ↔ Fits t.bhs c := by
  have hsome : ∀ {n : Nat} {r : Option Nat}, r = some n →
      ((∀ size ∈ r, size ≤ (Parser.mk t.bhs).getEXPDATALEN) ↔ n ≤ (Parser.mk t.bhs).getEXPDATALEN) := by
    rintro n r rfl
    simp
  have hnone : ∀ size ∈ (none : Option Nat), size ≤ (Parser.mk t.bhs).getEXPDATALEN := by simp
  cases c with
  | inquiry =>
    obtain ⟨size, hd, hsize, hreplied⟩ := inquiry_replied h
    exact (framed_replied_iff hreplied).trans (hsome hsize).symm
  | readCapacity =>
    obtain ⟨hd, hreplied⟩ := readCapacity_replied (by decide) (by decide) h
    exact (framed_replied_iff hreplied).trans (hsome rfl).symm
  | readCapacity16 =>
    obtain ⟨hd, hreplied⟩ := readCapacity_replied (by decide) (by decide) h
    exact (framed_replied_iff hreplied).trans (hsome rfl).symm
  | modeSense =>
    obtain ⟨length, hd, hlength, -, hreplied⟩ := modeSense_replied h
    refine (framed_replied_iff hreplied).trans (hsome ?_).symm
    rw [Command.dataSize, hlength, Option.map_some]
  | maintenanceIn =>
    obtain ⟨hd, hreplied⟩ := maintenanceIn_replied h
    exact (framed_replied_iff hreplied).trans (hsome rfl).symm
  | reportLuns =>
    obtain ⟨hd, -, -, -, hhanded⟩ := reportLuns_handed h
    obtain ⟨p, hsend, hhead⟩ := hhanded.sendtask
    refine iff_of_true ?_ hnone
    rw [framed_send_iff hsend, hhead, ReplyHeader.dlength]
  | dummy => exact iff_of_true (framed_of_queued (dummy_queued (Option.some.inj h))) hnone
  | write w => exact iff_of_true (framed_of_queued (write_queued w (Option.some.inj h))) hnone
  | dataOut d => exact iff_of_true (framed_of_queued (dataOut_queued d (Option.some.inj h))) hnone

/-- Login and Text Responses are framed as long as the pairs fit into the buffer, and not if
the header could hold the length of more. -/
theorem pairs_framed (pairs : List (String × String)) :
    (sizeofHeader + PairGenerator.pairsLength pairs ≤ commonBufSize →
      PairGenerator.Framed (PairGenerator.reply pairs)) ∧
    (commonBufSize < sizeofHeader + PairGenerator.pairsLength pairs →
      PairGenerator.pairsLength pairs < 2 ^ 24 → ¬ PairGenerator.Framed
        (PairGenerator.reply pairs)) := by
  refine ⟨fun hle => ?_, fun hlt h24 => ?_⟩
  · have hsize : commonBufSize = 131072 := rfl
    have h24 : PairGenerator.pairsLength pairs < 2 ^ 24 := by
      rw [hsize, sizeofHeader] at hle
      omega
    exact (PairGenerator.framed_reply_iff h24).2 hle
  · rw [PairGenerator.framed_reply_iff h24]
    exact Nat.not_le_of_lt hlt

/-- The replies to commands, and those with pairs. -/
theorem answer_framed_iff :
    (∀ (c : Command) (t : Token B) (s s' : Session B ix), c.handle s t = some (true, s') →
      (Framed s s' ↔ Fits t.bhs c)) ∧
    ∀ pairs,
      (sizeofHeader + PairGenerator.pairsLength pairs ≤ commonBufSize →
        PairGenerator.Framed (PairGenerator.reply pairs)) ∧
      (commonBufSize < sizeofHeader + PairGenerator.pairsLength pairs →
        PairGenerator.pairsLength pairs < 2 ^ 24 → ¬ PairGenerator.Framed (PairGenerator.reply pairs)) :=
  ⟨fun c _ _ _ h => command_framed_iff c h, pairs_framed⟩

section Sample

/-- An INQUIRY for the standard data with the given expected length. -/
def sampleInquiry (exp : UInt8) : Token Unit where
  bhs
    | 0 => 0x01
    | 1 => 0xC0
    | 23 => exp
    | 32 => 0x12
    | 36 => 36
    | _ => 0
  offset := 0
  cbufs := []

def inquiryReply (exp : UInt8) : Option (Bool × Session Unit LbaIndex.ofList) :=
  Command.inquiry.handle WriteTransfer.sampleSession (sampleInquiry exp)

theorem inquiryReply_eq {exp : UInt8} (h : (inquiryReply exp).map Prod.fst = some true) :
    ∃ s, inquiryReply exp = some (true, s) := by
  obtain ⟨⟨b, s⟩, hs, rfl⟩ := Option.map_eq_some_iff.1 h
  exact ⟨s, hs⟩

theorem framed_inquiry : ∃ s, inquiryReply 36 = some (true, s) ∧
    Framed WriteTransfer.sampleSession s ∧ PairGenerator.Framed
      (PairGenerator.reply [("AuthMethod", "None")]) := by
  obtain ⟨s, hs⟩ := @inquiryReply_eq 36 (by decide +kernel)
  obtain ⟨hcommands, hpairs⟩ := @answer_framed_iff Unit LbaIndex.ofList
  refine ⟨s, hs, (hcommands .inquiry (sampleInquiry 36) _ s hs).2 ?_, (hpairs _).1 (by decide +kernel)⟩
  intro size hsize
  obtain rfl : 36 = size := Option.some.inj hsize
  decide

/-- The initiator expects less than the standard data: all of it is sent, behind a header
that announces less. -/
theorem not_framed_short_inquiry : ∃ s, inquiryReply 16 = some (true, s) ∧
    ¬ Framed WriteTransfer.sampleSession s := by
  obtain ⟨s, hs⟩ := @inquiryReply_eq 16 (by decide +kernel)
  refine ⟨s, hs, fun hframed => ?_⟩
  have hfits := (command_framed_iff .inquiry (t := sampleInquiry 16) hs).1 hframed 36 rfl
  exact absurd hfits (by decide)

end Sample

end Sstoraged.OutgoingFraming
