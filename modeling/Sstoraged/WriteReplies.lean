import Sstoraged.DataOut
import Sstoraged.ScsiHandlers
import Sstoraged.WriteHandler

namespace Sstoraged.WriteReplies

variable {B : Type} {ix : LbaIndex}

/-- What a handler of writes queues: nothing, an R2T, or a SCSI Response, which takes the
next status sequence number. -/
inductive Queued (s s' : Session B ix) : Prop
  | nothing (sendtask : s'.sendtask = s.sendtask) (statsn : s'.statsn = s.statsn)
  | asked (p : Nat) (h : R2THeader) (sendtask : s'.sendtask = s.sendtask ++ [.send ⟨[p], sizeofHeader⟩])
      (header : s'.headers p = .r2t h) (dlength : h.dlength = 0) (statsn : s'.statsn = s.statsn)
  | answered (p : Nat) (h : SCSIRspHeader)
      (sendtask : s'.sendtask = s.sendtask ++ [.send ⟨[p], sizeofHeader⟩])
      (header : s'.headers p = .scsiRsp h) (dlength : h.dlength = 0)
      (header_statsn : h.statsn = s.statsn) (statsn : s'.statsn = advanceSn s.statsn)

variable {s s₁ s' s'' : Session B ix}

theorem Queued.congr (h : Queued s s') (hsend : s''.sendtask = s'.sendtask)
    (hhead : s''.headers = s'.headers) (hsn : s''.statsn = s'.statsn) : Queued s s'' := by
  cases h with
  | nothing sendtask statsn => exact .nothing (hsend.trans sendtask) (hsn.trans statsn)
  | asked p h sendtask header dlength statsn =>
    exact .asked p h (hsend.trans sendtask) ((congrFun hhead p).trans header) dlength
      (hsn.trans statsn)
  | answered p h sendtask header dlength header_statsn statsn =>
    exact .answered p h (hsend.trans sendtask) ((congrFun hhead p).trans header) dlength
      header_statsn (hsn.trans statsn)

theorem pushSend_header {p : Nat} (hsend : s₁.sendtask = s.sendtask)
    (hbuf : s₁.bufs p = CommonBuf.new.stepForwardTail sizeofHeader) :
    (s₁.pushSend p).sendtask = s.sendtask ++ [.send ⟨[p], sizeofHeader⟩] := by
  rw [Session.pushSend, Session.push_sendtask, SendTask.new, hbuf, hsend]
  rfl

theorem queued_rsp (h : SCSIRspHeader) (hd : h.dlength = 0) (hs : h.statsn = s.statsn)
    (hsend : s₁.sendtask = s.sendtask) (hsn : s₁.statsn = s.statsn) :
    Queued s (((s₁.alloc (CommonBuf.new.stepForwardTail sizeofHeader)
      (.scsiRsp h)).advanceSTATSN).pushSend
      s₁.next) :=
  .answered s₁.next h (pushSend_header hsend (Function.update_self _ _ _))
    (Function.update_self _ _ _) hd hs (congrArg advanceSn hsn)

theorem queued_good (itt : Nat) (hsend : s₁.sendtask = s.sendtask) (hsn : s₁.statsn = s.statsn) :
    Queued s (s₁.pushGood itt) := queued_rsp _ rfl hsn hsend hsn

theorem queued_r2t (itt lun r2tsn offset length : Nat) (hsend : s₁.sendtask = s.sendtask)
    (hsn : s₁.statsn = s.statsn) : Queued s (s₁.pushR2T itt lun r2tsn offset length) :=
  .asked s₁.next _ (pushSend_header hsend (Function.update_self _ _ _))
    (Function.update_self _ _ _) rfl hsn

theorem Queued.putRecvinfo (h : Queued s s') (itt : Nat) (info : DataOutInfo) :
    Queued s (s'.putRecvinfo itt info) := by
  unfold Session.putRecvinfo
  split
  · exact h
  · exact h.congr rfl rfl rfl

theorem receive_queued (w : WriteHandler) (bhs : Header) (remain : Nat)
    (hsend : s₁.sendtask = s.sendtask) (hsn : s₁.statsn = s.statsn) :
    Queued s (w.receive s₁ bhs remain) := by
  rw [WriteHandler.receive]
  split
  · exact (queued_r2t _ _ _ _ _ hsend hsn).putRecvinfo _ _
  · exact (Queued.nothing hsend hsn).putRecvinfo _ _

theorem finish_write_queued (w : WriteHandler) {bhs : Header} (hsend : s₁.sendtask = s.sendtask)
    (hsn : s₁.statsn = s.statsn) (h : w.finish s₁ bhs = (true, s')) : Queued s s' := by
  unfold WriteHandler.finish at h
  dsimp only at h
  generalize u32 _ = remain at h
  split at h
  · split at h
    · cases h
    · obtain rfl := (Prod.mk.inj h).2
      exact queued_good _ hsend hsn
  · obtain rfl := (Prod.mk.inj h).2
    exact receive_queued w bhs _ hsend hsn

theorem write_queued (w : WriteHandler) {t : Token B} (h : w.handle s t = (true, s')) : Queued s s' := by
  obtain hfalse | ⟨lv, -, ⟨-, heq⟩ | ⟨-, ws, -, -, heq⟩⟩ := w.handle_cases s t
  · cases h.symm.trans hfalse
  · obtain rfl := (Prod.mk.inj (h.symm.trans heq)).2
    exact receive_queued w t.bhs _ rfl rfl
  · exact finish_write_queued w (Session.store_sendtask s _ ws) (Session.store_statsn s _ ws)
      (heq.symm.trans h)

theorem finish_queued (d : DataOutHandler) {bhs : Header} {dinfo : DataOutInfo}
    (hsend : s₁.sendtask = s.sendtask) (hsn : s₁.statsn = s.statsn)
    (h : d.finish s₁ bhs dinfo = (true, s')) : Queued s s' := by
  rw [DataOutHandler.finish] at h
  dsimp only at h
  split at h
  · cases h
  split at h
  · obtain rfl := (Prod.mk.inj h).2
    exact .nothing hsend hsn
  split at h
  · obtain rfl := (Prod.mk.inj h).2
    exact (@queued_good _ _ s (s₁.setRecvinfo _ _) _ hsend hsn).congr rfl rfl rfl
  · obtain rfl := (Prod.mk.inj h).2
    exact (@queued_r2t _ _ s (s₁.setRecvinfo _ _) _ _ _ _ _ hsend hsn).congr rfl rfl rfl

theorem dataOut_queued (d : DataOutHandler) {t : Token B} (h : d.handle s t = (true, s')) :
    Queued s s' := by
  obtain hfalse | ⟨dinfo, -, -, ⟨-, heq⟩ | ⟨ws, -, -, heq⟩⟩ := d.handle_cases s t
  · cases h.symm.trans hfalse
  · exact finish_queued d rfl rfl (heq.symm.trans h)
  · exact finish_queued d (Session.store_sendtask s _ ws) (Session.store_statsn s _ ws)
      (heq.symm.trans h)

theorem dummy_queued {bhs : Header} (h : DummyHandler.handle s bhs = (true, s')) : Queued s s' := by
  unfold DummyHandler.handle at h
  dsimp only at h
  generalize (Parser.mk bhs).getEXPDATALEN = exp at h
  split at h
  · cases h
  · obtain rfl := (Prod.mk.inj h).2
    exact queued_rsp _ rfl rfl rfl rfl

end Sstoraged.WriteReplies
