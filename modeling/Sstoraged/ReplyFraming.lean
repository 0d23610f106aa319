import Sstoraged.ReadFormat
import Sstoraged.ScsiHandlers

namespace Sstoraged.ReplyFraming

open ReadReply ReadFormat

variable {B : Type} {ix : LbaIndex}

/-- The generator of a reply that is not queued yet, with its header and the number of
bytes in its buffer. -/
structure Open (s₀ : Session B ix) (g : DataInGenerator) (s : Session B ix) (hd : DataInHeader)
    (tail : Nat) : Prop where
  header : s.headers g.cbuf = .dataIn hd
  buf : s.bufs g.cbuf = ⟨0, tail⟩
  sendtask : s.sendtask = s₀.sendtask
  statsn : s.statsn = advanceSn s₀.statsn
  lvs : s.lvs = s₀.lvs

variable {s₀ s : Session B ix} {g : DataInGenerator} {hd : DataInHeader} {tail : Nat}

theorem Open.set (h : Open s₀ g s hd tail) (f : DataInHeader → DataInHeader) :
    Open s₀ g (g.set f s) (f hd) tail := by
  rw [set_dataIn g h.header]
  exact ⟨putHeader_self _ _ _, h.buf, h.sendtask, h.statsn, h.lvs⟩

theorem Open.setDlength (h : Open s₀ g s hd tail) (length : Nat) :
    Open s₀ g (g.setDlength length s) { hd with dlength := length % 2 ^ 24 } tail := h.set _

theorem Open.getDlength (h : Open s₀ g s hd tail) : g.getDlength s = hd.dlength := by
  simp only [DataInGenerator.getDlength, h.header]

theorem Open.setBuf (h : Open s₀ g s hd tail) {b : CommonBuf} {tail' : Nat} (hb : b = ⟨0, tail'⟩) :
    Open s₀ g { s with bufs := Function.update s.bufs g.cbuf b } hd tail' :=
  ⟨h.header, (Function.update_self _ _ _).trans hb, h.sendtask, h.statsn, h.lvs⟩

/-- The header that the handlers fill in before they look at their command block. -/
def statusHeader (s : Session B ix) (bhs : Header) (code : UInt8) : DataInHeader :=
  { flags := 0 ||| (iscsiFlagFinal ||| DataInGenerator.datainFlagStatus), cmdStatus := code
    itt := (Parser.mk bhs).getITT, ttt := iscsiRsvdTaskTag, statsn := s.statsn
    expcmdsn := s.expcmdsn, maxcmdsn := s.maxcmdsn }

theorem statusHeader_flags (s : Session B ix) (bhs : Header) (code : UInt8) :
    (statusHeader s bhs code).flags = finalFlags := by
  rw [statusHeader]
  exact (show 0 ||| finalFlags = finalFlags by decide)

theorem newDataIn_open (s : Session B ix) (bhs : Header) (code : UInt8) :
    Open s (newDataIn bhs code s).1 (newDataIn bhs code s).2 (statusHeader s bhs code) sizeofHeader := by
  have hnew : (DataInGenerator.new s).2.headers (DataInGenerator.new s).1.cbuf = .dataIn {} :=
    Function.update_self _ _ _
  have hbuf : (DataInGenerator.new s).2.bufs (DataInGenerator.new s).1.cbuf = ⟨0, sizeofHeader⟩ :=
    (Function.update_self _ _ _).trans (by decide)
  rw [newDataIn]
  dsimp only
  rw [DataInGenerator.setCmdStatus, set_dataIn _ hnew]
  have hadv : (putHeader (DataInGenerator.new s).2 (DataInGenerator.new s).1.cbuf
      { flags := 0 ||| (iscsiFlagFinal ||| DataInGenerator.datainFlagStatus),
        cmdStatus := code }).advanceSTATSN.headers (DataInGenerator.new s).1.cbuf =
      .dataIn { flags := 0 ||| (iscsiFlagFinal ||| DataInGenerator.datainFlagStatus),
                cmdStatus := code } := putHeader_self _ _ _
  rw [set_dataIn _ hadv]
  exact ⟨putHeader_self _ _ _, hbuf, rfl, rfl, rfl⟩

theorem Open.reserve (h : Open s₀ g s hd tail) {size : Nat} (hpos : size ≠ 0)
    (hle : tail + size ≤ commonBufSize) :
    ∃ s', g.reserveDataSegment size s = some s' ∧
      Open s₀ g s' { hd with dlength := size % 2 ^ 24 } (tail + size) := by
  have hcap : ¬ (s.bufs g.cbuf).getCapacity < size := by
    rw [h.buf, CommonBuf.getCapacity, CommonBuf.getSize]
    dsimp only
    omega
  have hset := h.setDlength size
  refine ⟨_, ?_, hset.setBuf (b := ((g.setDlength size s).bufs g.cbuf).stepForwardTail size) ?_⟩
  · rw [DataInGenerator.reserveDataSegment, if_neg hpos, if_neg hcap]
  · rw [hset.buf, CommonBuf.stepForwardTail, CommonBuf.getSize, if_neg (Nat.not_lt.2 hle)]

theorem Open.reserve_none (h : Open s₀ g s hd tail) {size : Nat}
    (hsize : size = 0 ∨ commonBufSize < tail + size) (htail : tail ≤ commonBufSize) :
    g.reserveDataSegment size s = none := by
  by_cases hpos : size = 0
  · rw [DataInGenerator.reserveDataSegment, if_pos hpos]
  · have hcap : (s.bufs g.cbuf).getCapacity < size := by
      rw [h.buf, CommonBuf.getCapacity, CommonBuf.getSize]
      dsimp only
      omega
    rw [DataInGenerator.reserveDataSegment, if_neg hpos, if_pos hcap]

theorem Open.resetDlength (h : Open s₀ g s hd tail) {size : Nat} (hpos : size ≠ 0)
    (hcap : tail + size ≤ commonBufSize) (hle : size ≤ hd.dlength) (htail : hd.dlength ≤ tail) :
    ∃ s', g.resetDlength size s = (true, s') ∧
      Open s₀ g s' { hd with dlength := size % 2 ^ 24 } (tail - (hd.dlength - size)) := by
  have hcap' : ¬ (s.bufs g.cbuf).getCapacity < size := by
    rw [h.buf, CommonBuf.getCapacity, CommonBuf.getSize]
    dsimp only
    omega
  have hset := h.setDlength size
  have hback : ((g.setDlength size s).bufs g.cbuf).stepBackwardTail (hd.dlength - size) =
      some ⟨0, tail - (hd.dlength - size)⟩ := by
    rw [hset.buf, CommonBuf.stepBackwardTail, if_neg]
    rw [CommonBuf.getRemain]
    dsimp only
    omega
  refine ⟨_, ?_, hset.setBuf rfl⟩
  rw [DataInGenerator.resetDlength, if_neg hpos, if_neg hcap', h.getDlength, if_neg (Nat.not_lt.2 hle)]
  dsimp only
  rw [hback]

/-- What a call hands to the sender: the bytes of one buffer, behind the given header. -/
structure Handed (s₀ s : Session B ix) (hd : DataInHeader) (bytes : Nat) : Prop where
  sendtask : ∃ p, s.sendtask = s₀.sendtask ++ [.send ⟨[p], bytes⟩] ∧ s.headers p = .dataIn hd
  statsn : s.statsn = advanceSn s₀.statsn

theorem Open.pushed (h : Open s₀ g s hd tail) : Handed s₀ (s.pushSend g.cbuf) hd tail := by
  refine ⟨⟨g.cbuf, ?_, h.header⟩, h.statsn⟩
  rw [Session.pushSend, Session.push_sendtask, h.sendtask, SendTask.new, h.buf]
  rfl

theorem wordPad_eq (n : Nat) : wordPad n = n + padding n := by
  rw [wordPad, padding, padWordLen]
  split <;> omega

theorem Open.send (h : Open s₀ g s hd tail) (hpad : tail + padding hd.dlength ≤ commonBufSize) :
    Handed s₀ (g.send s) hd (tail + padding hd.dlength) := by
  rw [DataInGenerator.send, DataInGenerator.serialize, h.getDlength]
  rw [padding] at hpad ⊢
  split
  · rename_i hmod
    rw [if_pos hmod] at hpad
    have hstep : (s.bufs g.cbuf).stepForwardTail (padWordLen - hd.dlength % padWordLen) =
        ⟨0, tail + (padWordLen - hd.dlength % padWordLen)⟩ := by
      rw [h.buf, CommonBuf.stepForwardTail, CommonBuf.getSize, if_neg (Nat.not_lt.2 hpad)]
    exact (h.setBuf hstep).pushed
  · exact h.pushed

/-- The header with the residual count for `exp` bytes expected. -/
def residual (exp : Nat) (hd : DataInHeader) : DataInHeader :=
  if hd.dlength < exp then
    { hd with flags := hd.flags ||| DataInGenerator.datainFlagUnderflow,
              residualCount := exp - hd.dlength }
  else if exp < hd.dlength then
    { hd with
      flags := hd.flags ||| DataInGenerator.datainFlagOverflow
      dlength := exp % 2 ^ 24, residualCount := hd.dlength - exp }
  else hd

theorem Open.setResidualCount (h : Open s₀ g s hd tail) (exp : Nat) :
    Open s₀ g (g.setResidualCount exp (g.getDlength s) s) (residual exp hd) tail := by
  rw [h.getDlength, DataInGenerator.setResidualCount, residual]
  split
  · exact h.set _
  · split
    · exact (h.set _).setDlength exp
    · exact h

theorem residual_dlength (h : hd.dlength < 2 ^ 24) (exp : Nat) :
    (residual exp hd).dlength = min hd.dlength exp := by
  rw [residual]
  split
  · dsimp only
    omega
  · split
    · dsimp only
      omega
    · omega

theorem residual_statsn (exp : Nat) : (residual exp hd).statsn = hd.statsn := by
  rw [residual]
  split
  · rfl
  · split <;> rfl

def hasStatus (hd : DataInHeader) : Bool := decide (hd.flags &&& DataInGenerator.datainFlagStatus ≠ 0)

theorem residual_hasStatus (h : hd.flags = finalFlags) (exp : Nat) :
    hasStatus (residual exp hd) = true := by
  rw [residual, hasStatus, decide_eq_true_eq]
  split
  · dsimp only
    rw [h]
    decide
  · split
    · dsimp only
      rw [h]
      decide
    · rw [h]
      decide

theorem Open.sendResidual (h : Open s₀ g s hd tail) (bhs : Header) (hle : tail + 4 ≤ commonBufSize) :
    Handed s₀ (g.sendResidual bhs s) (residual (Parser.mk bhs).getEXPDATALEN hd)
      (tail + padding (residual (Parser.mk bhs).getEXPDATALEN hd).dlength) := by
  refine (h.setResidualCount _).send ?_
  have : padding (residual (Parser.mk bhs).getEXPDATALEN hd).dlength ≤ 4 := by
    rw [padding, padWordLen]
    split <;> omega
  omega

/-- The reply to a request with `size` bytes of data: one buffer with all of them, and a
header that says no more than the request expects. -/
structure Replied (s : Session B ix) (bhs : Header) (s' : Session B ix) (size : Nat)
    (hd : DataInHeader) :
    Prop extends Handed s s' hd (sizeofHeader + size + padding hd.dlength) where
  dlength : hd.dlength = min size (Parser.mk bhs).getEXPDATALEN
  status : hasStatus hd = true
  header_statsn : hd.statsn = s.statsn

theorem Open.replied {size : Nat} {bhs : Header} (h : Open s₀ g s hd (sizeofHeader + size))
    (hsize : hd.dlength = size) (hlt : size < 2 ^ 8) (hflags : hd.flags = finalFlags)
    (hsn : hd.statsn = s₀.statsn) :
    ∃ hd', Replied s₀ bhs (g.sendResidual bhs s) size hd' := by
  have hle : sizeofHeader + size + 4 ≤ commonBufSize := by
    have hcap : 312 ≤ commonBufSize := by decide
    rw [sizeofHeader]
    omega
  refine ⟨_, h.sendResidual bhs hle, ?_, residual_hasStatus hflags _, ?_⟩
  · rw [residual_dlength (by omega), hsize]
  · rw [residual_statsn, hsn]

theorem Open.reserve_replied {size : Nat} (bhs : Header) (h : Open s₀ g s hd sizeofHeader)
    (hflags : hd.flags = finalFlags) (hsn : hd.statsn = s₀.statsn) (hpos : size ≠ 0)
    (hlt : size < 2 ^ 8) :
    ∃ s' hd', g.reserveDataSegment size s = some s' ∧
      Replied s₀ bhs (g.sendResidual bhs s') size hd' := by
  have hcap : sizeofHeader + size ≤ commonBufSize := by
    have hcap : 312 ≤ commonBufSize := by decide
    rw [sizeofHeader]
    omega
  obtain ⟨s', heq, hopen⟩ := h.reserve hpos hcap
  obtain ⟨hd', hreplied⟩ := hopen.replied (Nat.mod_eq_of_lt (by omega)) hlt hflags hsn
  exact ⟨s', hd', heq, hreplied⟩

theorem newDataIn_replied (s : Session B ix) (bhs : Header) (code : UInt8) {size : Nat}
    (hpos : size ≠ 0) (hlt : size < 2 ^ 8) :
    ∃ s' hd, (newDataIn bhs code s).1.reserveDataSegment size (newDataIn bhs code s).2 = some s' ∧
      Replied s bhs ((newDataIn bhs code s).1.sendResidual bhs s') size hd :=
  (newDataIn_open s bhs code).reserve_replied bhs (statusHeader_flags s bhs code) rfl hpos hlt

section Handlers

variable {s s' : Session B ix} {bhs : Header}

theorem inquiry_replied (h : InquiryHandler.handle s bhs = some (true, s')) :
    ∃ size hd, InquiryHandler.dataSize (Parser.mk bhs).getSCB = some size ∧
      Replied s bhs s' size hd := by
  unfold InquiryHandler.handle at h
  dsimp only at h
  split at h
  · cases h
  split at h
  · cases h
  rename_i size hsize
  split at h
  · cases h
  have hbound : size ≠ 0 ∧ size < 2 ^ 8 := by
    revert hsize
    unfold InquiryHandler.dataSize
    repeat' split
    all_goals simp
    all_goals omega
  obtain ⟨s₁, hd, heq, hreplied⟩ := newDataIn_replied s bhs statusGood hbound.1 hbound.2
  rw [heq, Option.map_some, Option.some.injEq, Prod.mk.injEq] at h
  rw [h.2] at hreplied
  exact ⟨size, hd, hsize, hreplied⟩

/-- The data of READ CAPACITY, or sense data. -/
def capacitySize (h : ReadCapacityHandler) (cdb : Header) : Nat :=
  if h.lba cdb = 0 then h.size else ReadCapacityHandler.fixedSenseSize

theorem readCapacity_replied {rc : ReadCapacityHandler} (hpos : rc.size ≠ 0) (hlt : rc.size < 2 ^ 8)
    (h : rc.handle s bhs = some (true, s')) :
    ∃ hd, Replied s bhs s' (capacitySize rc (Parser.mk bhs).getSCB) hd := by
  unfold ReadCapacityHandler.handle at h
  dsimp only at h
  split at h
  · cases h
  split at h
  · rename_i hlba
    obtain ⟨s₁, hd, heq, hreplied⟩ := newDataIn_replied s bhs statusGood hpos hlt
    rw [heq, Option.map_some, Option.some.injEq] at h
    rw [capacitySize, if_pos hlba]
    split at h
    · cases h
    · rw [(Prod.mk.inj h).2] at hreplied
      exact ⟨hd, hreplied⟩
  · rename_i hlba
    have hflags : (statusHeader s bhs statusGood).flags ||| finalFlags = finalFlags := by
      rw [statusHeader_flags]
      decide
    have hset := (newDataIn_open s bhs statusGood).set fun h => { h with
      flags := h.flags ||| finalFlags, cmdStatus := checkCondition }
    obtain ⟨s₁, hd, heq, hreplied⟩ := hset.reserve_replied bhs hflags rfl
      (show ReadCapacityHandler.fixedSenseSize ≠ 0 by decide) (by decide)
    rw [capacitySize, if_neg hlba]
    rw [DataInGenerator.setCmdStatus] at h
    unfold finalFlags at heq
    rw [heq, Option.map_some, Option.some.injEq, Prod.mk.injEq] at h
    rw [h.2] at hreplied
    exact ⟨hd, hreplied⟩

theorem maintenanceIn_replied (h : MaintenanceInHandler.handle s bhs = some (true, s')) :
    ∃ hd, Replied s bhs s' MaintenanceInHandler.senseErrorSize hd := by
  unfold MaintenanceInHandler.handle at h
  dsimp only at h
  split at h
  · cases h
  obtain ⟨s₁, hd, heq, hreplied⟩ := newDataIn_replied s bhs checkCondition
    (show MaintenanceInHandler.senseErrorSize ≠ 0 by decide) (by decide)
  rw [heq, Option.map_some, Option.some.injEq, Prod.mk.injEq] at h
  rw [h.2] at hreplied
  exact ⟨hd, hreplied⟩

theorem modeSense_replied (h : ModeSenseHandler.handle s bhs = some (true, s')) :
    ∃ length hd, ModeSenseHandler.getLength (Parser.mk bhs).getSCB = some length ∧
      ModeSenseHandler.getAllocationLength (Parser.mk bhs).getSCB ≠ 0 ∧
      Replied s bhs s' (min length (ModeSenseHandler.getAllocationLength (Parser.mk bhs).getSCB))
        hd := by
  have hopen := newDataIn_open s bhs statusGood
  have halloc : ModeSenseHandler.getAllocationLength (Parser.mk bhs).getSCB < 2 ^ 8 := UInt8.toNat_lt _
  unfold ModeSenseHandler.handle at h
  dsimp only at h
  split at h
  · cases h
  by_cases hzero : ModeSenseHandler.getAllocationLength (Parser.mk bhs).getSCB = 0
  · rw [hopen.reserve_none (.inl hzero) (by decide)] at h
    dsimp only at h
    split at h
    · cases h
    · split at h
      · cases h
      · cases h
  have hcap : 600 ≤ commonBufSize := by decide
  obtain ⟨s₁, heq, hopen⟩ := hopen.reserve hzero (by rw [sizeofHeader]; omega)
  rw [heq] at h
  dsimp only at h
  split at h
  · cases h
  split at h
  · cases h
  rename_i length hlength
  have hlen : length ≠ 0 := by
    revert hlength
    unfold ModeSenseHandler.getLength ModeSenseHandler.headerSize
    split
    · simp
      omega
    · rw [Option.map_eq_some_iff]
      rintro ⟨size, -, rfl⟩
      omega
  have hmin : min length (ModeSenseHandler.getAllocationLength (Parser.mk bhs).getSCB) ≠ 0 := by omega
  have hle := Nat.min_le_right length (ModeSenseHandler.getAllocationLength (Parser.mk bhs).getSCB)
  rw [Nat.mod_eq_of_lt (by omega)] at hopen
  obtain ⟨s₂, hreset, hopen⟩ := hopen.resetDlength hmin (by rw [sizeofHeader]; omega) hle
    (Nat.le_add_left _ _)
  rw [hreset, Option.some.injEq, Prod.mk.injEq] at h
  have htail : sizeofHeader + ModeSenseHandler.getAllocationLength (Parser.mk bhs).getSCB -
      (ModeSenseHandler.getAllocationLength (Parser.mk bhs).getSCB -
        min length (ModeSenseHandler.getAllocationLength (Parser.mk bhs).getSCB)) =
      sizeofHeader + min length (ModeSenseHandler.getAllocationLength (Parser.mk bhs).getSCB) := by
    omega
  dsimp only at hopen
  rw [htail] at hopen
  obtain ⟨hd, hreplied⟩ := hopen.replied (Nat.mod_eq_of_lt (by omega)) (by omega)
    (statusHeader_flags s bhs statusGood) rfl
  rw [h.2] at hreplied
  exact ⟨length, hd, hlength, hzero, hreplied⟩

theorem reportLuns_handed (h : ReportLUNSHandler.handle s bhs = some (true, s')) :
    ∃ hd, hd.dlength = ReportLUNSHandler.getAllocationLength (Parser.mk bhs).getSCB ∧
      hasStatus hd = true ∧ hd.statsn = s.statsn ∧ Handed s s' hd
        (sizeofHeader + wordPad hd.dlength) := by
  have hopen := newDataIn_open s bhs statusGood
  unfold ReportLUNSHandler.handle at h
  dsimp only at h
  split at h
  · cases h
  by_cases hfit : ReportLUNSHandler.getAllocationLength (Parser.mk bhs).getSCB = 0 ∨
      commonBufSize < sizeofHeader + ReportLUNSHandler.getAllocationLength (Parser.mk bhs).getSCB
  · rw [hopen.reserve_none hfit (by decide)] at h
    cases h
  obtain ⟨s₁, heq, hopen⟩ := hopen.reserve (fun h0 => hfit (.inl h0))
    (Nat.le_of_not_lt fun h1 => hfit (.inr h1))
  have hsize : commonBufSize = 131072 := rfl
  have hle : ReportLUNSHandler.getAllocationLength (Parser.mk bhs).getSCB ≤ 131024 := by
    rw [hsize, sizeofHeader] at hfit
    omega
  have hmod : ReportLUNSHandler.getAllocationLength (Parser.mk bhs).getSCB % 2 ^ 24 =
      ReportLUNSHandler.getAllocationLength (Parser.mk bhs).getSCB := Nat.mod_eq_of_lt (by omega)
  rw [heq, Option.map_some, Option.some.injEq] at h
  rw [hmod] at hopen
  split at h
  · cases h
  have hsend := hopen.send (by
    rw [hsize, sizeofHeader, padding, padWordLen]
    dsimp only
    split <;> omega)
  rw [(Prod.mk.inj h).2, Nat.add_assoc, ← wordPad_eq] at hsend
  refine ⟨_, rfl, ?_, rfl, hsend⟩
  rw [hasStatus, decide_eq_true_eq]
  dsimp only
  rw [statusHeader_flags]
  decide

end Handlers

end Sstoraged.ReplyFraming
