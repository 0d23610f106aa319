import Sstoraged.ReadHandler
import Sstoraged.ScsiHandlers

namespace Sstoraged

variable {B : Type} {ix : LbaIndex}

/-- Work of a session that leaves alone what `f` looks at. -/
structure Beside {α : Type} (f : Session B ix → α) where
  run : Session B ix → Session B ix
  keeps : ∀ s, f (run s) = f s

/-- What the writes of a session work on. -/
def Session.writes (s : Session B ix) :
    (Nat → Option DataOutInfo) × List LogicalVolume × List (WriteCache B ix) ×
      List (Nat × WriteSegment B) :=
  (s.recvinfo, s.lvs, s.wcaches, s.pushed)

namespace Beside

variable {α β : Type} {f : Session B ix → α}

/-- A step that leaves something alone leaves alone all that depends on it. -/
def map (b : Beside f) (g : α → β) : Beside fun s => g (f s) := ⟨b.run, fun s => congrArg g (b.keeps s)⟩

section Replies

variable {s s' : Session B ix} {g : DataInGenerator} {bhs : Header} {ok : Bool}

@[simp] theorem alloc_writes (b : CommonBuf) (h : ReplyHeader) : (s.alloc b h).writes = s.writes := rfl

@[simp] theorem push_writes (t : Task B) : (s.push t).writes = s.writes := rfl

@[simp] theorem pushSend_writes (cbuf : Nat) : (s.pushSend cbuf).writes = s.writes := rfl

@[simp] theorem advanceSTATSN_writes : s.advanceSTATSN.writes = s.writes := rfl

@[simp] theorem new_writes : (DataInGenerator.new s).2.writes = s.writes := rfl

@[simp] theorem set_writes (f : DataInHeader → DataInHeader) : (g.set f s).writes = s.writes := by
  unfold DataInGenerator.set
  split <;> rfl

@[simp] theorem setDlength_writes (length : Nat) : (g.setDlength length s).writes = s.writes :=
  set_writes _

@[simp] theorem setCmdStatus_writes (code : UInt8) : (g.setCmdStatus code s).writes = s.writes :=
  set_writes _

@[simp] theorem addOffset_writes (offset : Nat) : (g.addOffset offset s).writes = s.writes :=
  set_writes _

@[simp] theorem setResidualCount_writes (exp cur : Nat) :
    (g.setResidualCount exp cur s).writes = s.writes := by
  unfold DataInGenerator.setResidualCount
  split_ifs <;> simp

@[simp] theorem serialize_writes : (g.serialize s).writes = s.writes := by
  unfold DataInGenerator.serialize
  split <;> rfl

@[simp] theorem send_writes : (g.send s).writes = s.writes := by
  rw [DataInGenerator.send, pushSend_writes, serialize_writes]

@[simp] theorem sendResidual_writes : (g.sendResidual bhs s).writes = s.writes := by
  rw [DataInGenerator.sendResidual, send_writes, setResidualCount_writes]

@[simp] theorem newDataIn_writes (code : UInt8) : (newDataIn bhs code s).2.writes = s.writes := by
  simp [newDataIn]

@[simp] theorem advanceDataSN_writes : (g.advanceDataSN s).2.writes = s.writes := set_writes _

@[simp] theorem replica_writes : (g.replica s).2.writes = s.writes := by
  simp [DataInGenerator.replica]

theorem reserveDataSegment_writes {size : Nat} (h : g.reserveDataSegment size s = some s') :
    s'.writes = s.writes := by
  unfold DataInGenerator.reserveDataSegment at h
  split_ifs at h
  obtain rfl := Option.some.inj h
  exact setDlength_writes size

theorem resetDlength_writes (size : Nat) : (g.resetDlength size s).2.writes = s.writes := by
  unfold DataInGenerator.resetDlength
  split
  · rfl
  split
  · rfl
  dsimp only
  split
  · rfl
  · split <;> exact setDlength_writes size

end Replies

section Handlers

variable {s s' : Session B ix} {bhs : Header} {ok : Bool}

theorem inquiry_writes (h : InquiryHandler.handle s bhs = some (ok, s')) : s'.writes = s.writes := by
  unfold InquiryHandler.handle at h
  dsimp only at h
  split at h
  · cases h
    rfl
  split at h
  · cases h
    simp
  split at h
  · cases h
    simp
  obtain ⟨s₁, hreserve, heq⟩ := Option.map_eq_some_iff.mp h
  cases heq
  simp [reserveDataSegment_writes hreserve]

theorem readCapacity_writes {c : ReadCapacityHandler} (h : c.handle s bhs = some (ok, s')) :
    s'.writes = s.writes := by
  unfold ReadCapacityHandler.handle at h
  dsimp only at h
  split at h
  · cases h
    rfl
  split at h
  · obtain ⟨s₁, hreserve, heq⟩ := Option.map_eq_some_iff.mp h
    have hwrites := reserveDataSegment_writes hreserve
    split at heq
    · cases heq
      simp [hwrites]
    · cases heq
      simp [hwrites]
  · obtain ⟨s₁, hreserve, heq⟩ := Option.map_eq_some_iff.mp h
    cases heq
    simp [reserveDataSegment_writes hreserve]

theorem maintenanceIn_writes (h : MaintenanceInHandler.handle s bhs = some (ok, s')) :
    s'.writes = s.writes := by
  unfold MaintenanceInHandler.handle at h
  dsimp only at h
  split at h
  · cases h
    rfl
  obtain ⟨s₁, hreserve, heq⟩ := Option.map_eq_some_iff.mp h
  cases heq
  simp [reserveDataSegment_writes hreserve]

theorem modeSense_writes (h : ModeSenseHandler.handle s bhs = some (ok, s')) : s'.writes = s.writes := by
  unfold ModeSenseHandler.handle at h
  dsimp only at h
  split at h
  · cases h
    rfl
  split at h
  · split at h
    · cases h
      simp
    split at h
    · cases h
    · cases h
      simp
  next s₁ hreserve =>
  have hwrites := reserveDataSegment_writes hreserve
  split at h
  · cases h
    simp [hwrites]
  split at h
  · cases h
    simp [hwrites]
  next length _ =>
  have hreset := @resetDlength_writes B ix s₁ (newDataIn bhs statusGood s).1
    (min length (ModeSenseHandler.getAllocationLength (Parser.mk bhs).getSCB))
  split at h
  · next heq =>
    cases h
    rw [heq] at hreset
    simp [hreset, hwrites]
  · next heq =>
    cases h
    rw [heq] at hreset
    simp [hreset, hwrites]

theorem reportLuns_writes (h : ReportLUNSHandler.handle s bhs = some (ok, s')) :
    s'.writes = s.writes := by
  unfold ReportLUNSHandler.handle at h
  dsimp only at h
  split at h
  · cases h
    rfl
  obtain ⟨s₁, hreserve, heq⟩ := Option.map_eq_some_iff.mp h
  have hwrites := reserveDataSegment_writes hreserve
  split at heq
  · cases heq
    simp [hwrites]
  · cases heq
    simp [hwrites]

theorem dummy_writes : (DummyHandler.handle s bhs).2.writes = s.writes := by
  unfold DummyHandler.handle
  dsimp only
  split
  · rfl
  · simp

theorem pushHeader_writes (h : ReadHandler) (g : DataInGenerator) (length : Nat) (s : Session B ix) :
    (h.pushHeader g length s).2.2.writes = s.writes := by
  unfold ReadHandler.pushHeader
  split <;> simp

theorem dataInLoop_writes {h : ReadHandler} {data : Nat → Nat → Option (List (Task B) × Nat)}
    (fuel : Nat) :
    ∀ {g : DataInGenerator} {lba length : Nat} {s : Session B ix},
      h.dataInLoop data fuel g lba length s = some (ok, s') → s'.writes = s.writes := by
  induction fuel with
  | zero => exact fun hrun => absurd hrun nofun
  | succ fuel ih =>
    intro g lba length s hrun
    have hheader := pushHeader_writes h g length s
    rw [ReadHandler.dataInLoop] at hrun
    dsimp only at hrun
    split at hrun
    · cases hrun
      exact hheader
    split at hrun
    · cases hrun
      exact hheader
    · rw [ih hrun, addOffset_writes, advanceDataSN_writes, replica_writes]
      exact hheader

theorem read_writes {h : ReadHandler} (hrun : h.handle s bhs = some (ok, s')) :
    s'.writes = s.writes := by
  unfold ReadHandler.handle at hrun
  dsimp only at hrun
  split at hrun
  · cases hrun
    rfl
  split at hrun
  · cases hrun
    rfl
  split at hrun
  · cases hrun
    rfl
  split at hrun
  · cases hrun
    rfl
  split at hrun
  · cases hrun
  split at hrun
  · obtain ⟨⟨ok', s₁⟩, hloop, heq⟩ := Option.map_eq_some_iff.mp hrun
    cases heq
    rw [push_writes, dataInLoop_writes _ hloop]
    simp
  · obtain ⟨⟨ok', s₁⟩, hloop, heq⟩ := Option.map_eq_some_iff.mp hrun
    have hwrites := dataInLoop_writes _ hloop
    split at heq
    · cases heq
      rw [push_writes, hwrites]
      simp
    · cases heq
      rw [hwrites]
      simp

end Handlers

/-- A handler that does not touch the writes. One that has no result leaves the session as it was. -/
def ofHandler (handle : Session B ix → Option (Bool × Session B ix))
    (h : ∀ s ok s', handle s = some (ok, s') → s'.writes = s.writes) :
    Beside (Session.writes : Session B ix → _) where
  run s := ((handle s).map Prod.snd).getD s
  keeps s := by
    cases hrun : handle s with
    | none => rfl
    | some r => exact h s r.1 r.2 hrun

def ofRead (h : ReadHandler) (bhs : Header) : Beside (Session.writes : Session B ix → _) :=
  ofHandler (h.handle · bhs) fun _ _ _ => read_writes

def ofInquiry (bhs : Header) : Beside (Session.writes : Session B ix → _) :=
  ofHandler (InquiryHandler.handle · bhs) fun _ _ _ => inquiry_writes

def ofReadCapacity (h : ReadCapacityHandler) (bhs : Header) :
    Beside (Session.writes : Session B ix → _) :=
  ofHandler (h.handle · bhs) fun _ _ _ => readCapacity_writes

def ofModeSense (bhs : Header) : Beside (Session.writes : Session B ix → _) :=
  ofHandler (ModeSenseHandler.handle · bhs) fun _ _ _ => modeSense_writes

def ofReportLuns (bhs : Header) : Beside (Session.writes : Session B ix → _) :=
  ofHandler (ReportLUNSHandler.handle · bhs) fun _ _ _ => reportLuns_writes

def ofMaintenanceIn (bhs : Header) : Beside (Session.writes : Session B ix → _) :=
  ofHandler (MaintenanceInHandler.handle · bhs) fun _ _ _ => maintenanceIn_writes

def ofDummy (bhs : Header) : Beside (Session.writes : Session B ix → _) :=
  ⟨fun s => (DummyHandler.handle s bhs).2, fun _ => dummy_writes⟩

/-- The tasks of the queue are run until one has to wait. -/
def ofInvoke (k : Kernel) (n : Nat) : Beside (Session.writes : Session B ix → _) where
  run s :=
    { s with sendtask := (invoke k n s.bufs s.sendtask).1, bufs := (invoke k n s.bufs s.sendtask).2 }
  keeps _ := rfl

end Beside

end Sstoraged
