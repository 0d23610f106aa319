import Sstoraged.CdbBytes
import Sstoraged.DataOut
import Sstoraged.Runs

namespace Sstoraged

variable {B : Type} {ix : LbaIndex}

namespace Session

/-- The session with other write caches. -/
def withCaches (wcs : List (WriteCache B ix)) (s : Session B ix) : Session B ix :=
  { s with wcaches := wcs }

@[simp] theorem withCaches_bufs (wcs : List (WriteCache B ix)) (s : Session B ix) :
    (s.withCaches wcs).bufs = s.bufs := rfl

@[simp] theorem withCaches_lvs (wcs : List (WriteCache B ix)) (s : Session B ix) :
    (s.withCaches wcs).lvs = s.lvs := rfl

/-- One empty cache for each volume of the initiator. -/
def setupWriters (s : Session B ix) : Session B ix := s.withCaches (List.replicate s.lvs.length .init)

end Session

namespace WriterSetup

open Session ReadReply

/-- A SCSI command or a Data-Out, with its handler. -/
inductive Request (B : Type)
  | command (c : CdbBytes.Command) (t : Token B)
  | dataOut (d : DataOutHandler) (t : Token B)

namespace Request

def handle (s : Session B ix) : Request B → Option (Bool × Session B ix)
  | .command c t => c.handle s t
  | .dataOut d t => some (d.handle s t)

def lun : Request B → Nat
  | .command _ t | .dataOut _ t => (Parser.mk t.bhs).getLUN

/-- The request passes the checks that come before the caches. -/
def Reaches (s : Session B ix) : Request B → Prop
  | .command (.read _) t => ReadHandler.valid t.bhs = true ∧ (Parser.mk t.bhs).isFinal = true ∧
    ∃ lv, s.getLUN (Parser.mk t.bhs).getLUN = some lv ∧ ReadFormat.lbaOf t.bhs < lv.getTotalSize ∧
      0 < ReadFormat.lengthOf t.bhs ∧ ReadFormat.lbaOf t.bhs + ReadFormat.lengthOf t.bhs ≤
        lv.getTotalSize
  | .command (.write w) t => ∃ lv, WriteHandler.Checked w s t.bhs lv ∧ w.immediateEnabled = true ∧
    ∃ ws, t.frontDataSegment (ReadFormat.lbaOf t.bhs) (offset2Lba (Parser.mk t.bhs).getDlength) = some ws
  | .dataOut _ t => DataOutHandler.valid t.bhs = true ∧
    ∃ dinfo, s.recvinfo (Parser.mk t.bhs).getITT = some dinfo ∧
      (Parser.mk t.bhs).getLUN < s.lvs.length ∧ ∃ ws, DataOutHandler.front t dinfo = some ws
  | .command _ _ => False

/-- The handler takes the cache of the LUN. READ does so without a look at the number of
caches. -/
def Indexes (s : Session B ix) : Request B → Prop
  | .command (.read r) t => Reaches s (.command (.read r) t)
  | r => Reaches s r ∧ r.lun < s.wcaches.length

end Request

/-- From the Login that ends the login phase on, until the reactor's loop runs. -/
inductive Phase
  | login
  | shifted
  | created
  | ready
  deriving DecidableEq

structure State (B : Type) (ix : LbaIndex) where
  session : Session B ix
  phase : Phase

inductive Pdu (B : Type)
  | login
  | request (r : Request B)

/-- A call of `recv`: the PDUs that each of its reads completes, and whether the reply to
the Login can be sent at its end; and the reactor's thread that sets up the caches. -/
inductive Event (B : Type)
  | recv (reads : List (List (Pdu B))) (sent : Bool)
  | setUp

def start (s : Session B ix) : State B ix := ⟨s.withCaches [], .login⟩

/-- A handler is there for a request from the last Login on. There is no result where the
connection ends, or where the vector of caches is too short. -/
def handlePdu (s : State B ix) : Pdu B → Option (State B ix)
  | .login => if s.phase = .login then some { s with phase := .shifted } else none
  | .request r =>
    if s.phase = .login then none
    else match r.handle s.session with
      | some (true, session) => some { s with session }
      | _ => none

def doWork (s : State B ix) (tokens : List (Pdu B)) : Option (State B ix) := tokens.foldlM handlePdu s

def doRecv (s : State B ix) (reads : List (List (Pdu B))) : Option (State B ix) := reads.foldlM doWork s

/-- The queue ends with the task that creates the reactor, behind the reply to the Login. -/
def invoke (s : State B ix) (sent : Bool) : State B ix :=
  if s.phase = .shifted ∧ sent = true then { s with phase := .created } else s

/-- The connection is with the manager's loop until the reactor is created, and then
with the reactor's, which begins behind the set-up. -/
def step (s : State B ix) : Event B → Option (State B ix)
  | .recv reads sent => if s.phase = .created then none else (doRecv s reads).map (invoke · sent)
  | .setUp => if s.phase = .created then some ⟨s.session.setupWriters, .ready⟩ else none

/-- The requests that are handled in a call of `recv`, each with the state before it. -/
def handled : State B ix → List (Pdu B) → List (State B ix × Request B)
  | _, [] => []
  | s, p :: ps =>
    let rest := match handlePdu s p with
      | some s => handled s ps
      | none => []
    match p with
    | .login => rest
    | .request r => if s.phase = .login then [] else (s, r) :: rest

/-- The caches that a request uses are there, and before the set-up its outcome is the one
that it would have after it. -/
structure Safe (s : State B ix) (r : Request B) : Prop where
  inside : r.Indexes s.session → r.lun < s.session.wcaches.length
  same : s.phase ≠ .ready → r.handle s.session.setupWriters =
    (r.handle s.session).map fun x => (x.1, x.2.setupWriters)

/-- A result on a session with other caches, which are neither looked at nor changed. The
volumes are those before the call. -/
structure Blind (wcs : List (WriteCache B ix)) (lvs : List LogicalVolume)
    (x y : Option (Bool × Session B ix)) :
    Prop where
  caches : x = y.map fun r => (r.1, r.2.withCaches wcs)
  lvs : ∀ r, y = some r → r.2.lvs = lvs

section Generator

variable (wcs : List (WriteCache B ix)) (s : Session B ix) (g : DataInGenerator)

theorem set_withCaches (f : DataInHeader → DataInHeader) :
    g.set f (s.withCaches wcs) = (g.set f s).withCaches wcs := by
  unfold DataInGenerator.set withCaches
  dsimp only
  split
  · rfl
  · rfl

theorem set_lvs (f : DataInHeader → DataInHeader) : (g.set f s).lvs = s.lvs := by
  unfold DataInGenerator.set
  split
  · rfl
  · rfl

theorem newDataIn_withCaches (bhs : Header) (code : UInt8) :
    newDataIn bhs code (s.withCaches wcs) = ((newDataIn bhs code s).1,
      (newDataIn bhs code s).2.withCaches wcs) := by
  have hnew : DataInGenerator.new (s.withCaches wcs) =
      ((DataInGenerator.new s).1, (DataInGenerator.new s).2.withCaches wcs) := rfl
  have hadvance : ∀ s : Session B ix, (s.withCaches wcs).advanceSTATSN =
      s.advanceSTATSN.withCaches wcs := fun _ => rfl
  unfold newDataIn DataInGenerator.setCmdStatus
  dsimp only
  rw [hnew]
  dsimp only
  rw [set_withCaches, hadvance, set_withCaches]
  rfl

theorem newDataIn_lvs (bhs : Header) (code : UInt8) : (newDataIn bhs code s).2.lvs = s.lvs := by
  unfold newDataIn DataInGenerator.setCmdStatus
  dsimp only
  rw [set_lvs]
  exact set_lvs _ _ _

theorem setDlength_withCaches (length : Nat) :
    g.setDlength length (s.withCaches wcs) = (g.setDlength length s).withCaches wcs := set_withCaches ..

theorem reserve_withCaches (size : Nat) :
    g.reserveDataSegment size (s.withCaches wcs) = (g.reserveDataSegment size s).map
      (withCaches wcs) := by
  unfold DataInGenerator.reserveDataSegment
  dsimp only
  rw [setDlength_withCaches, withCaches_bufs]
  split
  · rfl
  · split
    · rfl
    · rfl

theorem reserve_lvs {s' : Session B ix} {size : Nat} (h : g.reserveDataSegment size s = some s') :
    s'.lvs = s.lvs := by
  unfold DataInGenerator.reserveDataSegment at h
  split at h
  · exact absurd h nofun
  split at h
  · exact absurd h nofun
  · obtain rfl := Option.some.inj h
    exact set_lvs ..

theorem reset_withCaches (size : Nat) : g.resetDlength size (s.withCaches wcs) =
    ((g.resetDlength size s).1, (g.resetDlength size s).2.withCaches wcs) := by
  have hold : g.getDlength (s.withCaches wcs) = g.getDlength s := rfl
  unfold DataInGenerator.resetDlength
  dsimp only
  rw [setDlength_withCaches, withCaches_bufs, hold]
  split
  · rfl
  split
  · rfl
  split
  · rfl
  · rw [withCaches_bufs]
    split
    · rfl
    · rfl

theorem reset_lvs (size : Nat) : (g.resetDlength size s).2.lvs = s.lvs := by
  unfold DataInGenerator.resetDlength
  dsimp only
  split
  · rfl
  split
  · rfl
  split
  · rfl
  split
  · exact set_lvs ..
  · exact set_lvs ..

theorem serialize_withCaches : g.serialize (s.withCaches wcs) = (g.serialize s).withCaches wcs := by
  have hold : g.getDlength (s.withCaches wcs) = g.getDlength s := rfl
  unfold DataInGenerator.serialize
  rw [hold, withCaches_bufs]
  split
  · rfl
  · rfl

theorem serialize_lvs : (g.serialize s).lvs = s.lvs := by
  unfold DataInGenerator.serialize
  split
  · rfl
  · rfl

theorem send_withCaches : g.send (s.withCaches wcs) = (g.send s).withCaches wcs := by
  unfold DataInGenerator.send
  rw [serialize_withCaches]
  rfl

theorem send_lvs : (g.send s).lvs = s.lvs := serialize_lvs s g

theorem sendResidual_withCaches (bhs : Header) :
    g.sendResidual bhs (s.withCaches wcs) = (g.sendResidual bhs s).withCaches wcs := by
  have hold : g.getDlength (s.withCaches wcs) = g.getDlength s := rfl
  unfold DataInGenerator.sendResidual DataInGenerator.setResidualCount DataInGenerator.setDlength
  rw [hold]
  split
  · rw [set_withCaches, send_withCaches]
  split
  · rw [set_withCaches, set_withCaches, send_withCaches]
  · exact send_withCaches ..

theorem sendResidual_lvs (bhs : Header) : (g.sendResidual bhs s).lvs = s.lvs := by
  unfold DataInGenerator.sendResidual DataInGenerator.setResidualCount DataInGenerator.setDlength
  rw [send_lvs]
  split
  · exact set_lvs ..
  split
  · rw [set_lvs, set_lvs]
  · rfl

end Generator

section Handlers

variable {wcs : List (WriteCache B ix)} {s : Session B ix} {lvs : List LogicalVolume}

theorem blind_some {ok : Bool} (h : s.lvs = lvs) : Blind wcs lvs (some (ok, s.withCaches wcs))
    (some (ok, s)) :=
  ⟨rfl, fun r hr => by obtain rfl := Option.some.inj hr; exact h⟩

theorem blind_none : Blind wcs lvs none none := ⟨rfl, nofun⟩

theorem blind_reserve {size : Nat} {g : DataInGenerator} {f : Session B ix → Bool × Session B ix}
    (h : s.lvs = lvs)
    (hcaches : ∀ s, f (s.withCaches wcs) = ((f s).1, (f s).2.withCaches wcs))
    (hlvs : ∀ s, (f s).2.lvs = s.lvs) :
    Blind wcs lvs ((g.reserveDataSegment size (s.withCaches wcs)).map f)
      ((g.reserveDataSegment size s).map f) := by
  rw [reserve_withCaches]
  cases hreserve : g.reserveDataSegment size s with
  | none => exact blind_none
  | some s' =>
    rw [Option.map_some, Option.map_some, Option.map_some, hcaches]
    exact blind_some (by rw [hlvs, reserve_lvs _ _ hreserve, h])

theorem blind_sendResidual {size : Nat} {g : DataInGenerator} {bhs : Header} (h : s.lvs = lvs) :
    Blind wcs lvs ((g.reserveDataSegment size (s.withCaches wcs)).map fun s =>
      (true, g.sendResidual bhs s))
      ((g.reserveDataSegment size s).map fun s => (true, g.sendResidual bhs s)) :=
  blind_reserve h (fun s => by rw [sendResidual_withCaches]) fun s => sendResidual_lvs s g bhs

variable (wcs s) (bhs : Header)

theorem getLUN_withCaches (lun : Nat) : (s.withCaches wcs).getLUN lun = s.getLUN lun := rfl

theorem blind_inquiry : Blind wcs s.lvs (InquiryHandler.handle (s.withCaches wcs) bhs)
    (InquiryHandler.handle s bhs) := by
  unfold InquiryHandler.handle
  dsimp only
  split
  · exact blind_some rfl
  have hlvs := newDataIn_lvs s bhs statusGood
  rw [newDataIn_withCaches]
  dsimp only
  split
  · exact blind_some hlvs
  split
  · exact blind_some hlvs
  · exact blind_sendResidual hlvs

theorem blind_readCapacity (h : ReadCapacityHandler) :
    Blind wcs s.lvs (h.handle (s.withCaches wcs) bhs) (h.handle s bhs) := by
  unfold ReadCapacityHandler.handle
  dsimp only
  split
  · exact blind_some rfl
  have hlvs := newDataIn_lvs s bhs statusGood
  rw [newDataIn_withCaches]
  dsimp only
  split
  · refine blind_reserve hlvs (fun s => ?_) fun s => ?_
    · rw [getLUN_withCaches, sendResidual_withCaches]
      split
      · rfl
      · rfl
    · split
      · rfl
      · exact sendResidual_lvs ..
  · unfold DataInGenerator.setCmdStatus
    rw [set_withCaches]
    exact blind_sendResidual ((set_lvs ..).trans hlvs)

theorem blind_maintenanceIn :
    Blind wcs s.lvs (MaintenanceInHandler.handle (s.withCaches wcs) bhs)
      (MaintenanceInHandler.handle s bhs) := by
  unfold MaintenanceInHandler.handle
  dsimp only
  split
  · exact blind_some rfl
  rw [newDataIn_withCaches]
  exact blind_sendResidual (newDataIn_lvs s bhs checkCondition)

theorem blind_reportLuns :
    Blind wcs s.lvs (ReportLUNSHandler.handle (s.withCaches wcs) bhs)
      (ReportLUNSHandler.handle s bhs) := by
  unfold ReportLUNSHandler.handle
  dsimp only
  split
  · exact blind_some rfl
  rw [newDataIn_withCaches]
  refine blind_reserve (newDataIn_lvs s bhs statusGood) (fun s => ?_) fun s => ?_
  · rw [withCaches_lvs, send_withCaches]
    split
    · rfl
    · rfl
  · split
    · rfl
    · exact send_lvs ..

theorem blind_modeSense : Blind wcs s.lvs (ModeSenseHandler.handle (s.withCaches wcs) bhs)
    (ModeSenseHandler.handle s bhs) := by
  unfold ModeSenseHandler.handle
  dsimp only
  split
  · exact blind_some rfl
  have hlvs := newDataIn_lvs s bhs statusGood
  rw [newDataIn_withCaches]
  dsimp only
  generalize (newDataIn bhs statusGood s).1 = g at hlvs ⊢
  generalize (newDataIn bhs statusGood s).2 = s' at hlvs ⊢
  rw [reserve_withCaches]
  cases hreserve : g.reserveDataSegment (ModeSenseHandler.getAllocationLength
    (Parser.mk bhs).getSCB) s' with
  | none =>
    dsimp only [Option.map_none]
    rw [getLUN_withCaches]
    split
    · exact blind_some hlvs
    split
    · exact blind_none
    · exact blind_some hlvs
  | some s₁ =>
    have hlvs₁ := (reserve_lvs _ _ hreserve).trans hlvs
    dsimp only [Option.map_some]
    rw [getLUN_withCaches]
    split
    · exact blind_some hlvs₁
    split
    · exact blind_some hlvs₁
    next length hlength =>
    have hreset :=
      reset_lvs s₁ g (min length (ModeSenseHandler.getAllocationLength (Parser.mk bhs).getSCB))
    rw [reset_withCaches]
    generalize g.resetDlength (min length (ModeSenseHandler.getAllocationLength
      (Parser.mk bhs).getSCB)) s₁ = r at hreset ⊢
    obtain ⟨ok, s₂⟩ := r
    cases ok with
    | false => exact blind_some (hreset.trans hlvs₁)
    | true =>
      dsimp only
      rw [sendResidual_withCaches]
      exact blind_some ((sendResidual_lvs ..).trans (hreset.trans hlvs₁))

theorem blind_dummy : Blind wcs s.lvs (some (DummyHandler.handle (s.withCaches wcs) bhs))
    (some (DummyHandler.handle s bhs)) := by
  unfold DummyHandler.handle
  dsimp only
  split
  · exact blind_some rfl
  · exact ⟨rfl, fun r hr => by obtain rfl := Option.some.inj hr; rfl⟩

theorem putRecvinfo_withCaches (itt : Nat) (info : DataOutInfo) :
    (s.withCaches wcs).putRecvinfo itt info = (s.putRecvinfo itt info).withCaches wcs := by
  have hinfo : (s.withCaches wcs).recvinfo = s.recvinfo := rfl
  unfold Session.putRecvinfo
  rw [hinfo]
  split
  · rfl
  · rfl

theorem receive_withCaches (w : WriteHandler) (remain : Nat) :
    w.receive (s.withCaches wcs) bhs remain = (w.receive s bhs remain).withCaches wcs := by
  have hr2t : ∀ itt lun r2tsn offset length, (s.withCaches wcs).pushR2T itt lun r2tsn offset length =
      (s.pushR2T itt lun r2tsn offset length).withCaches wcs := fun _ _ _ _ _ => rfl
  unfold WriteHandler.receive
  dsimp only
  rw [hr2t, putRecvinfo_withCaches, putRecvinfo_withCaches]
  split
  · rfl
  · rfl

theorem finish_withCaches (d : DataOutHandler) (dinfo : DataOutInfo) :
    d.finish (s.withCaches wcs) bhs dinfo = ((d.finish s bhs dinfo).1,
      (d.finish s bhs dinfo).2.withCaches wcs) := by
  unfold DataOutHandler.finish
  dsimp only
  split
  · rfl
  split
  · rfl
  split
  · rfl
  · rfl

theorem pushHeader_withCaches (h : ReadHandler) (g : DataInGenerator) (tl : Nat) :
    h.pushHeader g tl (s.withCaches wcs) =
    ((h.pushHeader g tl s).1, (h.pushHeader g tl s).2.1, (h.pushHeader g tl s).2.2.withCaches wcs) := by
  unfold ReadHandler.pushHeader DataInGenerator.setCmdStatus
  dsimp only
  split
  · rw [setDlength_withCaches, serialize_withCaches]
    rfl
  · rw [set_withCaches, setDlength_withCaches, serialize_withCaches]
    rfl

theorem pushHeader_lvs (h : ReadHandler) (g : DataInGenerator) (tl : Nat) :
    (h.pushHeader g tl s).2.2.lvs = s.lvs := by
  unfold ReadHandler.pushHeader DataInGenerator.setCmdStatus
  dsimp only
  split
  · exact (serialize_lvs ..).trans (set_lvs ..)
  · exact (serialize_lvs ..).trans ((set_lvs ..).trans (set_lvs ..))

theorem nextHeader_withCaches (g : DataInGenerator) (length : Nat) :
    nextHeader g length (s.withCaches wcs) =
    ((nextHeader g length s).1, (nextHeader g length s).2.withCaches wcs) := by
  have hreplica : g.replica (s.withCaches wcs) = ((g.replica s).1, (g.replica s).2.withCaches wcs) := by
    unfold DataInGenerator.replica
    rw [serialize_withCaches]
    rfl
  unfold nextHeader DataInGenerator.advanceDataSN DataInGenerator.addOffset
  rw [hreplica]
  dsimp only
  rw [set_withCaches, set_withCaches]

theorem nextHeader_lvs (g : DataInGenerator) (length : Nat) : (nextHeader g length s).2.lvs = s.lvs := by
  unfold nextHeader DataInGenerator.advanceDataSN DataInGenerator.addOffset
  dsimp only
  rw [set_lvs, set_lvs]
  exact serialize_lvs ..

theorem blind_dataInLoop (h : ReadHandler) (data : Nat → Nat → Option (List (Task B) × Nat))
    (fuel : Nat) :
    ∀ {s : Session B ix} {lvs : List LogicalVolume} {g : DataInGenerator} {lba tl : Nat}, s.lvs = lvs →
      Blind wcs lvs (h.dataInLoop data fuel g lba tl (s.withCaches wcs))
        (h.dataInLoop data fuel g lba tl s) := by
  induction fuel with
  | zero => exact fun _ => blind_none
  | succ fuel ih =>
    intro s lvs g lba tl hs
    have hlvs := (pushHeader_lvs s h g tl).trans hs
    obtain ⟨length, last, s₁, hpush⟩ : ∃ length last s₁, h.pushHeader g tl s = (length, last, s₁) :=
      ⟨_, _, _, rfl⟩
    have hpush' : h.pushHeader g tl (s.withCaches wcs) = (length, last, s₁.withCaches wcs) := by
      rw [pushHeader_withCaches, hpush]
    rw [hpush] at hlvs
    rw [dataInLoop_succ h data fuel g lba tl s hpush,
      dataInLoop_succ h data fuel g lba tl (s.withCaches wcs) hpush']
    cases data lba length with
    | none => exact blind_some hlvs
    | some next =>
      obtain ⟨tasks, lba'⟩ := next
      have htasks : { s₁.withCaches wcs with sendtask := (s₁.withCaches wcs).sendtask ++ tasks } =
          ({ s₁ with sendtask := s₁.sendtask ++ tasks } : Session B ix).withCaches wcs := rfl
      dsimp only
      rw [htasks, nextHeader_withCaches]
      split
      · exact blind_some hlvs
      · exact ih ((nextHeader_lvs ..).trans hlvs)

end Handlers

section Requests

variable {s s' : Session B ix} {t : Token B} {r : Request B}

theorem setupWriters_of_lvs {s s' : Session B ix} (h : s'.lvs = s.lvs) :
    s'.setupWriters = s'.withCaches (List.replicate s.lvs.length .init) := by
  rw [setupWriters, h]

theorem Blind.setup {f : Session B ix → Option (Bool × Session B ix)}
    (h : ∀ wcs, Blind wcs s.lvs (f (s.withCaches wcs)) (f s)) :
    f s.setupWriters = (f s).map fun x => (x.1, x.2.setupWriters) := by
  rw [setupWriters, (h _).caches]
  cases hf : f s with
  | none => rfl
  | some x =>
    rw [Option.map_some, Option.map_some, setupWriters_of_lvs ((h []).lvs x hf)]

theorem Blind.frame {y : Option (Bool × Session B ix)} {ok : Bool} (h : Blind s.wcaches s.lvs y y)
    (hy : y = some (ok, s')) : s'.lvs = s.lvs ∧ s'.wcaches = s.wcaches := by
  refine ⟨h.lvs _ hy, ?_⟩
  have hcaches := h.caches
  rw [hy, Option.map_some] at hcaches
  obtain ⟨-, hs'⟩ := Prod.mk.inj (Option.some.inj hcaches)
  rw [hs']
  rfl

theorem blind_command (c : CdbBytes.Command) (h : ∀ r, c ≠ .read r) (h' : ∀ w, c ≠ .write w)
    (wcs : List (WriteCache B ix)) : Blind wcs s.lvs (c.handle (s.withCaches wcs) t) (c.handle s t) := by
  cases c with
  | reply c =>
    cases c with
    | inquiry => exact blind_inquiry wcs s t.bhs
    | readCapacity => exact blind_readCapacity wcs s t.bhs _
    | readCapacity16 => exact blind_readCapacity wcs s t.bhs _
    | modeSense => exact blind_modeSense wcs s t.bhs
    | reportLuns => exact blind_reportLuns wcs s t.bhs
  | maintenanceIn => exact blind_maintenanceIn wcs s t.bhs
  | dummy => exact blind_dummy wcs s t.bhs
  | read r => exact absurd rfl (h r)
  | write w => exact absurd rfl (h' w)

theorem read_rejected (r : ReadHandler) (h : ¬ (Request.command (.read r) t).Reaches s) :
    r.handle s t.bhs = some (false, s) := by
  unfold ReadHandler.handle
  dsimp only
  split
  · rfl
  next hvalid =>
  split
  · rfl
  next hfinal =>
  split
  · rfl
  next lv hlv =>
  split
  · rfl
  next hrange =>
  refine absurd ⟨by simpa using hvalid, by simpa using hfinal, lv, hlv, ?_⟩ h
  unfold ReadFormat.lbaOf ReadFormat.lengthOf
  omega

theorem loop_frame (h : ReadHandler) {data : Nat → Nat → Option (List (Task B) × Nat)} {fuel : Nat}
    {g : DataInGenerator}
    {lba tl : Nat} {ok : Bool} (hloop : h.dataInLoop data fuel g lba tl s = some (ok, s')) :
    s'.lvs = s.lvs ∧ s'.wcaches = s.wcaches :=
  Blind.frame (blind_dataInLoop s.wcaches h data fuel rfl) hloop

theorem read_frame (r : ReadHandler) {ok : Bool} (h : r.handle s t.bhs = some (ok, s')) :
    s'.lvs = s.lvs ∧ s'.wcaches = s.wcaches := by
  unfold ReadHandler.handle at h
  dsimp only at h
  split at h
  · obtain ⟨-, rfl⟩ := Prod.mk.inj (Option.some.inj h)
    exact ⟨rfl, rfl⟩
  split at h
  · obtain ⟨-, rfl⟩ := Prod.mk.inj (Option.some.inj h)
    exact ⟨rfl, rfl⟩
  split at h
  · obtain ⟨-, rfl⟩ := Prod.mk.inj (Option.some.inj h)
    exact ⟨rfl, rfl⟩
  split at h
  · obtain ⟨-, rfl⟩ := Prod.mk.inj (Option.some.inj h)
    exact ⟨rfl, rfl⟩
  split at h
  · exact absurd h nofun
  -- the reply begins on a session that differs in its buffers, headers and queue only
  have hset : ∀ (g : DataInGenerator) (f : DataInHeader → DataInHeader) (s : Session B ix),
      (g.set f s).lvs = s.lvs ∧ (g.set f s).wcaches = s.wcaches := by
    intro g f s
    unfold DataInGenerator.set
    split
    · exact ⟨rfl, rfl⟩
    · exact ⟨rfl, rfl⟩
  split at h
  · obtain ⟨⟨ok', s₁⟩, hloop, heq⟩ := Option.map_eq_some_iff.mp h
    obtain ⟨-, rfl⟩ := Prod.mk.inj heq
    obtain ⟨hlvs, hcaches⟩ := loop_frame r hloop
    exact ⟨hlvs.trans (hset ..).1, hcaches.trans (hset ..).2⟩
  · obtain ⟨⟨ok', s₁⟩, hloop, heq⟩ := Option.map_eq_some_iff.mp h
    obtain ⟨hlvs, hcaches⟩ := loop_frame r hloop
    dsimp only at heq
    split at heq
    · obtain ⟨-, rfl⟩ := Prod.mk.inj heq
      exact ⟨hlvs.trans (hset ..).1, hcaches.trans (hset ..).2⟩
    · obtain ⟨-, rfl⟩ := Prod.mk.inj heq
      exact ⟨hlvs.trans (hset ..).1, hcaches.trans (hset ..).2⟩

theorem write_reaches (w : WriteHandler) {lv : LogicalVolume} {ws : WriteSegment B}
    (hc : WriteHandler.Checked w s t.bhs lv) (himm : w.immediateEnabled = true)
    (hws : t.frontDataSegment (ReadFormat.lbaOf t.bhs) (offset2Lba (Parser.mk t.bhs).getDlength) =
      some ws) :
    w.handle s t = if s.wcaches.length ≤ (Parser.mk t.bhs).getLUN then (false, s)
      else w.finish (s.store (Parser.mk t.bhs).getLUN ws) t.bhs := by
  have hpositive := hc.positive
  have hinside := hc.inside
  unfold ReadFormat.lbaOf at hws
  unfold WriteHandler.handle
  dsimp only
  rw [hc.valid, if_neg Bool.noConfusion, if_neg (Nat.not_lt.mpr hc.burst), hc.lun]
  dsimp only
  rw [if_neg (by omega), if_pos himm, hws]

theorem write_withCaches (w : WriteHandler) (h : ¬ (Request.command (.write w) t).Reaches s)
    (wcs : List (WriteCache B ix)) :
    w.handle (s.withCaches wcs) t = ((w.handle s t).1, (w.handle s t).2.withCaches wcs) := by
  unfold WriteHandler.handle
  dsimp only
  rw [getLUN_withCaches, receive_withCaches]
  split
  · rfl
  next hvalid =>
  split
  · rfl
  next hburst =>
  split
  · rfl
  next lv hlv =>
  split
  · rfl
  next hrange =>
  split
  swap
  · rfl
  next himm =>
  split
  · rfl
  next ws hws =>
  exact absurd ⟨lv, ⟨by simpa using hvalid, Nat.le_of_not_lt hburst, hlv, by omega, by omega⟩,
    himm, ws, hws⟩ h

theorem write_frame (w : WriteHandler) : (w.handle s t).2.lvs = s.lvs ∧
    (w.handle s t).2.wcaches.length = s.wcaches.length := by
  obtain h | ⟨lv, -, ⟨-, h⟩ | ⟨-, ws, -, -, h⟩⟩ := w.handle_cases s t
  · rw [h]
    exact ⟨rfl, rfl⟩
  · obtain ⟨-, hcaches, hlvs, -⟩ := w.receive_frame s t.bhs _
    rw [h, hcaches, hlvs]
    exact ⟨rfl, rfl⟩
  · obtain ⟨-, hcaches, hlvs, -⟩ := w.finish_frame (s.store (Parser.mk t.bhs).getLUN ws) t.bhs
    rw [h, hcaches, hlvs, length_store_wcaches, store_lvs]
    exact ⟨rfl, rfl⟩

theorem dataOut_frame (d : DataOutHandler) : (d.handle s t).2.lvs = s.lvs ∧
    (d.handle s t).2.wcaches.length = s.wcaches.length := by
  obtain h | ⟨dinfo, -, -, ⟨-, h⟩ | ⟨ws, -, -, h⟩⟩ := d.handle_cases s t
  · rw [h]
    exact ⟨rfl, rfl⟩
  · obtain ⟨-, hcaches, hlvs, -⟩ := d.finish_frame s t.bhs dinfo
    rw [h, hcaches, hlvs]
    exact ⟨rfl, rfl⟩
  · obtain ⟨-, hcaches, hlvs, -⟩ := d.finish_frame (s.store (Parser.mk t.bhs).getLUN ws) t.bhs dinfo
    rw [h, hcaches, hlvs, length_store_wcaches, store_lvs]
    exact ⟨rfl, rfl⟩

theorem handle_frame {ok : Bool} (h : r.handle s = some (ok, s')) :
    s'.lvs = s.lvs ∧ s'.wcaches.length = s.wcaches.length := by
  cases r with
  | dataOut d t =>
    obtain rfl : (d.handle s t).2 = s' := congrArg Prod.snd (Option.some.inj h)
    exact dataOut_frame d
  | command c t =>
    by_cases hread : ∃ r, c = .read r
    · obtain ⟨r, rfl⟩ := hread
      obtain ⟨hlvs, hcaches⟩ := read_frame r h
      exact ⟨hlvs, congrArg List.length hcaches⟩
    by_cases hwrite : ∃ w, c = .write w
    · obtain ⟨w, rfl⟩ := hwrite
      obtain rfl : (w.handle s t).2 = s' := congrArg Prod.snd (Option.some.inj h)
      exact write_frame w
    · obtain ⟨hlvs, hcaches⟩ := Blind.frame (blind_command c (fun r hr => hread ⟨r, hr⟩)
        (fun w hw => hwrite ⟨w, hw⟩) s.wcaches) h
      exact ⟨hlvs, congrArg List.length hcaches⟩

theorem pushed_ne {lun : Nat} {ws : WriteSegment B} (s : Session B ix) :
    (s.store lun ws).pushed ≠ s.pushed := by
  rw [store_pushed]
  exact fun h => List.cons_ne_nil _ _ (List.self_eq_append_right.mp h.symm)

/-- Without caches, a request that does not get to them has the outcome that it has
later. -/
theorem same_of_not_reaches (hs : s.wcaches = []) (h : ¬ r.Reaches s) :
    r.handle s.setupWriters = (r.handle s).map fun x => (x.1, x.2.setupWriters) := by
  cases r with
  | dataOut d t =>
    show some (d.handle s.setupWriters t) = some ((d.handle s t).1, (d.handle s t).2.setupWriters)
    unfold DataOutHandler.handle
    have hinfo : s.setupWriters.recvinfo = s.recvinfo := rfl
    dsimp only
    rw [hinfo]
    split
    · rfl
    next hvalid =>
    split
    · rfl
    next dinfo hdinfo =>
    split
    · have hfinish := finish_withCaches (List.replicate s.lvs.length .init) s t.bhs d dinfo
      have hlvs := (d.finish_frame s t.bhs dinfo).2.2.1
      rw [setupWriters_of_lvs hlvs, ← hfinish]
      rfl
    next ws hws =>
    have hlun : s.lvs.length ≤ (Parser.mk t.bhs).getLUN := Nat.le_of_not_lt fun hlt =>
      h ⟨by simpa using hvalid, dinfo, hdinfo, hlt, ws, hws⟩
    have hlater : s.setupWriters.wcaches.length = s.lvs.length := List.length_replicate
    have hearly : s.wcaches.length ≤ (Parser.mk t.bhs).getLUN := by
      rw [hs]
      exact Nat.zero_le _
    rw [hlater, if_pos hlun, if_pos hearly]
  | command c t =>
    by_cases hread : ∃ r, c = .read r
    · obtain ⟨r, rfl⟩ := hread
      have hlater : ¬ (Request.command (.read r) t).Reaches s.setupWriters := h
      show r.handle s.setupWriters t.bhs = (r.handle s t.bhs).map _
      rw [read_rejected r h, read_rejected r hlater]
      rfl
    by_cases hwrite : ∃ w, c = .write w
    · obtain ⟨w, rfl⟩ := hwrite
      show some (w.handle s.setupWriters t) = some ((w.handle s t).1, (w.handle s t).2.setupWriters)
      rw [setupWriters_of_lvs (write_frame w).1, setupWriters, write_withCaches w h]
    · exact @Blind.setup B ix s (fun s => c.handle s t) fun wcs =>
        blind_command c (fun r hr => hread ⟨r, hr⟩) (fun w hw => hwrite ⟨w, hw⟩) wcs

/-- Without caches, a request that gets to them is not safe: READ goes beyond the end of
the vector, WRITE and Data-Out are rejected. -/
theorem not_safe_of_reaches {s : State B ix} (hs : s.session.wcaches = []) (hp : s.phase ≠ .ready)
    (h : r.Reaches s.session) : ¬ Safe s r := by
  intro hsafe
  have hsame := hsafe.same hp
  have hlater : s.session.setupWriters.wcaches.length = s.session.lvs.length := List.length_replicate
  cases r with
  | dataOut d t =>
    obtain ⟨hvalid, dinfo, hinfo, hlun, ws, hws⟩ := h
    have hnow : d.handle s.session t = (false, s.session) := by
      obtain heq | ⟨dinfo', -, hinfo', ⟨hnone, -⟩ | ⟨ws', -, hlt, -⟩⟩ := d.handle_cases s.session t
      · exact heq
      · obtain rfl := Option.some.inj (hinfo.symm.trans hinfo')
        exact absurd (hnone.symm.trans hws) nofun
      · rw [hs] at hlt
        exact absurd hlt (Nat.not_lt_zero _)
    have hthen : d.handle s.session.setupWriters t =
        d.finish (s.session.setupWriters.store (Parser.mk t.bhs).getLUN ws) t.bhs dinfo := by
      unfold DataOutHandler.handle
      have hinfo' : s.session.setupWriters.recvinfo = s.session.recvinfo := rfl
      have hws' := hws
      unfold DataOutHandler.front at hws'
      dsimp only
      rw [hvalid, if_neg Bool.noConfusion, hinfo', hinfo]
      dsimp only
      rw [hws']
      dsimp only
      rw [hlater, if_neg (Nat.not_le_of_lt hlun)]
    have hpair : d.handle s.session.setupWriters t =
        ((d.handle s.session t).1, (d.handle s.session t).2.setupWriters) := Option.some.inj hsame
    rw [hthen, hnow] at hpair
    have hpushed :=
      (d.finish_frame (s.session.setupWriters.store (Parser.mk t.bhs).getLUN ws) t.bhs dinfo).1
    rw [hpair] at hpushed
    exact pushed_ne _ hpushed.symm
  | command c t =>
    cases c with
    | reply c => exact h
    | maintenanceIn => exact h
    | dummy => exact h
    | read r =>
      have hlt := hsafe.inside h
      rw [hs] at hlt
      exact Nat.not_lt_zero _ hlt
    | write w =>
      obtain ⟨lv, hc, himm, ws, hws⟩ := h
      have hlun : (Parser.mk t.bhs).getLUN < s.session.lvs.length :=
        (List.getElem?_eq_some_iff.mp hc.lun).1
      have hnow : w.handle s.session t = (false, s.session) := by
        rw [write_reaches w hc himm hws, hs]
        exact if_pos (Nat.zero_le _)
      have hc' : WriteHandler.Checked w s.session.setupWriters t.bhs lv :=
        ⟨hc.valid, hc.burst, hc.lun, hc.positive, hc.inside⟩
      have hthen : w.handle s.session.setupWriters t =
          w.finish (s.session.setupWriters.store (Parser.mk t.bhs).getLUN ws) t.bhs := by
        rw [write_reaches w hc' himm hws, hlater]
        exact if_neg (Nat.not_le_of_lt hlun)
      have hpair : w.handle s.session.setupWriters t =
          ((w.handle s.session t).1, (w.handle s.session t).2.setupWriters) := Option.some.inj hsame
      rw [hthen, hnow] at hpair
      have hpushed := (w.finish_frame (s.session.setupWriters.store (Parser.mk t.bhs).getLUN ws) t.bhs).1
      rw [hpair] at hpushed
      exact pushed_ne _ hpushed.symm

end Requests

section Phases

variable {s s' : State B ix}

/-- The caches come with the set-up, one for each volume. -/
structure Inv (s : State B ix) : Prop where
  before : s.phase ≠ .ready → s.session.wcaches = []
  after : s.phase = .ready → s.session.wcaches.length = s.session.lvs.length

theorem inv_start (s : Session B ix) : Inv (start s) := ⟨fun _ => rfl, nofun⟩

theorem inv_handlePdu {p : Pdu B} (hinv : Inv s) (h : handlePdu s p = some s') : Inv s' := by
  unfold handlePdu at h
  split at h
  · split at h
    next hlogin =>
      obtain rfl := Option.some.inj h
      exact ⟨fun _ => hinv.before (by rw [hlogin]; exact nofun), nofun⟩
    · exact absurd h nofun
  · split at h
    · exact absurd h nofun
    split at h
    next session heq =>
      obtain rfl := Option.some.inj h
      obtain ⟨hlvs, hlength⟩ := handle_frame heq
      refine ⟨fun hp => ?_, fun hp => ?_⟩
      · rw [hinv.before hp] at hlength
        exact List.eq_nil_of_length_eq_zero hlength
      · exact hlength.trans ((hinv.after hp).trans (congrArg List.length hlvs.symm))
    · exact absurd h nofun

theorem inv_doWork {tokens : List (Pdu B)} (hinv : Inv s) (h : doWork s tokens = some s') : Inv s' := by
  induction tokens generalizing s with
  | nil =>
    obtain rfl := Option.some.inj h
    exact hinv
  | cons p tokens ih =>
    obtain ⟨s₁, hp, htokens⟩ := Option.bind_eq_some_iff.mp h
    exact ih (inv_handlePdu hinv hp) htokens

theorem inv_doRecv {reads : List (List (Pdu B))} (hinv : Inv s) (h : doRecv s reads = some s') :
    Inv s' := by
  induction reads generalizing s with
  | nil =>
    obtain rfl := Option.some.inj h
    exact hinv
  | cons tokens reads ih =>
    obtain ⟨s₁, htokens, hreads⟩ := Option.bind_eq_some_iff.mp h
    exact ih (inv_doWork hinv htokens) hreads

theorem inv_invoke (hinv : Inv s) (sent : Bool) : Inv (invoke s sent) := by
  unfold invoke
  split
  next h => exact ⟨fun _ => hinv.before (by rw [h.1]; exact nofun), nofun⟩
  · exact hinv

theorem inv_step {e : Event B} (hinv : Inv s) (h : step s e = some s') : Inv s' := by
  cases e with
  | recv reads sent =>
    unfold step at h
    dsimp only at h
    split at h
    · exact absurd h nofun
    · obtain ⟨s₁, hrecv, rfl⟩ := Option.map_eq_some_iff.mp h
      exact inv_invoke (inv_doRecv hinv hrecv) sent
  | setUp =>
    unfold step at h
    dsimp only at h
    split at h
    · obtain rfl := Option.some.inj h
      exact ⟨fun hp => absurd rfl hp, fun _ => List.length_replicate⟩
    · exact absurd h nofun

theorem inv_of_reachable (s₀ : Session B ix)
    (h : Runs.Reachable (start s₀) step (fun _ _ => True) s) : Inv s :=
  h.invariant Inv (inv_start s₀) fun _ _ _ hinv _ hs => inv_step hinv hs

theorem inv_handled {ps : List (Pdu B)} (hinv : Inv s) : ∀ v ∈ handled s ps, Inv v.1 := by
  induction ps generalizing s with
  | nil => exact nofun
  | cons p ps ih =>
    have hrest : ∀ v ∈ (match handlePdu s p with | some s => handled s ps | none => []), Inv v.1 := by
      cases hp : handlePdu s p with
      | none => exact nofun
      | some s₁ => exact ih (inv_handlePdu hinv hp)
    intro v hv
    cases p with
    | login => exact hrest v hv
    | request r =>
      unfold handled at hv
      dsimp only at hv
      split at hv
      · exact absurd hv nofun
      obtain rfl | hv := List.mem_cons.mp hv
      · exact hinv
      · exact hrest v hv

theorem lun_lt_of_reaches {s : Session B ix} {r : Request B} (h : r.Reaches s) :
    r.lun < s.lvs.length := by
  cases r with
  | dataOut d t =>
    obtain ⟨-, -, -, hlun, -⟩ := h
    exact hlun
  | command c t =>
    cases c with
    | reply c => exact absurd h id
    | maintenanceIn => exact absurd h id
    | dummy => exact absurd h id
    | read r =>
      obtain ⟨-, -, lv, hlun, -⟩ := h
      exact (List.getElem?_eq_some_iff.mp hlun).1
    | write w =>
      obtain ⟨lv, hc, -⟩ := h
      exact (List.getElem?_eq_some_iff.mp hc.lun).1

theorem reaches_of_indexes {s : Session B ix} {r : Request B} (h : r.Indexes s) : r.Reaches s := by
  cases r with
  | dataOut d t => exact h.1
  | command c t =>
    cases c with
    | read r => exact h
    | reply c => exact h.1
    | maintenanceIn => exact h.1
    | dummy => exact h.1
    | write w => exact h.1

theorem safe_of_inv (hinv : Inv s) (r : Request B) : Safe s r ↔ s.phase = .ready ∨
    ¬ r.Reaches s.session := by
  constructor
  · intro hsafe
    by_cases hp : s.phase = .ready
    · exact .inl hp
    · exact .inr fun h => not_safe_of_reaches (hinv.before hp) hp h hsafe
  · intro h
    by_cases hp : s.phase = .ready
    · refine ⟨fun hindex => ?_, fun hne => absurd hp hne⟩
      rw [hinv.after hp]
      exact lun_lt_of_reaches (reaches_of_indexes hindex)
    · have hnot := h.resolve_left hp
      exact ⟨fun hindex => absurd (reaches_of_indexes hindex) hnot,
        fun _ => same_of_not_reaches (hinv.before hp) hnot⟩

/-- However the PDUs of a connection are cut into reads: a request uses a cache that is
there, with the outcome that it has after the set-up, if and only if it is handled after
the set-up, or is answered before it gets to the caches. -/
theorem safe_iff_ready (s₀ : Session B ix) (h : Runs.Reachable (start s₀) step (fun _ _ => True) s)
    (reads : List (List (Pdu B))) :
    ∀ v ∈ handled s reads.flatten, (Safe v.1 v.2 ↔ v.1.phase = .ready ∨ ¬ v.2.Reaches v.1.session) :=
  fun v hv => safe_of_inv (inv_handled (inv_of_reachable s₀ h) v hv) v.2

end Phases

section Sample

def sampleStart : State Unit LbaIndex.ofList := start (ReadFormat.sampleSession .init)

/-- A READ of one block of LUN 0. -/
def sampleRequest : Request Unit := .command (.read ⟨8192⟩) ⟨ReadFormat.sampleRead 0 1, 0, []⟩

theorem reaches_sampleRequest {s : Session Unit LbaIndex.ofList}
    (h : s.lvs = [ReadFormat.sampleVolume]) :
    sampleRequest.Reaches s := by
  have haccepted := @ReadFormat.accepted_sampleRead .init 0 1 (by decide) (by decide)
  refine ⟨haccepted.valid, haccepted.final, ReadFormat.sampleVolume, ?_, haccepted.lba,
    haccepted.positive,
    haccepted.inside⟩
  unfold Session.getLUN
  rw [h]
  exact haccepted.lun

theorem reachable_ready :
    Runs.Reachable sampleStart step (fun _ _ => True) ⟨sampleStart.session.setupWriters, .ready⟩ :=
  .step (.step .start (e := .recv [[.login]] true) trivial rfl) (e := .setUp) trivial rfl

/-- A READ that comes in a call of `recv` of the reactor. -/
theorem safe_read_after_setup : Safe ⟨sampleStart.session.setupWriters, .ready⟩ sampleRequest :=
  (safe_iff_ready (ReadFormat.sampleSession .init) reachable_ready [[.request sampleRequest]]
    (⟨sampleStart.session.setupWriters, .ready⟩, sampleRequest) (List.mem_cons_self ..)).mpr (.inl rfl)

/-- A READ in the same read as the last Login. -/
theorem not_safe_read_with_login :
    ¬ ∀ s, Runs.Reachable sampleStart step (fun _ _ => True) s →
      ∀ reads : List (List (Pdu Unit)), ∀ v ∈ handled s reads.flatten, Safe v.1 v.2 := by
  intro h
  have hsafe := h sampleStart .start [[.login, .request sampleRequest]]
    (⟨sampleStart.session, .shifted⟩, sampleRequest)
    (List.mem_cons_self ..)
  have hphase : Phase.shifted ≠ Phase.ready := nofun
  exact not_safe_of_reaches rfl hphase (reaches_sampleRequest rfl) hsafe

end Sample

end WriterSetup

end Sstoraged
