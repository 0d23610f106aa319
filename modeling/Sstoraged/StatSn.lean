import Mathlib.Algebra.Order.Ring.Nat
import Sstoraged.LoginRequired
import Sstoraged.Requests
import Sstoraged.WriteReplies

namespace Sstoraged.StatSn

open ReplyFraming ReadReply ReadFormat WriteReplies Runs

variable {B : Type} {ix : LbaIndex}

/-- A PDU that is queued: whether it carries a status, and its StatSN. -/
structure Reply where
  status : Bool
  statsn : Nat
  deriving DecidableEq

namespace Reply

/-- A SCSI Response carries a status, an R2T does not, and of a Data-In its flags say so. -/
def ofHeader : ReplyHeader → Reply
  | .dataIn h => ⟨hasStatus h, h.statsn⟩
  | .scsiRsp h => ⟨true, h.statsn⟩
  | .r2t h => ⟨false, h.statsn⟩

/-- A PDU begins with the first buffer of a task that sends buffers. -/
def ofTask (s : Session B ix) : Task B → List Reply
  | .send t => (t.cbufs.take 1).map fun p => ofHeader (s.headers p)
  | _ => []

def ofSessionTask : SessionTask → List Reply
  | .sendLogin _ reply => [⟨true, reply.statsn⟩]
  | .sendLogout _ reply => [⟨true, reply.statsn⟩]
  | _ => []

end Reply

/-- What a call has queued behind what was queued before. -/
def queued (s s' : Session B ix) : List Reply :=
  (s'.sendtask.drop s.sendtask.length).flatMap (Reply.ofTask s')

/-- The StatSNs of the PDUs that carry a status. -/
def statuses (rs : List Reply) : List Nat := (rs.filter Reply.status).map Reply.statsn

/-- `LoginHandler::handle` up to the reply and the other tasks that it queues. -/
def answerLogin (cfg : Config) (l : LinearLimitter) (w : Target) (id fd poolnum : Nat)
    (req : LoginRequest) :
    Outcome Pointer Target (Target × LoginReply × List SessionTask) := do
  if !req.valid then .error (.failed w)
  else
    let pairs ← (parsePairs cfg req.data).mapError (Stop.map fun _ => w)
    let (w, tasks) ← w.beginSession id fd req pairs
    let s ← .ofOption ((w.ses id).advanceCMDSNs l poolnum req.immediate)
    let w := w.setSes id s
    w.findConnection id fd
    let statsn := (w.conn fd).statsn
    let (w, reply) ← (w.advanceSTATSN fd).negotiate cfg id pairs
    let w ← w.shiftStage id req.stage
    return (w,
      { flags := LoginRequest.flagTransit ||| (req.currentStage <<< 2 ||| req.stage),
        itt := req.itt, statsn
        expcmdsn := s.window.expcmdsn, maxcmdsn := s.window.maxcmdsn
        sid := s.sid, pairs := reply }, tasks)

/-- `LogoutHandler::handle` up to the reply and the other tasks that it queues. -/
def answerLogout (w : Target) (id fd : Nat) (req : LogoutRequest) :
    Outcome Pointer Target (Target × LogoutReply × List SessionTask) := do
  if !req.valid then .error (.failed w)
  else
    let s := w.ses id
    let (response, tasks) := w.logoutReason id fd req
    w.findConnection id fd
    let reply : LogoutReply :=
      { response, itt := req.itt, time2Wait := s.nums "DefaultTime2Wait" % 2 ^ 16
        time2Retain := s.nums "DefaultTime2Retain" % 2 ^ 16, statsn := (w.conn fd).statsn
        expcmdsn := s.window.expcmdsn, maxcmdsn := s.window.maxcmdsn }
    return (w.advanceSTATSN fd, reply, tasks)

/-- What a handler returns, what it has queued, and the StatSN that it leaves to the
connection. -/
structure Result where
  ok : Bool
  replies : List Reply
  statsn : Nat

namespace Result

def ofSession (s : Session B ix) (r : Bool × Session B ix) : Result := ⟨r.1, queued s r.2, r.2.statsn⟩

/-- The handlers that are no commands queue their replies at their ends, so one that fails
has queued nothing. -/
def ofOutcome {N A : Type} (fd : Nat) (replies : A → List Reply) : Outcome N Target (Target × A) →
    Option Result
  | .ok (w, reply) => some ⟨true, replies reply, (w.conn fd).statsn⟩
  | .error (.failed w) => some ⟨false, [], (w.conn fd).statsn⟩
  | .error _ => none

end Result

/-- The requests, with what the handlers of commands and data find of the session. -/
inductive Call (B : Type) (ix : LbaIndex)
  | login (poolnum : Nat) (req : LoginRequest)
  | logout (req : LogoutRequest)
  | text (poolnum : Nat) (targets : List (String × String)) (req : TextRequest)
  | nopOut (poolnum : Nat) (bhs : Header)
  | nopIn (bhs : Header)
  | taskMng (poolnum : Nat) (bhs : Header)
  | command (poolnum : Nat) (s : Session B ix) (t : Token B)
  | dataOut (s : Session B ix) (t : Token B)

namespace Call

open Result LoginSession

def opCode : Call B ix → Nat
  | login .. => opLoginCmd
  | logout .. => opLogoutCmd
  | text .. => opTextCmd
  | nopOut .. => opNoopOut
  | nopIn .. => opNoopIn
  | taskMng .. => opTaskMgtReq
  | command .. => opScsiCmd
  | dataOut .. => opScsiData

/-- The call goes to the handler that is registered for it. One that does not return has no
result. -/
def run (cfg : Config) (l : LinearLimitter) (w : Target) (id fd : Nat) (c : Call B ix) : Option Result :=
  match (w.ses id).protos c.opCode, c with
  | some .login, login poolnum req =>
    ofOutcome fd (fun a => (SessionTask.sendLogin fd a.1 :: a.2).flatMap Reply.ofSessionTask)
      (answerLogin cfg l w id fd poolnum req)
  | some .logout, logout req =>
    ofOutcome fd (fun a => (SessionTask.sendLogout fd a.1 :: a.2).flatMap Reply.ofSessionTask)
      (answerLogout w id fd req)
  | some .text, text poolnum targets req =>
    ofOutcome fd (fun reply => [⟨true, reply.statsn⟩]) (w.handleText l id fd poolnum targets req)
  | some .nopOut, nopOut poolnum bhs =>
    ofOutcome fd (fun reply => [⟨true, reply.statsn⟩]) (w.handleNopOut l id fd poolnum bhs)
  | some .nopIn, nopIn bhs => some ⟨NopInHandler.handle bhs, [], (w.conn fd).statsn⟩
  | some .taskMng, taskMng poolnum bhs =>
    ofOutcome fd (fun reply => [⟨true, reply.statsn⟩]) (w.handleTaskMng l id fd poolnum bhs)
  | some (.command read write), command poolnum s t =>
    let s := { s with statsn := (w.conn fd).statsn }
    (CommandHandler.handle l read write (w.ses id).window poolnum s t).map fun r => ofSession s r.2
  | some (.dataOut handler), dataOut s t =>
    let s := { s with statsn := (w.conn fd).statsn }
    some (ofSession s (handler.handle s t))
  | _, _ => some ⟨false, [], (w.conn fd).statsn⟩

/-- The StatSN that the connection has when the first request has told its session: a
connection that is restarted takes it over. -/
def initial (cfg : Config) (w : Target) (id fd : Nat) : Call B ix → Nat
  | login _ req =>
    match (parsePairs cfg req.data).toOption.bind fun pairs =>
      (w.beginSession id fd req pairs).toOption with
    | some (w, _) => (w.conn fd).statsn
    | none => (w.conn fd).statsn
  | _ => (w.conn fd).statsn

end Call

/-- A request with the target as it finds it, whatever the other connections have done to
it. -/
structure Event (B : Type) (ix : LbaIndex) where
  target : Target
  id : Nat
  call : Call B ix
  statsn_lt : ∀ fd, (target.conn fd).statsn < 2 ^ 32

/-- A connection: the StatSN that it began with, the next one, the PDUs that were queued
for it, and whether it had a request and a request that failed. -/
structure Conn where
  initial : Nat
  statsn : Nat
  replies : List Reply
  begun : Bool
  failed : Bool

def accepted : Conn := ⟨0, 0, [], false, false⟩

/-- A request is handled for a connection that the session has. The type of the session is
told by the first request, and a request that fails is the last one: `doWork` returns and
cleans up. -/
def step (cfg : Config) (l : LinearLimitter) (fd : Nat) (c : Conn) (e : Event B ix) : Option Conn :=
  if c.failed = false ∧ fd ∈ (e.target.ses e.id).connection ∧ (e.target.conn fd).statsn = c.statsn ∧
      ((e.target.ses e.id).window.type = .login ↔ c.begun = false) then
    (e.call.run cfg l e.target e.id fd).map fun r =>
      { initial := if c.begun then c.initial else e.call.initial cfg e.target e.id fd
        statsn := r.statsn, replies := c.replies ++ r.replies, begun := true, failed := !r.ok }
  else none

/-- The PDUs that carry a status are numbered from the first StatSN on, and the others take
no number. -/
structure Numbered (c : Conn) : Prop where
  reply : ∀ k sn, (statuses c.replies)[k]? = some sn → sn = (c.initial + k) % 2 ^ 32
  next : c.failed = false → c.statsn = (c.initial + (statuses c.replies).length) % 2 ^ 32

/-- What a request does to the numbers: nothing, or it takes one for one status; one that
fails may take one for nothing. -/
inductive Emits (sn : Nat) (r : Result) : Prop
  | silent (replies : statuses r.replies = []) (statsn : r.statsn = sn)
  | status (replies : statuses r.replies = [sn]) (statsn : r.statsn = advanceSn sn)
  | rejected (replies : statuses r.replies = []) (ok : r.ok = false)

variable {s s₁ s' : Session B ix} {sn : Nat}

theorem statuses_append (rs rs' : List Reply) : statuses (rs ++ rs') = statuses rs ++ statuses rs' := by
  rw [statuses, List.filter_append, List.map_append]
  rfl

theorem queued_of_nil (h : s'.sendtask = s.sendtask) : queued s s' = [] := by
  rw [queued, h, List.drop_length, List.flatMap_nil]

theorem queued_append {body : List (Task B)} (h : s'.sendtask = s.sendtask ++ body) :
    queued s s' = body.flatMap (Reply.ofTask s') := by
  rw [queued, h, List.drop_left]

theorem queued_send {p bytes : Nat} (h : s'.sendtask = s.sendtask ++ [.send ⟨[p], bytes⟩]) :
    queued s s' = [Reply.ofHeader (s'.headers p)] := queued_append h

section Handlers

theorem emits_of_queued (h : Queued s s') : Emits s.statsn (.ofSession s (true, s')) := by
  cases h with
  | nothing sendtask statsn =>
    refine .silent ?_ statsn
    rw [Result.ofSession, queued_of_nil sendtask]
    rfl
  | asked p h sendtask header dlength statsn =>
    refine .silent ?_ statsn
    rw [Result.ofSession, queued_send sendtask, header]
    rfl
  | answered p h sendtask header dlength header_statsn statsn =>
    refine .status ?_ statsn
    rw [Result.ofSession, queued_send sendtask, header, ← header_statsn]
    rfl

theorem emits_of_handed {hd : DataInHeader} {bytes : Nat} (h : Handed s s' hd bytes)
    (hstatus : hasStatus hd = true) (hsn : hd.statsn = s.statsn) :
    Emits s.statsn (.ofSession s (true, s')) := by
  obtain ⟨p, hsend, hhead⟩ := h.sendtask
  refine .status ?_ h.statsn
  rw [Result.ofSession, queued_send hsend, hhead, Reply.ofHeader, hstatus, hsn]
  rfl

theorem emits_of_replied {bhs : Header} {size : Nat} {hd : DataInHeader} (h : Replied s bhs s' size hd) :
    Emits s.statsn (.ofSession s (true, s')) := emits_of_handed h.toHanded h.status h.header_statsn

theorem emits_of_nil (h : s'.sendtask = s.sendtask) : Emits sn (.ofSession s (false, s')) := by
  refine .rejected ?_ rfl
  rw [Result.ofSession, queued_of_nil h]
  rfl

section Rejected

variable {bhs : Header}

theorem newDataIn_sendtask (code : UInt8) : (newDataIn bhs code s).2.sendtask = s.sendtask :=
  (newDataIn_open s bhs code).sendtask

theorem set_sendtask (g : DataInGenerator) (f : DataInHeader → DataInHeader) (s : Session B ix) :
    (g.set f s).sendtask = s.sendtask := by
  unfold DataInGenerator.set
  split <;> rfl

theorem set_wcaches (g : DataInGenerator) (f : DataInHeader → DataInHeader) (s : Session B ix) :
    (g.set f s).wcaches = s.wcaches := by
  unfold DataInGenerator.set
  split <;> rfl

theorem reserve_sendtask {g : DataInGenerator} {size : Nat} (h : g.reserveDataSegment size s = some s') :
    s'.sendtask = s.sendtask := by
  unfold DataInGenerator.reserveDataSegment at h
  split at h
  · cases h
  split at h
  · cases h
  · obtain rfl := Option.some.inj h
    exact set_sendtask g _ s

theorem resetDlength_sendtask (g : DataInGenerator) (size : Nat) (s : Session B ix) :
    (g.resetDlength size s).2.sendtask = s.sendtask := by
  unfold DataInGenerator.resetDlength
  split
  · rfl
  split
  · rfl
  dsimp only
  split
  · rfl
  split
  · exact set_sendtask g _ s
  · exact set_sendtask g _ s

theorem inquiry_rejected (h : InquiryHandler.handle s bhs = some (false, s')) :
    s'.sendtask = s.sendtask := by
  unfold InquiryHandler.handle at h
  dsimp only at h
  split at h
  · rw [← (Prod.mk.inj (Option.some.inj h)).2]
  split at h
  · rw [← (Prod.mk.inj (Option.some.inj h)).2, newDataIn_sendtask]
  split at h
  · rw [← (Prod.mk.inj (Option.some.inj h)).2, newDataIn_sendtask]
  · obtain ⟨_, -, heq⟩ := Option.map_eq_some_iff.mp h
    cases heq

theorem readCapacity_rejected {rc : ReadCapacityHandler} (h : rc.handle s bhs = some (false, s')) :
    s'.sendtask = s.sendtask := by
  unfold ReadCapacityHandler.handle at h
  dsimp only at h
  split at h
  · rw [← (Prod.mk.inj (Option.some.inj h)).2]
  split at h
  · obtain ⟨s₁, hreserve, heq⟩ := Option.map_eq_some_iff.mp h
    split at heq
    · rw [← (Prod.mk.inj heq).2, reserve_sendtask hreserve, newDataIn_sendtask]
    · cases heq
  · obtain ⟨_, -, heq⟩ := Option.map_eq_some_iff.mp h
    cases heq

theorem maintenanceIn_rejected (h : MaintenanceInHandler.handle s bhs = some (false, s')) :
    s'.sendtask = s.sendtask := by
  unfold MaintenanceInHandler.handle at h
  dsimp only at h
  split at h
  · rw [← (Prod.mk.inj (Option.some.inj h)).2]
  · obtain ⟨_, -, heq⟩ := Option.map_eq_some_iff.mp h
    cases heq

theorem modeSense_rejected (h : ModeSenseHandler.handle s bhs = some (false, s')) :
    s'.sendtask = s.sendtask := by
  unfold ModeSenseHandler.handle at h
  dsimp only at h
  split at h
  · rw [← (Prod.mk.inj (Option.some.inj h)).2]
  split at h
  · split at h
    · rw [← (Prod.mk.inj (Option.some.inj h)).2, newDataIn_sendtask]
    split at h
    · cases h
    · rw [← (Prod.mk.inj (Option.some.inj h)).2, newDataIn_sendtask]
  rename_i s₁ hreserve
  have hsame : s₁.sendtask = s.sendtask := (reserve_sendtask hreserve).trans (newDataIn_sendtask _)
  split at h
  · rw [← (Prod.mk.inj (Option.some.inj h)).2, hsame]
  split at h
  · rw [← (Prod.mk.inj (Option.some.inj h)).2, hsame]
  split at h
  · rename_i s₂ hreset
    rw [← (Prod.mk.inj (Option.some.inj h)).2, ← congrArg (fun r => r.2.sendtask) hreset,
      resetDlength_sendtask, hsame]
  · cases h

theorem reportLuns_rejected (h : ReportLUNSHandler.handle s bhs = some (false, s')) :
    s'.sendtask = s.sendtask := by
  unfold ReportLUNSHandler.handle at h
  dsimp only at h
  split at h
  · rw [← (Prod.mk.inj (Option.some.inj h)).2]
  obtain ⟨s₁, hreserve, heq⟩ := Option.map_eq_some_iff.mp h
  split at heq
  · rw [← (Prod.mk.inj heq).2, reserve_sendtask hreserve, newDataIn_sendtask]
  · cases heq

theorem dummy_rejected (h : DummyHandler.handle s bhs = (false, s')) : s'.sendtask = s.sendtask := by
  unfold DummyHandler.handle at h
  dsimp only at h
  generalize (Parser.mk bhs).getEXPDATALEN = exp at h
  split at h
  · rw [← (Prod.mk.inj h).2]
  · cases h

theorem write_rejected (w : WriteHandler) {t : Token B} (h : w.handle s t = (false, s')) :
    s'.sendtask = s.sendtask := by
  obtain hfalse | ⟨lv, -, ⟨-, heq⟩ | ⟨-, ws, -, -, heq⟩⟩ := w.handle_cases s t
  · rw [← (Prod.mk.inj (h.symm.trans hfalse)).2]
  · cases h.symm.trans heq
  · have hfinish := heq.symm.trans h
    unfold WriteHandler.finish at hfinish
    dsimp only at hfinish
    generalize u32 _ = remain at hfinish
    split at hfinish
    · split at hfinish
      · rw [← (Prod.mk.inj hfinish).2, Session.store_sendtask]
      · cases hfinish
    · cases hfinish

theorem finish_rejected (d : DataOutHandler) {dinfo : DataOutInfo}
    (h : d.finish s bhs dinfo = (false, s')) :
    s' = s := by
  rw [DataOutHandler.finish] at h
  dsimp only at h
  split at h
  · exact (Prod.mk.inj h).2.symm
  split at h
  · cases h
  split at h
  · cases h
  · cases h

theorem dataOut_rejected (d : DataOutHandler) {t : Token B} (h : d.handle s t = (false, s')) :
    s'.sendtask = s.sendtask := by
  obtain hfalse | ⟨dinfo, -, -, ⟨-, heq⟩ | ⟨ws, -, -, heq⟩⟩ := d.handle_cases s t
  · rw [← (Prod.mk.inj (h.symm.trans hfalse)).2]
  · rw [finish_rejected d (heq.symm.trans h)]
  · rw [finish_rejected d (heq.symm.trans h), Session.store_sendtask]

end Rejected

section Read

/-- The generator of a reply whose header has no flags yet. -/
structure Blank (sn : Nat) (g : DataInGenerator) (s : Session B ix) : Prop where
  lt : g.cbuf < s.next
  header : ∃ hd, s.headers g.cbuf = .dataIn hd ∧ hd.flags = 0 ∧ hd.statsn = sn

variable {g : DataInGenerator} {hd : DataInHeader}

theorem serialize_statsn (g : DataInGenerator) (s : Session B ix) :
    (g.serialize s).statsn = s.statsn := by
  unfold DataInGenerator.serialize
  split <;> rfl

theorem pushHeader_blank (h : ReadHandler) (tl : Nat) (hb : Blank sn g s) :
    ∃ length last s₁ hd, h.pushHeader g tl s = (length, last, s₁) ∧ Pushed g.cbuf hd s s₁ ∧
      s₁.statsn = s.statsn ∧ hd.statsn = sn ∧ hd.flags = if last then finalFlags else 0 := by
  obtain ⟨hd, hhead, hflags, hsn⟩ := hb.header
  have hstatsn : ∀ hd', ((g.serialize (putHeader s g.cbuf hd')).pushSend g.cbuf).statsn = s.statsn :=
    fun hd' => serialize_statsn g _
  unfold ReadHandler.pushHeader
  split
  · rw [DataInGenerator.setDlength, set_dataIn _ hhead]
    exact ⟨_, _, _, _, rfl, serialize_pushed g s _, hstatsn _, hsn, hflags⟩
  · rw [DataInGenerator.setCmdStatus, set_dataIn _ hhead, DataInGenerator.setDlength,
      set_dataIn _ (putHeader_self _ _ _), putHeader_putHeader]
    refine ⟨_, _, _, _, rfl, serialize_pushed g s _, hstatsn _, hsn, ?_⟩
    dsimp only
    rw [hflags]
    decide

/-- The header of the next PDU is that of the last one but for its place in the data. -/
structure Next (sn : Nat) (s : Session B ix) (r : DataInGenerator × Session B ix) : Prop where
  cbuf : r.1.cbuf = s.next
  blank : Blank sn r.1 r.2
  sendtask : r.2.sendtask = s.sendtask
  statsn : r.2.statsn = s.statsn
  headers : ∀ q < s.next, r.2.headers q = s.headers q

theorem nextHeader_next (length : Nat) (hb : Blank sn g s) : Next sn s (nextHeader g length s) := by
  obtain ⟨hd, hhead, hflags, hsn⟩ := hb.header
  obtain ⟨bufs, hser, -, -⟩ := serialize_spec hhead
  let s₁ := { s with bufs }.alloc (CommonBuf.new.stepForwardTail (bufs g.cbuf).getRemain)
    (s.headers g.cbuf)
  have hrep : g.replica s = (⟨s.next, g.datasnGen⟩, s₁) := by
    rw [DataInGenerator.replica, hser]
  have hs₁ : s₁.headers s.next = .dataIn hd := (Function.update_self ..).trans hhead
  have hnext : nextHeader g length s = (⟨s.next, advanceSn g.datasnGen⟩,
      putHeader s₁ s.next
        { hd with datasn := g.datasnGen, offset := u32 (hd.offset + lba2Offset length) }) := by
    rw [nextHeader, hrep]
    dsimp only
    rw [DataInGenerator.advanceDataSN, set_dataIn ⟨s.next, g.datasnGen⟩ hs₁]
    dsimp only
    rw [DataInGenerator.addOffset, set_dataIn ⟨s.next, advanceSn g.datasnGen⟩ (putHeader_self _ _ _),
      putHeader_putHeader]
  rw [hnext]
  refine ⟨rfl, ⟨Nat.lt_succ_self _, _, putHeader_self _ _ _, hflags, hsn⟩, rfl, rfl, fun q hq => ?_⟩
  change Function.update (Function.update s.headers s.next _) s.next _ q = s.headers q
  rw [Function.update_of_ne hq.ne, Function.update_of_ne hq.ne]

/-- What the loop over the PDUs does to the numbers: one status, or none when it fails. -/
structure Looped (sn : Nat) (g : DataInGenerator) (s : Session B ix) (ok : Bool) (s' : Session B ix)
    (body : List (Task B)) : Prop where
  sendtask : s'.sendtask = s.sendtask ++ body
  statsn : s'.statsn = s.statsn
  headers : ∀ q < g.cbuf, s'.headers q = s.headers q
  statuses : statuses (body.flatMap (Reply.ofTask s')) = [sn] ∨
    ok = false ∧ statuses (body.flatMap (Reply.ofTask s')) = []

theorem ofTask_data {ts : List (Task B)} (hts : ∀ t ∈ ts, DataTask t) (s : Session B ix) :
    ts.flatMap (Reply.ofTask s) = [] := by
  refine List.flatMap_eq_nil_iff.mpr fun t ht => ?_
  cases t with
  | send u => exact absurd rfl (not_send (hts _ ht) u)
  | cork | uncork | sendfile _ | sendCache _ => rfl

theorem statuses_pushed {p bytes : Nat} {last : Bool} {ts : List (Task B)} (hts : ∀ t ∈ ts, DataTask t)
    (hhead : s'.headers p = .dataIn hd) (hsn : hd.statsn = sn)
    (hflags : hd.flags = if last then finalFlags else 0) (body : List (Task B)) :
    statuses ((Task.send ⟨[p], bytes⟩ :: (ts ++ body)).flatMap (Reply.ofTask s')) =
      (if last then [sn] else []) ++ statuses (body.flatMap (Reply.ofTask s')) := by
  have hone : Reply.ofTask s' (Task.send ⟨[p], bytes⟩ : Task B) = [⟨hasStatus hd, sn⟩] := by
    rw [Reply.ofTask, List.take_succ_cons, List.map_cons, hhead, Reply.ofHeader, hsn]
    rfl
  rw [List.flatMap_cons, List.flatMap_append, ofTask_data hts, List.nil_append, hone, statuses_append]
  congr 1
  cases last with
  | true =>
    rw [hasStatus, hflags]
    rfl
  | false =>
    rw [hasStatus, hflags]
    rfl

theorem dataInLoop_looped (h : ReadHandler) {data : Nat → Nat → Option (List (Task B) × Nat)}
    (hdata : ∀ a len ts b, data a len = some (ts, b) → ∀ t ∈ ts, DataTask t) (fuel : Nat) :
    ∀ {g : DataInGenerator} {lba tl : Nat} {s : Session B ix} {ok : Bool}, Blank sn g s →
      h.dataInLoop data fuel g lba tl s = some (ok, s') → ∃ body, Looped sn g s ok s' body := by
  induction fuel with
  | zero =>
    intro g lba tl s ok _ heq
    cases heq
  | succ fuel ih =>
    intro g lba tl s ok hb heq
    obtain ⟨length, last, s₁, hd, hp, hpushed, hstatsn, hsn, hflags⟩ := pushHeader_blank h tl hb
    have hhead : s₁.headers g.cbuf = .dataIn hd := by
      rw [hpushed.headers, Function.update_self]
    have hframe : ∀ q < g.cbuf, s₁.headers q = s.headers q := by
      intro q hq
      rw [hpushed.headers, Function.update_of_ne hq.ne]
    rw [dataInLoop_succ h data fuel g lba tl s hp] at heq
    cases hd' : data lba length with
    | none =>
      rw [hd'] at heq
      obtain ⟨rfl, rfl⟩ := Prod.mk.inj (Option.some.inj heq)
      refine ⟨_, hpushed.sendtask, hstatsn, hframe, ?_⟩
      have hnil : ∀ t ∈ ([] : List (Task B)), DataTask t := fun _ ht => absurd ht List.not_mem_nil
      have hone : statuses ([Task.send ⟨[g.cbuf], (s₁.bufs g.cbuf).getRemain⟩].flatMap
        (Reply.ofTask s₁)) =
          (if last then [sn] else []) ++ [] := statuses_pushed hnil hhead hsn hflags []
      rw [hone]
      cases last with
      | true => exact .inl rfl
      | false => exact .inr ⟨rfl, rfl⟩
    | some r =>
      obtain ⟨ts, lba'⟩ := r
      have hts := hdata _ _ _ _ hd'
      rw [hd'] at heq
      dsimp only at heq
      split at heq
      · rename_i hlast
        obtain ⟨rfl, rfl⟩ := Prod.mk.inj (Option.some.inj heq)
        refine ⟨.send ⟨[g.cbuf], (s₁.bufs g.cbuf).getRemain⟩ :: (ts ++ []), ?_, hstatsn, hframe, .inl ?_⟩
        · dsimp only
          rw [hpushed.sendtask, List.append_assoc, List.append_nil]
          rfl
        · have hhead₂ : { s₁ with sendtask := s₁.sendtask ++ ts }.headers g.cbuf = .dataIn hd := hhead
          rw [statuses_pushed hts hhead₂ hsn hflags, if_pos hlast]
          rfl
      · rename_i hlast
        have hb₂ : Blank sn g { s₁ with sendtask := s₁.sendtask ++ ts } := by
          refine ⟨?_, hd, hhead, ?_, hsn⟩
          · dsimp only
            rw [hpushed.next]
            exact hb.lt
          · rw [hflags, if_neg hlast]
        have hnext := nextHeader_next length hb₂
        have hlt : g.cbuf < (nextHeader g length { s₁ with sendtask := s₁.sendtask ++ ts }).1.cbuf := by
          rw [hnext.cbuf]
          exact hb₂.lt
        obtain ⟨body, hl⟩ := ih hnext.blank heq
        have hkept : ∀ q ≤ g.cbuf, s'.headers q = s₁.headers q := fun q hq =>
          (hl.headers q (hq.trans_lt hlt)).trans (hnext.headers q (hq.trans_lt hb₂.lt))
        refine ⟨.send ⟨[g.cbuf], (s₁.bufs g.cbuf).getRemain⟩ :: (ts ++ body), ?_, ?_, fun q hq => ?_, ?_⟩
        · rw [hl.sendtask, hnext.sendtask]
          dsimp only
          rw [hpushed.sendtask, List.append_assoc, List.append_assoc]
          rfl
        · rw [hl.statsn, hnext.statsn, ← hstatsn]
        · rw [hkept q hq.le, hframe q hq]
        · rw [statuses_pushed hts ((hkept _ le_rfl).trans hhead) hsn hflags, if_neg hlast,
            List.nil_append]
          exact hl.statuses

theorem read_cases (h : ReadHandler) {bhs : Header} {r : Bool × Session B ix}
    (heq : h.handle s bhs = some r) :
    r = (false, s) ∨ ∃ lv wc, Accepted s bhs lv wc := by
  unfold ReadHandler.handle at heq
  dsimp only at heq
  split at heq
  · exact .inl (Option.some.inj heq).symm
  rename_i hvalid
  split at heq
  · exact .inl (Option.some.inj heq).symm
  rename_i hfinal
  split at heq
  · exact .inl (Option.some.inj heq).symm
  rename_i lv hlun
  split at heq
  · exact .inl (Option.some.inj heq).symm
  rename_i hrange
  split at heq
  · cases heq
  rename_i wc hwc
  rw [set_wcaches] at hwc
  refine .inr ⟨lv, wc, by simpa using hvalid, by simpa using hfinal, hlun, hwc, ?_, ?_, ?_⟩
  · rw [lbaOf]
    omega
  · rw [lengthOf]
    omega
  · rw [lbaOf, lengthOf]
    omega

theorem read_emits (h : ReadHandler) {bhs : Header} {r : Bool × Session B ix}
    (heq : h.handle s bhs = some r) :
    Emits s.statsn (.ofSession s r) := by
  obtain rfl | ⟨lv, wc, hacc⟩ := read_cases h heq
  · exact emits_of_nil rfl
  obtain ⟨base, reply, s₀, ⟨hflags, hsn⟩, ⟨hnext, -, dlength, hhead⟩, ⟨hsend, hstatsn⟩, -, hloop⟩ :=
    handle_start h hacc
  have hblank : Blank s.statsn reply s₀ := ⟨hnext ▸ Nat.lt_succ_self _, _, hhead, hflags, hsn⟩
  rw [hloop, Option.map_eq_some_iff] at heq
  obtain ⟨⟨ok, s₁⟩, hrun, rfl⟩ := heq
  obtain ⟨body, hl⟩ := dataInLoop_looped h (dataTask_dataOf lv (cacheOf wc bhs)) _ hblank hrun
  have hsend₁ : s₁.sendtask = s.sendtask ++ .cork :: body := by
    rw [hl.sendtask, hsend, List.append_assoc]
    rfl
  have hfail : queued s s₁ = body.flatMap (Reply.ofTask s₁) := by
    rw [queued_append hsend₁]
    rfl
  have hsend₂ : (s₁.push .uncork).sendtask = s.sendtask ++ .cork :: (body ++ [.uncork]) := by
    rw [Session.push_sendtask, hsend₁, List.append_assoc]
    rfl
  have hdone : queued s (s₁.push .uncork) = body.flatMap (Reply.ofTask s₁) := by
    rw [queued_append hsend₂, List.flatMap_cons, List.flatMap_append]
    exact List.append_nil _
  have hsn₁ : s₁.statsn = advanceSn s.statsn := hl.statsn.trans hstatsn
  cases ok with
  | true =>
    obtain hone | ⟨hfalse, -⟩ := hl.statuses
    · exact .status ((congrArg statuses hdone).trans hone) hsn₁
    · exact absurd hfalse.symm Bool.false_ne_true
  | false =>
    obtain hone | ⟨-, hnone⟩ := hl.statuses
    · exact .status ((congrArg statuses hfail).trans hone) hsn₁
    · exact .rejected ((congrArg statuses hfail).trans hnone) rfl

end Read

theorem command_emits (c : CdbBytes.Command) {t : Token B} {r : Bool × Session B ix}
    (h : c.handle s t = some r) : Emits s.statsn (.ofSession s r) := by
  obtain ⟨ok, s'⟩ := r
  cases c with
  | read rd => exact read_emits rd h
  | reply c =>
    cases c with
    | inquiry =>
      cases ok with
      | true =>
        obtain ⟨_, _, -, hreplied⟩ := inquiry_replied h
        exact emits_of_replied hreplied
      | false => exact emits_of_nil (inquiry_rejected h)
    | readCapacity | readCapacity16 =>
      cases ok with
      | true =>
        obtain ⟨_, hreplied⟩ := readCapacity_replied (by decide) (by decide) h
        exact emits_of_replied hreplied
      | false => exact emits_of_nil (readCapacity_rejected h)
    | modeSense =>
      cases ok with
      | true =>
        obtain ⟨_, _, -, -, hreplied⟩ := modeSense_replied h
        exact emits_of_replied hreplied
      | false => exact emits_of_nil (modeSense_rejected h)
    | reportLuns =>
      cases ok with
      | true =>
        obtain ⟨_, -, hstatus, hsn, hhanded⟩ := reportLuns_handed h
        exact emits_of_handed hhanded hstatus hsn
      | false => exact emits_of_nil (reportLuns_rejected h)
  | maintenanceIn =>
    cases ok with
    | true =>
      obtain ⟨_, hreplied⟩ := maintenanceIn_replied h
      exact emits_of_replied hreplied
    | false => exact emits_of_nil (maintenanceIn_rejected h)
  | dummy =>
    cases ok with
    | true => exact emits_of_queued (dummy_queued (Option.some.inj h))
    | false => exact emits_of_nil (dummy_rejected (Option.some.inj h))
  | write w =>
    cases ok with
    | true => exact emits_of_queued (write_queued w (Option.some.inj h))
    | false => exact emits_of_nil (write_rejected w (Option.some.inj h))

theorem dataOut_emits (d : DataOutHandler) (t : Token B) :
    Emits s.statsn (.ofSession s (d.handle s t)) := by
  obtain ⟨ok, s', h⟩ : ∃ ok s', d.handle s t = (ok, s') := ⟨_, _, rfl⟩
  rw [h]
  cases ok with
  | true => exact emits_of_queued (dataOut_queued d h)
  | false => exact emits_of_nil (dataOut_rejected d h)

theorem commandHandler_emits {l : LinearLimitter} {read : ReadHandler} {write : WriteHandler}
    {window : CommandWindow} {poolnum : Nat} {t : Token B} {r : CommandWindow × Bool × Session B ix}
    (h : CommandHandler.handle l read write window poolnum s t = some r) :
    Emits s.statsn (.ofSession s r.2) := by
  unfold CommandHandler.handle at h
  split at h
  · obtain rfl := Option.some.inj h
    exact emits_of_nil rfl
  obtain ⟨window', -, h⟩ := Option.bind_eq_some_iff.mp h
  dsimp only at h
  split at h
  · obtain rfl := Option.some.inj h
    exact emits_of_nil rfl
  · rename_i c _
    obtain ⟨r', hc, rfl⟩ := Option.map_eq_some_iff.mp h
    have hemits := command_emits c hc
    exact hemits

end Handlers

section Connections

open Outcome Target

variable {cfg : Config} {l : LinearLimitter} {w w₁ w' : Target} {id fd poolnum : Nat}
  {tasks : List SessionTask}

/-- The StatSNs of all connections. -/
def statsns (w : Target) (fd : Nat) : Nat := (w.conn fd).statsn

theorem statsns_setConn (c : ISCSIConnection) :
    statsns (w.setConn fd c) = Function.update (statsns w) fd c.statsn := by
  funext fd'
  change (Function.update w.conn fd c fd').statsn = _
  by_cases h : fd' = fd
  · subst h
    rw [Function.update_self, Function.update_self]
  · rw [Function.update_of_ne h, Function.update_of_ne h]
    rfl

theorem statsns_setConn_same {c : ISCSIConnection} (h : c.statsn = statsns w fd) :
    statsns (w.setConn fd c) = statsns w := by
  rw [statsns_setConn, h, Function.update_eq_self]

theorem statsns_advanceSTATSN :
    statsns (w.advanceSTATSN fd) = Function.update (statsns w) fd (advanceSn (statsns w fd)) :=
  statsns_setConn _

theorem statsns_setSid (sid cid : Nat) : statsns (w.setSid id fd sid cid) = statsns w :=
  statsns_setConn_same (w := w.setSes id { w.ses id with sid }) rfl

theorem statsns_leaveListener : statsns (w.leaveListener fd) = statsns w := by
  unfold leaveListener
  split <;> rfl

theorem statsns_changeListener (r : Nat) : statsns (w.changeListener fd r) = statsns w :=
  (statsns_setConn_same (w := w.leaveListener fd)
    (c := { (w.leaveListener fd).conn fd with listener := some (.reactor r) }) rfl).trans
      statsns_leaveListener

theorem statsns_addConnection (old : Nat) : statsns (w.addConnection old fd) = statsns w := by
  unfold addConnection
  split <;> rfl

theorem statsns_setTSIH : statsns (w.setTSIH id) = statsns w := by
  unfold setTSIH
  split <;> rfl

/-- The StatSNs are as before, but for one connection that may take over another's. -/
def TakesOver (fd : Nat) (w w' : Target) : Prop :=
  ∃ fd', statsns w' = Function.update (statsns w) fd (statsns w fd')

theorem takesOver_of_eq (h : statsns w' = statsns w) : TakesOver fd w w' :=
  ⟨fd, h.trans (Function.update_eq_self ..).symm⟩

theorem ends_findConnection {failed : Target → Prop} :
    Ends (fun _ => True) failed (fun _ => True) (w.findConnection id fd) := by
  unfold findConnection
  split
  · exact trivial
  · exact trivial

theorem joinSession_ends {r : Nat} {req : LoginRequest} :
    Ends (fun _ => True) (fun w' => statsns w' = statsns w) (TakesOver fd w)
      (w.joinSession id fd r req) := by
  unfold joinSession
  dsimp only
  split
  · split
    · exact rfl
    · refine .bind ends_findConnection fun _ _ => ⟨req.cid, ?_⟩
      rw [statsns_addConnection, statsns_changeListener]
      exact statsns_setConn _
  · refine .bind ends_findConnection fun _ _ => takesOver_of_eq ?_
    rw [statsns_addConnection, statsns_changeListener]

/-- The session begins without a reply. -/
structure Begun (fd : Nat) (w w' : Target) (tasks : List SessionTask) : Prop where
  takesOver : TakesOver fd w w'
  silent : tasks.flatMap Reply.ofSessionTask = []

theorem begun_setSid (sid cid : Nat) (h : tasks.flatMap Reply.ofSessionTask = []) :
    Begun fd w (w.setSid id fd sid cid) tasks := ⟨takesOver_of_eq (statsns_setSid sid cid), h⟩

theorem handle1stRequest_ends {req : LoginRequest} :
    Ends (fun _ => True) (fun w' => statsns w' = statsns w) (fun p => Begun fd w p.1 p.2)
      (w.handle1stRequest id fd req) := by
  unfold handle1stRequest
  split
  · unfold handle1stDiscoveryRequest
    split
    · exact rfl
    · exact .bind ends_findConnection fun _ _ => begun_setSid _ _ rfl
  · unfold handle1stNormalRequest
    split
    · split
      · exact rfl
      · exact .bind ends_findConnection fun _ _ => begun_setSid _ _ rfl
    · dsimp only
      split
      · exact .bind ends_findConnection fun _ _ => begun_setSid _ _ rfl
      split
      · exact rfl
      · refine .bind joinSession_ends fun w₁ hjoin => ?_
        obtain ⟨fd', heq⟩ := hjoin
        exact ⟨⟨fd', (statsns_setSid _ _).trans heq⟩, rfl⟩
  · exact rfl

theorem beginSession_ends {req : LoginRequest} {pairs : List (String × String)} :
    Ends (fun _ => True) (fun w' => statsns w' = statsns w) (fun p => Begun fd w p.1 p.2)
      (w.beginSession id fd req pairs) := by
  unfold beginSession
  split
  · exact handle1stRequest_ends.mono (fun _ h => h) fun _ h => ⟨h.takesOver, h.silent⟩
  · exact ⟨takesOver_of_eq rfl, rfl⟩

theorem negotiate_ends {pairs : List (String × String)} :
    Ends (fun _ => True) (fun w' => statsns w' = statsns w) (fun p => statsns p.1 = statsns w)
      (w.negotiate cfg id pairs) :=
  .bind ((ends_trivial _).mapStop fun _ _ => rfl) fun _ _ => rfl

theorem shiftStage_ends {nsg : UInt8} :
    Ends (fun _ => True) (fun w' => statsns w' = statsns w) (fun w' => statsns w' = statsns w)
      (w.shiftStage id nsg) := by
  unfold shiftStage
  split
  · exact rfl
  split
  · exact .bind ((ends_trivial _).mapStop fun _ _ => statsns_setTSIH) fun _ _ => statsns_setTSIH
  · exact rfl

theorem handleLogin_eq (addr : SessionTask → Nat) (req : LoginRequest) :
    w.handleLogin cfg l id fd poolnum addr req = answerLogin cfg l w id fd poolnum req >>= fun a =>
      return a.1.pushTasks id addr (.sendLogin fd a.2.1 :: a.2.2) := by
  unfold handleLogin answerLogin
  split
  · rfl
  · simp only [bind_assoc, pure_bind]

theorem handleLogout_eq (addr : SessionTask → Nat) (req : LogoutRequest) :
    w.handleLogout id fd addr req = answerLogout w id fd req >>= fun a =>
      return a.1.pushTasks id addr (.sendLogout fd a.2.1 :: a.2.2) := by
  unfold handleLogout answerLogout
  split
  · rfl
  · simp only [bind_assoc, pure_bind]

theorem answerLogin_statsns {req : LoginRequest} {reply : LoginReply}
    (h : answerLogin cfg l w id fd poolnum req = .ok (w', reply, tasks)) :
    ∃ pairs w₁, parsePairs cfg req.data = .ok pairs ∧ w.beginSession id fd req pairs = .ok (w₁, tasks) ∧
      reply.statsn = statsns w₁ fd ∧
      statsns w' = Function.update (statsns w₁) fd (advanceSn (statsns w₁ fd)) := by
  unfold answerLogin at h
  split at h
  · cases h
  obtain ⟨pairs, hparse, h⟩ := of_bind_ok h
  obtain ⟨⟨w₁, tasks₁⟩, hbegin, h⟩ := of_bind_ok h
  obtain ⟨s, -, h⟩ := of_bind_ok h
  obtain ⟨_, -, h⟩ := of_bind_ok h
  obtain ⟨⟨w₂, reply₂⟩, hneg, h⟩ := of_bind_ok h
  obtain ⟨w₃, hshift, h⟩ := of_bind_ok h
  obtain ⟨rfl, hrest⟩ := Prod.mk.inj (Except.ok.inj h)
  obtain ⟨rfl, rfl⟩ := Prod.mk.inj hrest
  refine ⟨pairs, w₁, of_mapError_ok hparse, hbegin, rfl, ?_⟩
  rw [shiftStage_ends.of_ok hshift, negotiate_ends.of_ok hneg, statsns_advanceSTATSN]
  rfl

theorem logoutReason_silent (req : LogoutRequest) :
    (w.logoutReason id fd req).2.flatMap Reply.ofSessionTask = [] := by
  have hend : Reply.ofSessionTask (w.endSessionTask id) = [] := by
    rw [endSessionTask]
    split <;> rfl
  unfold logoutReason
  split
  · rw [List.flatMap_singleton, hend]
  split
  · split
    · rfl
    · rw [List.flatMap_singleton, hend]
  · split <;> rfl

theorem answerLogout_statsns {req : LogoutRequest} {reply : LogoutReply}
    (h : answerLogout w id fd req = .ok (w', reply, tasks)) :
    reply.statsn = statsns w fd ∧ tasks.flatMap Reply.ofSessionTask = [] ∧
      statsns w' = Function.update (statsns w) fd (advanceSn (statsns w fd)) := by
  unfold answerLogout at h
  split at h
  · cases h
  obtain ⟨_, -, h⟩ := of_bind_ok h
  obtain ⟨rfl, hrest⟩ := Prod.mk.inj (Except.ok.inj h)
  obtain ⟨hreply, htasks⟩ := Prod.mk.inj hrest
  refine ⟨congrArg LogoutReply.statsn hreply.symm, ?_, statsns_advanceSTATSN⟩
  have hsilent : (w.logoutReason id fd req).2.flatMap Reply.ofSessionTask = [] := logoutReason_silent req
  rw [← htasks]
  exact hsilent

theorem stepCounters_statsns {immediate : Bool} {window : CommandWindow} {statsn : Nat}
    (h : w.stepCounters l id fd poolnum immediate = .ok (w', window, statsn)) :
    statsn = statsns w fd ∧ statsns w' = Function.update (statsns w) fd (advanceSn (statsns w fd)) := by
  obtain ⟨s, -, h⟩ := of_bind_ok h
  obtain ⟨_, -, h⟩ := of_bind_ok h
  obtain ⟨rfl, hrest⟩ := Prod.mk.inj (Except.ok.inj h)
  obtain ⟨-, rfl⟩ := Prod.mk.inj hrest
  exact ⟨rfl, statsns_advanceSTATSN⟩

theorem handleText_statsns {targets : List (String × String)} {req : TextRequest} {reply : TextReply}
    (h : w.handleText l id fd poolnum targets req = .ok (w', reply)) :
    reply.statsn = statsns w fd ∧
      statsns w' = Function.update (statsns w) fd (advanceSn (statsns w fd)) := by
  unfold handleText at h
  split at h
  · cases h
  obtain ⟨attrs, -, h⟩ := of_bind_ok h
  obtain ⟨s, -, h⟩ := of_bind_ok h
  dsimp only at h
  split at h
  · cases h
  split at h
  · cases h
  split at h
  · cases h
  · obtain ⟨rfl, rfl⟩ := Prod.mk.inj (Except.ok.inj h)
    exact ⟨rfl, statsns_advanceSTATSN⟩

theorem handleNopOut_statsns {bhs : Header} {reply : NopInReply}
    (h : w.handleNopOut l id fd poolnum bhs = .ok (w', reply)) :
    reply.statsn = statsns w fd ∧
      statsns w' = Function.update (statsns w) fd (advanceSn (statsns w fd)) := by
  unfold handleNopOut at h
  split at h
  · cases h
  obtain ⟨⟨w₁, window, statsn⟩, hstep, h⟩ := of_bind_ok h
  obtain ⟨rfl, rfl⟩ := Prod.mk.inj (Except.ok.inj h)
  exact stepCounters_statsns hstep

theorem handleTaskMng_statsns {bhs : Header} {reply : TaskMngReply}
    (h : w.handleTaskMng l id fd poolnum bhs = .ok (w', reply)) :
    reply.statsn = statsns w fd ∧
      statsns w' = Function.update (statsns w) fd (advanceSn (statsns w fd)) := by
  unfold handleTaskMng at h
  split at h
  · cases h
  obtain ⟨⟨w₁, window, statsn⟩, hstep, h⟩ := of_bind_ok h
  obtain ⟨rfl, rfl⟩ := Prod.mk.inj (Except.ok.inj h)
  exact stepCounters_statsns hstep

theorem emits_of_outcome {N A : Type} {replies : A → List Reply}
    {x : Outcome N Target (Target × A)} {sn : Nat}
    {r : Result} (hok : ∀ w' a, x = .ok (w', a) → statuses (replies a) = [sn] ∧
      statsns w' fd = advanceSn sn)
    (h : Result.ofOutcome fd replies x = some r) : Emits sn r := by
  match x, h with
  | .ok (w', a), h =>
    obtain rfl := Option.some.inj h
    obtain ⟨hreply, hstatsn⟩ := hok w' a rfl
    exact .status hreply hstatsn
  | .error (.failed _), h =>
    obtain rfl := Option.some.inj h
    exact .rejected rfl rfl

theorem emits_of_statsns {N A : Type} {statsn : A → Nat} {x : Outcome N Target (Target × A)} {r : Result}
    (hok : ∀ w' a, x = .ok (w', a) → statsn a = statsns w fd ∧
      statsns w' = Function.update (statsns w) fd (advanceSn (statsns w fd)))
    (h : Result.ofOutcome fd (fun a => [⟨true, statsn a⟩]) x = some r) : Emits (statsns w fd) r := by
  refine emits_of_outcome (fun w' a hx => ?_) h
  obtain ⟨hreply, hstatsns⟩ := hok w' a hx
  rw [hstatsns, Function.update_self]
  exact ⟨congrArg (fun n => [n]) hreply, rfl⟩

theorem initial_login {req : LoginRequest} {pairs : List (String × String)}
    (hparse : parsePairs cfg req.data = .ok pairs)
    (hbegin : w.beginSession id fd req pairs = .ok (w', tasks)) :
    (Call.login poolnum req : Call B ix).initial cfg w id fd = statsns w' fd := by
  rw [Call.initial, hparse]
  change (match (w.beginSession id fd req pairs).toOption with
    | some (w, _) => (w.conn fd).statsn
    | none => (w.conn fd).statsn) = statsns w' fd
  rw [hbegin]
  rfl

theorem run_emits {c : Call B ix} {r : Result} (h : c.run cfg l w id fd = some r) :
    Emits (c.initial cfg w id fd) r := by
  unfold Call.run at h
  split at h
  · refine emits_of_outcome (fun w' a hx => ?_) h
    obtain ⟨reply, tasks⟩ := a
    obtain ⟨pairs, w₁, hparse, hbegin, hreply, hstatsns⟩ := answerLogin_statsns hx
    rw [initial_login hparse hbegin, hstatsns, Function.update_self, List.flatMap_cons,
      (beginSession_ends.of_ok hbegin).silent, ← hreply]
    exact ⟨rfl, rfl⟩
  · refine emits_of_outcome (fun w' a hx => ?_) h
    obtain ⟨reply, tasks⟩ := a
    obtain ⟨hreply, hsilent, hstatsns⟩ := answerLogout_statsns hx
    rw [hstatsns, Function.update_self, List.flatMap_cons, hsilent]
    exact ⟨congrArg (fun n => [n]) hreply, rfl⟩
  · exact emits_of_statsns (fun _ _ => handleText_statsns) h
  · exact emits_of_statsns (fun _ _ => handleNopOut_statsns) h
  · obtain rfl := Option.some.inj h
    exact .silent rfl rfl
  · exact emits_of_statsns (fun _ _ => handleTaskMng_statsns) h
  · obtain ⟨r', hr', rfl⟩ := Option.map_eq_some_iff.mp h
    have hemits := commandHandler_emits hr'
    exact hemits
  · rename_i handler s t _
    obtain rfl := Option.some.inj h
    have hemits := dataOut_emits (s := { s with statsn := (w.conn fd).statsn }) handler t
    exact hemits
  · obtain rfl := Option.some.inj h
    exact .rejected rfl rfl

theorem initial_of_type {c : Call B ix} (h : (w.ses id).window.type ≠ .login) :
    c.initial cfg w id fd = statsns w fd := by
  cases c with
  | login poolnum req =>
    rw [Call.initial]
    cases hparse : parsePairs cfg req.data with
    | error e => rfl
    | ok pairs =>
      change (match (w.beginSession id fd req pairs).toOption with
        | some (w, _) => (w.conn fd).statsn
        | none => (w.conn fd).statsn) = statsns w fd
      rw [beginSession, if_neg h]
      rfl
  | logout | text | nopOut | nopIn | taskMng | command | dataOut => rfl

theorem initial_lt {c : Call B ix} (h : ∀ fd, statsns w fd < 2 ^ 32) :
    c.initial cfg w id fd < 2 ^ 32 := by
  cases c with
  | login poolnum req =>
    rw [Call.initial]
    split
    · rename_i w' tasks heq
      obtain ⟨pairs, -, hbegin⟩ := Option.bind_eq_some_iff.mp heq
      have hok : w.beginSession id fd req pairs = .ok (w', tasks) := by
        cases hx : w.beginSession id fd req pairs with
        | ok p =>
          rw [hx] at hbegin
          exact congrArg _ (Option.some.inj hbegin)
        | error e =>
          rw [hx] at hbegin
          exact absurd hbegin (Option.some_ne_none _).symm
      obtain ⟨fd', hstatsns⟩ := (beginSession_ends.of_ok hok).takesOver
      have hself : statsns w' fd = statsns w fd' := by
        rw [hstatsns, Function.update_self]
      exact hself.trans_lt (h fd')
    · exact h fd
  | logout | text | nopOut | nopIn | taskMng | command | dataOut => exact h fd

/-- The StatSNs of the other connections are as before. -/
def Own (fd : Nat) (w w' : Target) : Prop := ∀ fd', fd' ≠ fd → statsns w' fd' = statsns w fd'

theorem own_of_eq (h : statsns w' = statsns w) : Own fd w w' := fun _ _ => congrFun h _

theorem own_update {sn : Nat} (h : statsns w' = Function.update (statsns w) fd sn) : Own fd w w' := by
  intro fd' hne
  rw [h, Function.update_of_ne hne]

theorem Own.trans (h : Own fd w w₁) (h' : Own fd w₁ w') : Own fd w w' := fun fd' hne =>
  (h' fd' hne).trans (h fd' hne)

/-- A call leaves the others' StatSNs, whether it fails or not. -/
abbrev Keeps {N A : Type} (fd : Nat) (w : Target) : Outcome N Target (Target × A) → Prop :=
  Ends (fun _ => True) (Own fd w) fun a => Own fd w a.1

theorem Begun.own (h : Begun fd w w' tasks) : Own fd w w' := by
  obtain ⟨fd', hstatsns⟩ := h.takesOver
  exact own_update hstatsns

theorem own_advanceSTATSN : Own fd w (w.advanceSTATSN fd) := own_update statsns_advanceSTATSN

theorem answerLogin_keeps {req : LoginRequest} : Keeps fd w (answerLogin cfg l w id fd poolnum req) := by
  unfold answerLogin
  split
  · exact own_of_eq rfl
  refine .bind ((ends_trivial _).mapStop fun _ _ => own_of_eq rfl) fun pairs _ => ?_
  refine .bind (beginSession_ends.mono (fun _ => own_of_eq) fun _ => Begun.own) fun a ha => ?_
  refine .bind (ends_ofOption.mpr fun _ _ => trivial) fun s _ => ?_
  refine .bind ends_findConnection fun _ _ => ?_
  have hadv : Own fd w ((a.1.setSes id s).advanceSTATSN fd) :=
    ha.trans (own_advanceSTATSN (w := a.1.setSes id s))
  refine .bind (negotiate_ends.mono (fun _ h => hadv.trans (own_of_eq h))
    fun _ h => hadv.trans (own_of_eq h)) fun b hb => ?_
  exact .bind (shiftStage_ends.mono (fun _ h => hb.trans (own_of_eq h))
    fun _ h => hb.trans (own_of_eq h)) fun _ h => h

theorem answerLogout_keeps {req : LogoutRequest} : Keeps fd w (answerLogout w id fd req) := by
  unfold answerLogout
  split
  · exact own_of_eq rfl
  · exact .bind ends_findConnection fun _ _ => own_advanceSTATSN

theorem stepCounters_keeps {immediate : Bool} : Keeps fd w (w.stepCounters l id fd poolnum immediate) :=
  .bind (ends_ofOption.mpr fun _ _ => trivial) fun s _ =>
    .bind ends_findConnection fun _ _ => own_advanceSTATSN (w := w.setSes id s)

theorem handleNopOut_keeps {bhs : Header} : Keeps fd w (w.handleNopOut l id fd poolnum bhs) := by
  unfold handleNopOut
  split
  · exact own_of_eq rfl
  · exact .bind stepCounters_keeps fun _ h => h

theorem handleTaskMng_keeps {bhs : Header} : Keeps fd w (w.handleTaskMng l id fd poolnum bhs) := by
  unfold handleTaskMng
  split
  · exact own_of_eq rfl
  · exact .bind stepCounters_keeps fun _ h => h

theorem handleText_keeps {targets : List (String × String)} {req : TextRequest} :
    Keeps fd w (w.handleText l id fd poolnum targets req) := by
  unfold handleText
  split
  · exact own_of_eq rfl
  refine .bind ((ends_trivial _).mapStop fun _ _ => own_of_eq rfl) fun attrs _ => ?_
  refine .bind (ends_ofOption.mpr fun _ _ => trivial) fun s _ => ?_
  have hadv : Own fd w ((w.setSes id s).advanceSTATSN fd) := own_advanceSTATSN (w := w.setSes id s)
  dsimp only
  split
  · exact trivial
  split
  · exact trivial
  split
  · exact hadv
  · exact hadv

end Connections

section Runs

variable {cfg : Config} {l : LinearLimitter} {fd n : Nat} {c c' : Conn} {rs rs' : List Reply}

/-- The statuses are numbered from `n` on. -/
def Sequential (n : Nat) (rs : List Reply) : Prop :=
  statuses rs = (List.range (statuses rs).length).map fun k => (n + k) % 2 ^ 32

theorem Sequential.append_nil (h : Sequential n rs) (hnone : statuses rs' = []) :
    Sequential n (rs ++ rs') ∧ (statuses (rs ++ rs')).length = (statuses rs).length := by
  rw [Sequential, statuses_append, hnone, List.append_nil]
  exact ⟨h, rfl⟩

theorem Sequential.append_one (h : Sequential n rs)
    (hone : statuses rs' = [(n + (statuses rs).length) % 2 ^ 32]) :
    Sequential n (rs ++ rs') ∧ (statuses (rs ++ rs')).length = (statuses rs).length + 1 := by
  have hlength : (statuses (rs ++ rs')).length = (statuses rs).length + 1 := by
    rw [statuses_append, hone, List.length_append, List.length_singleton]
  refine ⟨?_, hlength⟩
  rw [Sequential, hlength, List.range_succ, List.map_append, ← h, statuses_append, hone,
    List.map_singleton]

theorem Sequential.get (h : Sequential n rs) {k sn : Nat} (hk : (statuses rs)[k]? = some sn) :
    sn = (n + k) % 2 ^ 32 := by
  rw [h, List.getElem?_map] at hk
  obtain ⟨k', hk', rfl⟩ := Option.map_eq_some_iff.mp hk
  rw [(List.getElem?_eq_some_iff.mp hk').2.symm, List.getElem_range]

/-- What is kept: the statuses have their numbers, and the next one is known unless a
request has failed. -/
structure Inv (c : Conn) : Prop where
  initial_lt : c.initial < 2 ^ 32
  sequential : Sequential c.initial c.replies
  next : c.failed = false → c.statsn = (c.initial + (statuses c.replies).length) % 2 ^ 32
  fresh : c.begun = false → c.replies = []

theorem inv_accepted : Inv accepted := ⟨by decide, rfl, fun _ => rfl, fun _ => rfl⟩

theorem advanceSn_eq (m : Nat) : advanceSn ((n + m) % 2 ^ 32) = (n + (m + 1)) % 2 ^ 32 := by
  rw [advanceSn]
  split <;> omega

theorem Emits.inv {r : Result} (hlt : n < 2 ^ 32) (hs : Sequential n rs)
    (h : Emits ((n + (statuses rs).length) % 2 ^ 32) r) :
    Inv ⟨n, r.statsn, rs ++ r.replies, true, !r.ok⟩ := by
  cases h with
  | silent replies statsn =>
    obtain ⟨hseq, hlen⟩ := hs.append_nil replies
    refine ⟨hlt, hseq, fun _ => ?_, fun hfalse => absurd hfalse.symm Bool.false_ne_true⟩
    rw [statsn, hlen]
  | status replies statsn =>
    obtain ⟨hseq, hlen⟩ := hs.append_one replies
    refine ⟨hlt, hseq, fun _ => ?_, fun hfalse => absurd hfalse.symm Bool.false_ne_true⟩
    rw [statsn, hlen, advanceSn_eq]
  | rejected replies ok =>
    obtain ⟨hseq, -⟩ := hs.append_nil replies
    refine ⟨hlt, hseq, fun hfailed => ?_, fun hfalse => absurd hfalse.symm Bool.false_ne_true⟩
    dsimp only at hfailed
    rw [ok] at hfailed
    exact absurd hfailed.symm Bool.false_ne_true

theorem inv_step {e : Event B ix} (h : Inv c) (hstep : step cfg l fd c e = some c') : Inv c' := by
  unfold step at hstep
  split at hstep
  · rename_i henabled
    obtain ⟨hfailed, -, hstatsn, htype⟩ := henabled
    obtain ⟨r, hrun, rfl⟩ := Option.map_eq_some_iff.mp hstep
    have hemits := run_emits hrun
    cases hbegun : c.begun with
    | true =>
      have hlogin : (e.target.ses e.id).window.type ≠ .login := fun ht =>
        absurd (hbegun.symm.trans (htype.mp ht)).symm Bool.false_ne_true
      rw [initial_of_type hlogin, statsns, hstatsn, h.next hfailed] at hemits
      exact hemits.inv h.initial_lt h.sequential
    | false =>
      have hlt : e.call.initial cfg e.target e.id fd < 2 ^ 32 := initial_lt e.statsn_lt
      have hfirst : Emits ((e.call.initial cfg e.target e.id fd + (statuses []).length) % 2 ^ 32) r := by
        rw [show (statuses []).length = 0 from rfl, Nat.add_zero, Nat.mod_eq_of_lt hlt]
        exact hemits
      rw [h.fresh hbegun]
      exact hfirst.inv hlt rfl
  · cases hstep

/-- For every sequence of requests on a connection: its statuses are numbered from its
first StatSN on, and nothing else takes a number. -/
theorem numbered_of_reachable (cfg : Config) (l : LinearLimitter) (fd : Nat) (c : Conn)
    (h : Reachable accepted (step cfg l fd : Conn → Event B ix → Option Conn) (fun _ _ => True) c) :
    Numbered c := by
  have hinv : Inv c := h.invariant Inv inv_accepted fun _ _ _ hi _ hs => inv_step hi hs
  exact ⟨fun _ _ hk => hinv.sequential.get hk, hinv.next⟩

end Runs

section Sample

open LoginSession

/-- A session of the given type, with one connection. -/
def sampleSession (type : SessionType) : LoginSession :=
  { new (fun _ => 65536) (· == "InitialR2T") 5 with window := { CommandWindow.init with type } }

/-- A target with one session for all, and the same StatSN everywhere. -/
def sampleTarget (s : LoginSession) (statsn : Nat) : Target :=
  { Target.start with ses := fun _ => s, conn := fun _ => { statsn } }

def sampleNormal : Nat → Target := sampleTarget ((sampleSession .normal).registerNormal 8192)

/-- A NOP-Out with the immediate bit and no data. -/
def samplePing : Header
  | 0 => 0x40
  | 1 => 0x80
  | i => if 20 ≤ i ∧ i < 24 then 0xff else 0

/-- WRITE(10) of one block that brings no data along. -/
def sampleWrite : Token Unit where
  bhs
    | 0 => 0x41
    | 1 => 0xa0
    | 32 => 0x2a
    | 40 => 1
    | _ => 0
  offset := 0
  cbufs := [()]

/-- A login, two pings, and a WRITE between them that is answered with an R2T. -/
def sampleEvents : List (Event Unit LbaIndex.ofList) :=
  [⟨sampleTarget (sampleSession .login) 0, 0, .login 0 { flags := 0x87, sid := 7, cid := 1
                                                         data := ["SessionType=Normal",
                                                           "InitiatorName=iqn.client"] },
      fun _ => (by decide : 0 < 2 ^ 32)⟩,
    ⟨sampleNormal 1, 0, .nopOut 0 samplePing, fun _ => (by decide : 1 < 2 ^ 32)⟩,
    ⟨sampleNormal 2, 0, .command 0 (ReportLuns.sampleLuns 1) sampleWrite,
      fun _ => (by decide : 2 < 2 ^ 32)⟩,
    ⟨sampleNormal 2, 0, .nopOut 0 samplePing, fun _ => (by decide : 2 < 2 ^ 32)⟩]

theorem numbered_around_r2t : ∃ c, exec (step oneInitiator ⟨0, 0⟩ 5) accepted sampleEvents = some c ∧
    c.replies = [⟨true, 0⟩, ⟨true, 1⟩, ⟨false, 2⟩, ⟨true, 2⟩] ∧ Numbered c := by
  have hrun : (exec (step oneInitiator ⟨0, 0⟩ 5) accepted sampleEvents).map Conn.replies =
      some [⟨true, 0⟩, ⟨true, 1⟩, ⟨false, 2⟩, ⟨true, 2⟩] := by
    decide +kernel
  obtain ⟨c, hc, hreplies⟩ := Option.map_eq_some_iff.mp hrun
  exact ⟨c, hc, hreplies, numbered_of_reachable oneInitiator ⟨0, 0⟩ 5 c (reachable_of_exec .start hc)⟩

end Sample

end Sstoraged.StatSn
