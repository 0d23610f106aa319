import Mathlib.Logic.Relation
import Sstoraged.TargetRuns

namespace Sstoraged

open Outcome

/-- The counters of the window were stepped, any number of times. -/
def CommandWindow.Stepped (l : LinearLimitter) : CommandWindow → CommandWindow → Prop :=
  Relation.ReflTransGen fun s s' => ∃ poolnum, s.advanceCMDSNs l poolnum = some s'

theorem CommandWindow.refill_type {queuesize fuel : Nat} {s s' : CommandWindow}
    (h : refill queuesize fuel s = some s') : s'.type = s.type := by
  induction fuel generalizing s with
  | zero => exact absurd h (by simp [refill])
  | succ fuel ih =>
    rw [refill] at h
    split at h
    · have htype := ih h
      exact htype
    · rw [← Option.some.inj h]

theorem CommandWindow.Stepped.type {l : LinearLimitter} {s s' : CommandWindow} (h : Stepped l s s') :
    s'.type = s.type := by
  induction h with
  | refl => rfl
  | tail _ hstep ih =>
    obtain ⟨poolnum, hstep⟩ := hstep
    obtain ⟨_, _, hrefill⟩ := Option.bind_eq_some_iff.mp hstep
    rw [refill_type hrefill, ← ih]

variable {cfg : Config} {l : LinearLimitter}

namespace LoginSession

/-- What logins decide of a session is as before, but for its type, and the window has
only been stepped. -/
structure Kept (l : LinearLimitter) (type : SessionType) (s t : LoginSession) : Prop where
  initiator : t.initiator = s.initiator
  protos : t.protos = s.protos
  accepted : t.accepted = s.accepted
  nums : t.nums = s.nums
  flags : t.flags = s.flags
  window : CommandWindow.Stepped l { s.window with type } t.window

abbrev Untouched (l : LinearLimitter) (s t : LoginSession) : Prop := Kept l s.window.type s t

variable {s t u : LoginSession} {type : SessionType}

theorem Kept.type_eq (h : Kept l type s t) : t.window.type = type := h.window.type

theorem Kept.trans (h : Kept l type s t) (h' : Untouched l t u) : Kept l type s u where
  initiator := h'.initiator.trans h.initiator
  protos := h'.protos.trans h.protos
  accepted := h'.accepted.trans h.accepted
  nums := h'.nums.trans h.nums
  flags := h'.flags.trans h.flags
  window := h.window.trans h'.window

theorem untouched_refl (s : LoginSession) : Untouched l s s := ⟨rfl, rfl, rfl, rfl, rfl, .refl⟩

theorem untouched_advance {poolnum : Nat} {immediate : Bool}
    (h : s.advanceCMDSNs l poolnum immediate = some t) : Untouched l s t := by
  obtain ⟨window, hwindow, rfl⟩ := Option.map_eq_some_iff.mp h
  refine ⟨rfl, rfl, rfl, rfl, rfl, ?_⟩
  unfold CommandWindow.update at hwindow
  split at hwindow
  · obtain rfl := Option.some.inj hwindow
    exact .refl
  · exact .single ⟨poolnum, hwindow⟩

end LoginSession

namespace Target

open LoginSession

/-- No session was touched. -/
structure SameSessions (l : LinearLimitter) (w w' : Target) : Prop where
  sessions : ∀ id, Untouched l (w.ses id) (w'.ses id)
  accepted : w'.accepted = w.accepted

variable {w w' w'' : Target} {id fd r : Nat}

theorem SameSessions.trans (h : SameSessions l w w') (h' : SameSessions l w' w'') :
    SameSessions l w w'' :=
  ⟨fun id => (h.sessions id).trans (h'.sessions id), h'.accepted.trans h.accepted⟩

theorem sameSessions_of_eq (h : w'.ses = w.ses) (ha : w'.accepted = w.accepted) : SameSessions l w w' :=
  ⟨fun _ => h ▸ untouched_refl _, ha⟩

theorem sameSessions_setSes {s : LoginSession} (h : Untouched l (w.ses id) s) :
    SameSessions l w (w.setSes id s) := by
  refine ⟨fun j => ?_, rfl⟩
  by_cases hj : j = id
  · subst hj
    rw [setSes_ses_self]
    exact h
  · rw [setSes_ses_of_ne hj]
    exact untouched_refl _

theorem sameSessions_setTasks {tasks : List (Nat × SessionTask)} :
    SameSessions l w (w.setTasks id tasks) :=
  sameSessions_setSes ⟨rfl, rfl, rfl, rfl, rfl, .refl⟩

theorem sameSessions_delConnection : SameSessions l w (w.delConnection id fd) :=
  sameSessions_setSes ⟨rfl, rfl, rfl, rfl, rfl, .refl⟩

theorem sameSessions_addConnection : SameSessions l w (w.addConnection id fd) := by
  unfold addConnection
  split
  · exact sameSessions_of_eq rfl rfl
  · exact sameSessions_setSes ⟨rfl, rfl, rfl, rfl, rfl, .refl⟩

theorem sameSessions_setConn {c : ISCSIConnection} : SameSessions l w (w.setConn fd c) :=
  sameSessions_of_eq rfl rfl

theorem sameSessions_setSid {sid cid : Nat} : SameSessions l w (w.setSid id fd sid cid) :=
  have hses : SameSessions l w (w.setSes id { w.ses id with sid }) :=
    sameSessions_setSes ⟨rfl, rfl, rfl, rfl, rfl, .refl⟩
  hses.trans sameSessions_setConn

theorem sameSessions_cleanUp : SameSessions l w (w.cleanUp id fd) := by
  unfold cleanUp
  split
  · split
    · exact sameSessions_of_eq rfl rfl
    · split
      · exact sameSessions_of_eq rfl rfl
      · exact sameSessions_of_eq rfl rfl
  · exact sameSessions_delConnection

/-- The pointers that handlers and tasks may use besides the initiator. -/
abbrev NotInitiator (p : Pointer) : Prop := p ≠ .initiator

/-- The call touches no session, whether it returns true or false, and does not use the
initiator. -/
abbrev Quiet (l : LinearLimitter) (w : Target) : Outcome Pointer Target Target → Prop :=
  Ends NotInitiator (SameSessions l w) (SameSessions l w)

theorem quiet_findConnection : Ends NotInitiator (SameSessions l w) (fun _ => True)
    (w.findConnection id fd) := by
  unfold findConnection
  split
  · exact trivial
  · exact Pointer.noConfusion

theorem SameSessions.quiet {x : Outcome Pointer Target Target} (h : SameSessions l w w')
    (hx : Quiet l w' x) :
    Quiet l w x := hx.mono (fun _ => h.trans) (fun _ => h.trans)

theorem quiet_addReactor : Quiet l w (w.addReactor r) := by
  unfold addReactor
  split
  · exact sameSessions_of_eq rfl rfl
  · exact sameSessions_of_eq rfl rfl

theorem leaveListener_ses : (w.leaveListener fd).ses = w.ses := by
  unfold leaveListener
  split <;> rfl

theorem leaveListener_accepted : (w.leaveListener fd).accepted = w.accepted := by
  unfold leaveListener
  split <;> rfl

theorem changeListener_ses : (w.changeListener fd r).ses = w.ses := leaveListener_ses

theorem changeListener_accepted : (w.changeListener fd r).accepted = w.accepted := leaveListener_accepted

theorem quiet_createReactorTask : Quiet l w (w.createReactorTask id fd) := by
  have hbegin : SameSessions l w ((w.delSession id).newReactor id) := sameSessions_of_eq rfl rfl
  exact .bind (quiet_findConnection.mono (fun _ => hbegin.trans) fun _ h => h)
    fun _ _ => (hbegin.trans (sameSessions_of_eq changeListener_ses changeListener_accepted)).quiet
      quiet_addReactor

theorem quiet_removeReactorTask : Quiet l w (w.removeReactorTask id) := by
  unfold removeReactorTask
  split
  · exact Pointer.noConfusion
  · exact sameSessions_of_eq rfl rfl

theorem quiet_runTask {sent : RunResult} {task : SessionTask} : Quiet l w (w.runTask sent task) := by
  cases task with
  | sendLogin | sendLogout =>
    cases sent with
    | done | again => exact sameSessions_of_eq rfl rfl
    | throws => exact trivial
  | createReactor => exact quiet_createReactorTask
  | removeReactor => exact quiet_removeReactorTask
  | closeSession => exact sameSessions_of_eq rfl rfl
  | closeConnection => exact sameSessions_delConnection

theorem quiet_invoke {sent : RunResult} : Quiet l w (w.invoke id sent) := by
  unfold invoke
  split
  · exact sameSessions_of_eq rfl rfl
  · next task _ _ =>
    have hrun : Quiet l w (w.runTask sent task) := quiet_runTask
    split
    · next hok =>
      rw [hok] at hrun
      exact SameSessions.trans hrun sameSessions_setTasks
    · exact sameSessions_setTasks
    · exact hrun

theorem quiet_clearListeners (fds : List Nat) : Quiet l w (w.clearListeners fds) := by
  induction fds generalizing w with
  | nil => exact sameSessions_of_eq rfl rfl
  | cons fd fds ih =>
    have hclear : Quiet l w (w.clearListener fd) := by
      unfold clearListener
      split
      · exact sameSessions_of_eq rfl rfl
      · exact Pointer.noConfusion
    exact hclear.bind fun _ h => h.quiet ih

theorem quiet_exit : Quiet l w (w.exit r) :=
  .bind (quiet_clearListeners _) fun _ h => h.trans (sameSessions_of_eq rfl rfl)

theorem sameSessions_destroy : SameSessions l w (w.destroy fd) :=
  sameSessions_of_eq leaveListener_ses leaveListener_accepted

theorem quiet_joinSession {req : LoginRequest} : Quiet l w (w.joinSession id fd r req) := by
  unfold joinSession
  dsimp only
  split
  · split
    · exact sameSessions_of_eq rfl rfl
    · refine .bind quiet_findConnection fun _ _ => ?_
      have hdel : SameSessions l w
          ((w.setConn fd { w.conn fd with statsn := (w.conn req.cid).statsn }).delConnection
        (w.reactor r).session req.cid) := sameSessions_setConn.trans sameSessions_delConnection
      exact (hdel.trans (sameSessions_of_eq changeListener_ses changeListener_accepted)).trans
        sameSessions_addConnection
  · exact .bind quiet_findConnection fun _ _ =>
      (sameSessions_of_eq changeListener_ses changeListener_accepted).trans sameSessions_addConnection

theorem ends_handle1stRequest {req : LoginRequest} :
    Ends NotInitiator (SameSessions l w) (fun p => SameSessions l w p.1)
      (w.handle1stRequest id fd req) := by
  unfold handle1stRequest
  split
  · unfold handle1stDiscoveryRequest
    split
    · exact sameSessions_of_eq rfl rfl
    · exact .bind quiet_findConnection fun _ _ => sameSessions_setSid
  · unfold handle1stNormalRequest
    split
    · split
      · exact sameSessions_of_eq rfl rfl
      · exact .bind quiet_findConnection fun _ _ => sameSessions_setSid
    · dsimp only
      split
      · exact .bind quiet_findConnection fun _ _ => sameSessions_setSid
      · split
        · exact sameSessions_of_eq rfl rfl
        · exact .bind quiet_joinSession fun _ h => h.trans sameSessions_setSid
  · exact sameSessions_of_eq rfl rfl

theorem sameSessions_reply {addr : SessionTask → Nat} {tasks : List SessionTask} :
    SameSessions l w ((w.advanceSTATSN fd).pushTasks id addr tasks) :=
  sameSessions_setConn.trans sameSessions_setTasks

theorem quiet_handleLogout {addr : SessionTask → Nat} {req : LogoutRequest} :
    Quiet l w (w.handleLogout id fd addr req) := by
  unfold handleLogout
  split
  · exact sameSessions_of_eq rfl rfl
  · exact .bind quiet_findConnection fun _ _ => sameSessions_reply

/-- Of the other sessions none was touched, and of this one the type is as given. -/
structure Begun (l : LinearLimitter) (type : SessionType) (id : Nat) (w w' : Target) : Prop where
  own : Kept l type (w.ses id) (w'.ses id)
  others : ∀ j, j ≠ id → Untouched l (w.ses j) (w'.ses j)
  accepted : w'.accepted = w.accepted

theorem Begun.trans {type : SessionType} (h : Begun l type id w w') (h' : SameSessions l w' w'') :
    Begun l type id w w'' :=
  ⟨h.own.trans (h'.sessions id), fun j hj => (h.others j hj).trans (h'.sessions j),
    h'.accepted.trans h.accepted⟩

theorem begun_of_same (h : SameSessions l w w') : Begun l (w.ses id).window.type id w w' :=
  ⟨h.sessions id, fun j _ => h.sessions j, h.accepted⟩

theorem begun_setType {type : SessionType} : Begun l type id w (w.setType id type) := by
  refine ⟨?_, fun j hj => ?_, rfl⟩
  · rw [setType, setSes_ses_self]
    exact ⟨rfl, rfl, rfl, rfl, rfl, .refl⟩
  · rw [setType, setSes_ses_of_ne hj]
    exact untouched_refl _

theorem ends_beginSession {req : LoginRequest} {pairs : List (String × String)} :
    Ends NotInitiator (Begun l (firstType (w.ses id) pairs) id w)
      (fun p => Begun l (firstType (w.ses id) pairs) id w p.1) (w.beginSession id fd req pairs) := by
  unfold beginSession
  split
  · exact ends_handle1stRequest.mono (fun _ => begun_setType.trans) fun _ => begun_setType.trans
  · next htype =>
    rw [firstType, if_neg htype]
    exact begun_of_same (sameSessions_of_eq rfl rfl)

variable {Q : LoginSession → Prop} {null : Pointer → Prop}

/-- A login of the session with this number left the others alone. -/
structure OwnLogin (l : LinearLimitter) (Q : LoginSession → Prop) (id : Nat) (w w' : Target) : Prop where
  own : Q (w'.ses id)
  others : ∀ j, j ≠ id → Untouched l (w.ses j) (w'.ses j)
  accepted : w'.accepted = w.accepted

theorem OwnLogin.trans (hQ : ∀ s t, Q s → Untouched l s t → Q t) (h : OwnLogin l Q id w w')
    (h' : SameSessions l w' w'') : OwnLogin l Q id w w'' :=
  ⟨hQ _ _ h.own (h'.sessions id), fun j hj => (h.others j hj).trans (h'.sessions j),
    h'.accepted.trans h.accepted⟩

theorem OwnLogin.setSes {P : LoginSession → Prop} {s : LoginSession}
    (h : OwnLogin l P id w w') (hs : Q s) :
    OwnLogin l Q id w (w'.setSes id s) := by
  refine ⟨?_, fun j hj => ?_, h.accepted⟩
  · rw [setSes_ses_self]
    exact hs
  · rw [setSes_ses_of_ne hj]
    exact h.others j hj

theorem ends_parsePairs (data : List String) :
    Ends (fun _ => False) (fun _ => True) (fun _ => True) (parsePairs cfg data) := by
  induction data with
  | nil => exact trivial
  | cons str data ih =>
    refine .bind (ends_ofOption.mpr fun _ _ => trivial) fun valid _ => ?_
    cases valid with
    | true => exact .bind ih fun _ _ => trivial
    | false => exact trivial

variable {P : LoginSession → Prop} {pairs : List (String × String)}

theorem ends_negotiate (hw : OwnLogin l (fun _ => True) id w w')
    (h : Ends null Q (fun p => P p.1) (handlePairs cfg pairs pairs (w'.ses id) [])) :
    Ends null (OwnLogin l Q id w) (fun p => OwnLogin l P id w p.1) (w'.negotiate cfg id pairs) :=
  .bind (h.mapStop fun _ => hw.setSes) fun _ => hw.setSes

theorem ends_shiftStage {nsg : UInt8} (hQ : ∀ s t, Q s → Untouched l s t → Q t)
    (hw : OwnLogin l Q id w w')
    (h : nsg = 3 → ∀ t, Untouched l (w'.ses id) t → Ends null Q Q t.shift) :
    Ends null (OwnLogin l Q id w) (OwnLogin l Q id w) (w'.shiftStage id nsg) := by
  unfold shiftStage
  split
  · exact hw
  split
  · next hnsg =>
    have htsih : SameSessions l w' (w'.setTSIH id) := by
      unfold setTSIH
      split
      · have hnext : SameSessions l w' w'.getNextTSIH.2 := sameSessions_of_eq rfl rfl
        exact hnext.trans (sameSessions_setSes ⟨rfl, rfl, rfl, rfl, rfl, .refl⟩)
      · exact sameSessions_of_eq rfl rfl
    have hw := hw.trans hQ htsih
    exact .bind ((h hnsg _ (htsih.sessions id)).mapStop fun _ => hw.setSes) fun _ => hw.setSes
  · exact hw

/-- What a login makes of a session follows from what its keys and the shift make of
it: `Q` is what is kept up, `P` what the shift needs besides. -/
theorem ends_handleLogin {poolnum : Nat} {addr : SessionTask → Nat}
    {req : LoginRequest} (hnull : ∀ p, NotInitiator p → null p) (hQ : ∀ s t, Q s → Untouched l s t → Q t)
    (h : Q (w.ses id))
    (hkeys : ∀ pairs s, req.valid = true → parsePairs cfg req.data = .ok pairs →
      Kept l (firstType (w.ses id) pairs) (w.ses id) s →
        Q s ∧ Ends null Q (fun p => Q p.1 ∧ P p.1) (handlePairs cfg pairs pairs s []))
    (hshift : ∀ s t, req.stage = 3 → Q s → P s → Untouched l s t → Ends null Q Q t.shift) :
    Ends null (OwnLogin l Q id w) (OwnLogin l Q id w) (w.handleLogin cfg l id fd poolnum addr req) := by
  have hw : OwnLogin l Q id w w := ⟨h, fun _ _ => untouched_refl _, rfl⟩
  have hfirst : Ends null (fun _ => True) (fun _ => True) (parsePairs cfg req.data) :=
    (ends_parsePairs _).mono_null fun _ => False.elim
  unfold handleLogin
  split
  · exact hw
  next hvalid =>
  rw [Bool.not_eq_true, Bool.not_eq_false'] at hvalid
  cases hparse : parsePairs cfg req.data with
  | error e =>
    rw [hparse] at hfirst
    cases e with
    | failed => exact hw
    | null p => exact hfirst
    | aborted => exact trivial
  | ok pairs =>
    have hbegin : Ends null (OwnLogin l Q id w) (fun p => Begun l (firstType (w.ses id) pairs) id w p.1)
        (w.beginSession id fd req pairs) :=
      .mono_null (ends_beginSession.mono
        (fun w' hb => ⟨(hkeys pairs _ hvalid hparse hb.own).1, hb.others, hb.accepted⟩) fun _ hb =>
          hb) hnull
    refine hbegin.bind fun ⟨w₁, tasks⟩ hb => ?_
    have hstep : Ends null (OwnLogin l Q id w) (fun s => Untouched l (w₁.ses id) s)
        (ofOption ((w₁.ses id).advanceCMDSNs l poolnum req.immediate)) :=
      ends_ofOption.mpr fun _ => untouched_advance
    refine hstep.bind fun s hs => ?_
    have hb : Begun l (firstType (w.ses id) pairs) id w (w₁.setSes id s) :=
      hb.trans (sameSessions_setSes hs)
    have hown : (w₁.setSes id s).ses id = s := setSes_ses_self ..
    obtain ⟨hq, hpairs⟩ := hkeys pairs s hvalid hparse (hown ▸ hb.own)
    have hfind : Ends null (OwnLogin l Q id w) (fun _ => True) ((w₁.setSes id s).findConnection id fd) :=
      .mono_null (quiet_findConnection.mono
        (fun _ h => .trans hQ ⟨hown.symm ▸ hq, hb.others, hb.accepted⟩ h) fun _ h => h) hnull
    refine hfind.bind fun _ _ => ?_
    have hneg : Ends null (OwnLogin l Q id w) (fun p => OwnLogin l (fun s => Q s ∧ P s) id w p.1)
        (((w₁.setSes id s).advanceSTATSN fd).negotiate cfg id pairs) := by
      refine ends_negotiate ⟨trivial, hb.others, hb.accepted⟩ ?_
      rwa [show ((w₁.setSes id s).advanceSTATSN fd).ses id = s from hown]
    refine hneg.bind fun ⟨w₂, reply⟩ hw₂ => ?_
    have hw₂' : OwnLogin l Q id w w₂ := ⟨hw₂.own.1, hw₂.others, hw₂.accepted⟩
    exact (ends_shiftStage hQ hw₂' fun hnsg t => hshift _ t hnsg hw₂.own.1 hw₂.own.2).bind
      fun _ hw₃ => hw₃.trans hQ sameSessions_setTasks

theorem quiet_handleValid {kind : PduKind} {poolnum : Nat} {immediate accepted : Bool} :
    Quiet l w (w.handleValid l id kind poolnum immediate accepted) := by
  unfold handleValid
  split
  · exact sameSessions_of_eq rfl rfl
  split
  · exact .bind (ends_ofOption.mpr fun _ => untouched_advance) fun _ => sameSessions_setSes
  · exact sameSessions_of_eq rfl rfl

theorem ends_handleOther {kind : PduKind} {poolnum : Nat} {immediate accepted : Bool}
    (hnull : ∀ p, NotInitiator p → null p)
    (hcommand : ∀ op read write, (w.ses id).protos op = some (.command read write) →
      (w.ses id).initiator ≠ none ∨ null .initiator) :
    Ends null (SameSessions l w) (SameSessions l w)
      (w.handleOther l id kind poolnum immediate accepted) := by
  unfold handleOther
  split
  · exact sameSessions_of_eq rfl rfl
  · next hproto hnone =>
    obtain ⟨op, -, hproto⟩ := Option.bind_eq_some_iff.mp hproto
    exact (hcommand op _ _ hproto).resolve_left fun hne => hne hnone
  · exact quiet_handleValid.mono_null hnull

/-- The session is as it should be, and no session number is given back. -/
def Next (Q : LoginSession → Prop) (id : Nat) (w w' : Target) : Prop :=
  Q (w'.ses id) ∧ w.accepted ≤ w'.accepted

theorem next_of_same (hQ : ∀ s t, Q s → Untouched l s t → Q t) (h : Q (w.ses id))
    (hw : SameSessions l w w') :
    Next Q id w w' := ⟨hQ _ _ h (hw.sessions id), hw.accepted.ge⟩

/-- What one event makes of a session: only the session's own logins and its
beginning need a look. -/
theorem ends_act {e : TargetEvent} (hnull : ∀ p, NotInitiator p → null p)
    (hQ : ∀ s t, Q s → Untouched l s t → Q t) (h : Q (w.ses id))
    (hnew : ∀ fd, e = .accept fd → id = w.accepted → Q (.new cfg.nums cfg.flags fd))
    (hcommand : ∀ j op read write, (w.ses j).protos op = some (.command read write) →
      (w.ses j).initiator ≠ none ∨ null .initiator)
    (hlogin : ∀ j fd poolnum addr req, e = .pdu j fd (.login poolnum addr req) →
      (w.ses j).protos opLoginCmd ≠ none →
        Ends null (Next Q id w) (Next Q id w) (w.handleLogin cfg l j fd poolnum addr req)) :
    Ends null (Next Q id w) (Next Q id w) (w.act cfg l e) := by
  have hsame : ∀ w', SameSessions l w w' → Next Q id w w' := fun _ => next_of_same hQ h
  have hrefl : Next Q id w w := hsame _ (sameSessions_of_eq rfl rfl)
  cases e with
  | accept fd =>
    rw [act]
    split
    · refine ⟨?_, Nat.le_of_lt (accept_accepted ▸ Nat.lt_succ_self _)⟩
      rw [accept_ses]
      by_cases hid : id = w.accepted
      · rw [hid, Function.update_self]
        exact hnew fd rfl hid
      · rw [Function.update_of_ne hid]
        exact h
    · exact trivial
  | pdu j fd pdu =>
    rw [act]
    split
    · have hpdu : Ends null (Next Q id w) (Next Q id w) (w.handlePdu cfg l j fd pdu) := by
        cases pdu with
        | login poolnum addr req =>
          rw [handlePdu]
          split
          · exact hrefl
          · next hproto =>
              exact hlogin j fd poolnum addr req rfl fun hn => hproto (Option.isNone_iff_eq_none.mpr hn)
        | logout addr req =>
          rw [handlePdu]
          split
          · exact hrefl
          · exact .mono_null (quiet_handleLogout.mono hsame hsame) hnull
        | other kind poolnum immediate accepted =>
          exact (ends_handleOther hnull (hcommand j)).mono hsame hsame
      unfold receive
      split
      · next w' hfail =>
        rw [hfail] at hpdu
        have hclean : SameSessions l w' ((w'.cleanUp j fd).cleanUp j fd) :=
          sameSessions_cleanUp.trans sameSessions_cleanUp
        obtain ⟨hq, hle⟩ := next_of_same hQ hpdu.1 hclean
        exact ⟨hq, hpdu.2.trans hle⟩
      · exact hpdu
    · exact trivial
  | close j fd =>
    rw [act]
    split
    · exact hsame _ sameSessions_cleanUp
    · exact trivial
  | run j sent =>
    have hrun : Ends null (Next Q id w) (Next Q id w) (w.invoke j sent) :=
      .mono_null (quiet_invoke.mono hsame hsame) hnull
    rw [act]
    split
    · next hfail =>
      rw [hfail] at hrun
      exact hrun
    · exact hrun
  | exit r =>
    rw [act]
    split
    · exact .mono_null (quiet_exit.mono hsame hsame) hnull
    · exact trivial
  | destroy fd =>
    rw [act]
    split
    · exact trivial
    · exact hsame _ sameSessions_destroy

end Target

end Sstoraged
