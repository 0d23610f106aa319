import Sstoraged.Connections
import Sstoraged.Logout
import Sstoraged.ReactorHandOff

namespace Sstoraged.ConnectionRemoval

open TokenStream TokenData Receiver IovecContainer Runs Target ReactorHandOff

/-- A session on the target with what it reads from its connections, and the
connections that have not ended. -/
structure State where
  target : Target
  conns : Connections
  live : List Nat

/-- What a session goes through: another connection joins it; it moves to a reactor;
bytes arrive, and a PDU is rejected or has an unknown opcode, if any; the peer closes or
a read fails; a Logout with the reason to close a connection is handled and its task run. -/
inductive Event
  | join (fd : Nat)
  | create (fd : Nat)
  | chunk (fd n : Nat) (fail : Option Nat)
  | close (fd : Nat)
  | logout (fd cid : Nat)

def start (mrdsLength : Nat) (mem : Nat → Nat → Nat → UInt8) (w : Target) (fds : List Nat) : State :=
  ⟨w, .start mrdsLength mem, fds⟩

/-- The connections without one of them. -/
def others (s : State) (fd : Nat) : List Nat := s.live.filter (· ≠ fd)

/-- The tasks of a Logout with the reason to close a connection, one after the other. -/
def runLogout (w : Target) (id fd cid : Nat) : Outcome Pointer Target Target :=
  (w.logoutReason id fd { reason := LogoutRequest.reasonCloseConnection, cid }).2.foldlM
    (fun w task => w.runTask .done task) w

/-- Both `doWork` and `recv` clean up after a PDU that fails, `recv` alone after a
connection that was closed, and a Logout does not clean up. A task that uses a null
pointer has no result. -/
def step (streams : Nat → Nat → UInt8) (id : Nat) (s : State) : Event → Option State
  | .join fd =>
    if s.live ≠ [] ∧ fd ∉ s.live ∧ s.conns.read fd = 0 ∧ s.conns.opened fd = true then
      some { s with target := s.target.addConnection id fd, live := s.live ++ [fd] }
    else none
  | .create fd =>
    if fd ∈ s.live then
      match s.target.createReactorTask id fd with
      | .ok target => some { s with target }
      | .error _ => none
    else none
  | .chunk fd n fail =>
    if fd ∈ s.live then
      (s.conns.step streams (.chunk fd n fail)).map fun conns =>
        match fail with
        | none => { s with conns }
        | some _ => ⟨(s.target.cleanUp id fd).cleanUp id fd, conns, others s fd⟩
    else none
  | .close fd =>
    if fd ∈ s.live then
      (s.conns.step streams (.close fd)).map fun conns => ⟨s.target.cleanUp id fd, conns, others s fd⟩
    else none
  | .logout fd cid =>
    if fd ∈ s.live then
      match runLogout s.target id fd cid with
      | .ok target => (s.conns.step streams (.close fd)).map fun conns => ⟨target, conns, others s fd⟩
      | .error _ => none
    else none

/-- The session is in the pool, or a reactor that was not told to stop has it. -/
def Attended (w : Target) (id : Nat) : Prop :=
  w.pooled id = true ∨ ∃ r ∈ w.reactors, (w.reactor r).session = id ∧ (w.reactor r).stop = false

instance (w : Target) (id : Nat) : Decidable (Attended w id) := inferInstanceAs (Decidable (_ ∨ _))

/-- The connections that a session has. One that is given up is destroyed, and they with it. -/
def held (w : Target) (id : Nat) : List Nat := if Attended w id then (w.ses id).connection else []

/-- The other sessions, and their reactors, are as they were. -/
structure Spared (id : Nat) (w w' : Target) : Prop where
  ses : ∀ j, j ≠ id → w'.ses j = w.ses j
  pooled : ∀ j, j ≠ id → w'.pooled j = w.pooled j
  reactors : ∀ r, r ∈ w'.reactors ∧ (w'.reactor r).session ≠ id ↔ r ∈ w.reactors ∧
    (w.reactor r).session ≠ id
  reactor : ∀ r ∈ w.reactors, (w.reactor r).session ≠ id → w'.reactor r = w.reactor r

/-- Either the pool has the session or the one reactor that is found by its session id. -/
def Listed (w : Target) (id : Nat) : Prop :=
  w.pooled id = true ∧ (∀ r ∈ w.reactors, (w.reactor r).session ≠ id) ∨
    w.pooled id = false ∧ ∃ r, w.findReactor (w.ses id).sid = some r ∧ w.reactor r = ⟨id, false⟩ ∧
      ∀ r' ∈ w.reactors, (w.reactor r').session = id → r' = r

/-- A session with some connections. -/
structure Begun (w : Target) (id : Nat) (fds : List Nat) : Prop where
  connection : (w.ses id).connection = fds
  ne : fds ≠ []
  nodup : fds.Nodup
  registered : ∀ r ∈ w.reactors, r < w.constructed
  listed : Listed w id

/-- All that was read of a connection are whole PDUs. -/
def Whole (streams : Nat → Nat → UInt8) (s : State) (fd : Nat) : Prop :=
  s.conns.read fd = pduStart (streams fd) (taken (streams fd) (s.conns.read fd))

/-- The tokenizer has nothing of a connection that has ended. -/
def Clear (streams : Nat → Nat → UInt8) (s : State) : Prop :=
  s.conns.tok.bhss = [] ∧ ∀ fd, fd ∉ s.live → Whole streams s fd

/-- An arrival that is not disturbed by another connection of the session. -/
def Apart (streams : Nat → Nat → UInt8) (count : Nat) (s : State) : Event → Prop
  | .chunk fd n _ =>
    Fits (streams fd) count (s.conns.read fd) n ∧ ∀ fd' ∈ s.live, fd' ≠ fd → Whole streams s fd'
  | _ => True

/-- The condition on the end of a connection: one that leaves others behind leaves no part
of a PDU; a PDU fails on the last one only, and not in the pool beside a running reactor
with the same session id; and a Logout names a socket of the session and is not on the
last connection, or it names none, is on the last one, and the session is in the pool if
it is for discovery and at a reactor if not. -/
def Tidy (streams : Nat → Nat → UInt8) (id : Nat) (s : State) : Event → Prop
  | .chunk fd _ (some _) => others s fd = [] ∧ (s.target.pooled id = true →
    ∀ r, s.target.findReactor (s.target.ses id).sid = some r → (s.target.reactor r).stop = true)
  | .close fd => others s fd = [] ∨ Whole streams s fd
  | .logout fd cid =>
    if cid ∈ s.live then others s fd ≠ [] ∧ Whole streams s fd
    else others s fd = [] ∧ ((s.target.ses id).window.type = .discovery ↔ s.target.pooled id = true)
  | _ => True

/-- The conditions on a step together. -/
def Neat (streams : Nat → Nat → UInt8) (count id : Nat) (s : State) (e : Event) : Prop :=
  Apart streams count s e ∧ Tidy streams id s e

/-- What the session is, beside the others of the target `w` that it began in: it has the
connections that have not ended, and is attended while there is one. -/
structure Right (streams : Nat → Nat → UInt8) (w : Target) (id : Nat) (s : State) : Prop where
  attended : Attended s.target id ↔ s.live ≠ []
  connection : held s.target id = s.live
  clear : s.live ≠ [] → Clear streams s
  spared : Spared id w s.target

/-- The event can take place. -/
def Occurs (streams : Nat → Nat → UInt8) (id : Nat) (s : State) : Event → Prop
  | .logout fd _ => fd ∈ s.live
  | e => (step streams id s e).isSome

/-- The other connections are there, the session is given up with the last one, and
each that is left has just its own PDUs handled, and its next ones in their turn. -/
structure Removed (streams : Nat → Nat → UInt8) (count : Nat) (w : Target) (id : Nat)
    (s : State) : Prop where
  right : Right streams w id s
  own : ∀ fd ∈ s.live, Connections.Alone (streams fd) s.conns fd ∧ s.conns.opened fd = true
  handled : ∀ fd ∈ s.live, ∀ n, 0 < n → n ≤ space (s.conns.buf fd).vec →
    Apart streams count s (.chunk fd n none) → (step streams id s (.chunk fd n none)).isSome

/-- The invariant: what is right, with the framing of all that was read. -/
structure Inv (streams : Nat → Nat → UInt8) (count : Nat) (w₀ : Target) (id : Nat)
    (s : State) : Prop where
  framing : ∃ ks, Connections.Inv streams count s.conns ks
  begun : s.live ≠ [] → Begun s.target id s.live
  gone : s.live = [] → ¬ Attended s.target id
  opened : ∀ fd ∈ s.live, s.conns.opened fd = true
  clear : s.live ≠ [] → Clear streams s
  spared : Spared id w₀ s.target

variable {streams : Nat → Nat → UInt8} {count id fd r : Nat} {w₀ w w' w'' : Target} {s s' : State}
  {fds : List Nat}

section spared

theorem Spared.refl (id : Nat) (w : Target) : Spared id w w :=
  ⟨fun _ _ => rfl, fun _ _ => rfl, fun _ => Iff.rfl, fun _ _ _ => rfl⟩

theorem Spared.trans (h : Spared id w w') (h' : Spared id w' w'') : Spared id w w'' where
  ses j hj := (h'.ses j hj).trans (h.ses j hj)
  pooled j hj := (h'.pooled j hj).trans (h.pooled j hj)
  reactors r := (h'.reactors r).trans (h.reactors r)
  reactor r hr hsession := by
    obtain ⟨hr', hsession'⟩ := (h.reactors r).mpr ⟨hr, hsession⟩
    exact (h'.reactor r hr' hsession').trans (h.reactor r hr hsession)

theorem Spared.between (h : Spared id w w') (h' : Spared id w w'') : Spared id w' w'' where
  ses j hj := (h'.ses j hj).trans (h.ses j hj).symm
  pooled j hj := (h'.pooled j hj).trans (h.pooled j hj).symm
  reactors r := (h'.reactors r).trans (h.reactors r).symm
  reactor r hr hsession := by
    obtain ⟨hr', hsession'⟩ := (h.reactors r).mp ⟨hr, hsession⟩
    exact (h'.reactor r hr' hsession').trans (h.reactor r hr' hsession').symm

theorem spared_setSes (x : LoginSession) : Spared id w (w.setSes id x) :=
  ⟨fun _ hj => setSes_ses_of_ne hj, fun _ _ => rfl, fun _ => Iff.rfl, fun _ _ _ => rfl⟩

theorem spared_delSession : Spared id w (w.delSession id) := by
  refine ⟨fun _ _ => rfl, fun j hj => ?_, fun _ => Iff.rfl, fun _ _ _ => rfl⟩
  rw [pooled, pooled, delSession, List.any_filter]
  congr 1
  funext p
  by_cases hp : p.2 = j
  · simp [hp, hj]
  · simp [hp]

theorem mayStop_self : (w.mayStop r).reactor r = { w.reactor r with stop := true } :=
  Function.update_self ..

theorem mayStop_session (r' : Nat) : ((w.mayStop r).reactor r').session = (w.reactor r').session := by
  by_cases hr : r' = r
  · subst hr
    rw [mayStop_self]
  · exact congrArg ISCSIReactor.session (Function.update_of_ne hr ..)

theorem mayStop_findReactor (sid : Nat) : (w.mayStop r).findReactor sid = w.findReactor sid := by
  unfold findReactor getSessionID
  simp only [mayStop_session]
  rfl

theorem spared_mayStop (h : (w.reactor r).session = id ∨ (w.reactor r).stop = true) :
    Spared id w (w.mayStop r) := by
  refine ⟨fun _ _ => rfl, fun _ _ => rfl, fun r' => ?_, fun r' _ hother => ?_⟩
  · rw [mayStop_session]
    rfl
  · by_cases hr : r' = r
    · subst hr
      have hstop := h.resolve_left hother
      refine (Function.update_self ..).trans ?_
      cases hreactor : w.reactor r' with
      | mk session stop =>
        rw [hreactor] at hstop
        obtain rfl : stop = true := hstop
        rfl
    · exact Function.update_of_ne hr ..

theorem spared_addConnection : Spared id w (w.addConnection id fd) := by
  unfold addConnection
  split
  · exact .refl id w
  · exact spared_setSes _

end spared

theorem Listed.attended (h : Listed w id) : Attended w id := by
  obtain ⟨hpool, -⟩ | ⟨-, r, hfind, hr, -⟩ := h
  · exact .inl hpool
  · refine .inr ⟨r, List.mem_of_find?_eq_some hfind, ?_⟩
    rw [hr]
    exact ⟨rfl, rfl⟩

theorem pooled_delSession : (w.delSession id).pooled id = false := by
  rw [pooled, delSession, List.any_eq_false]
  intro p hp
  simpa using (List.mem_filter.mp hp).2

theorem mayStop_running {r' : Nat} (h : ((w.mayStop r).reactor r').stop = false) :
    r' ≠ r ∧ (w.mayStop r).reactor r' = w.reactor r' := by
  have hreactor : (w.mayStop r).reactor = Function.update w.reactor
      r { w.reactor r with stop := true } := rfl
  have hr : r' ≠ r := by
    intro hr
    rw [hreactor, hr, Function.update_self] at h
    exact absurd h Bool.noConfusion
  exact ⟨hr, by rw [hreactor, Function.update_of_ne hr]⟩

theorem attended_of_mayStop (h : Attended (w.mayStop r) id) : Attended w id := by
  obtain hpool | ⟨r', hmem, hsession, hstop⟩ := h
  · exact .inl hpool
  · obtain ⟨-, hsame⟩ := mayStop_running hstop
    rw [hsame] at hsession hstop
    exact .inr ⟨r', hmem, hsession, hstop⟩

theorem not_attended_delSession (hfree : ∀ r ∈ w.reactors, (w.reactor r).session ≠ id) :
    ¬ Attended (w.delSession id) id := by
  rintro (hpool | ⟨r, hmem, hsession, -⟩)
  · exact absurd (hpool.symm.trans pooled_delSession) Bool.noConfusion
  · exact hfree r hmem hsession

theorem not_attended_mayStop (hpool : w.pooled id = false)
    (honly : ∀ r' ∈ w.reactors, (w.reactor r').session = id → r' = r) : ¬ Attended (w.mayStop r) id := by
  rintro (hpool' | ⟨r', hmem, hsession, hstop⟩)
  · exact absurd (hpool'.symm.trans hpool) Bool.noConfusion
  · rw [mayStop_session] at hsession
    exact (mayStop_running hstop).1 (honly r' hmem hsession)

section Last

theorem cleanUp_pooled (hlast : (w.ses id).connection.length ≤ 1) (hpool : w.pooled id = true) :
    w.cleanUp id fd = w.delSession id := by
  unfold cleanUp
  rw [if_pos hlast, if_pos hpool]

theorem cleanUp_reactor (hlast : (w.ses id).connection.length ≤ 1) (hpool : w.pooled id = false)
    (hfind : w.findReactor (w.ses id).sid = some r) : w.cleanUp id fd = w.mayStop r := by
  unfold cleanUp
  rw [if_pos hlast, if_neg (by rw [hpool]; exact Bool.noConfusion), hfind]

theorem cleanUp_unknown (hlast : (w.ses id).connection.length ≤ 1) (hpool : w.pooled id = false)
    (hfind : w.findReactor (w.ses id).sid = none) : w.cleanUp id fd = w := by
  unfold cleanUp
  rw [if_pos hlast, if_neg (by rw [hpool]; exact Bool.noConfusion), hfind]

theorem cleanUp_last (fd : Nat) (h : Listed w id) (hlast : (w.ses id).connection.length ≤ 1) :
    ¬ Attended (w.cleanUp id fd) id ∧ Spared id w (w.cleanUp id fd) := by
  obtain ⟨hpool, hfree⟩ | ⟨hpool, r, hfind, hr, honly⟩ := h
  · rw [cleanUp_pooled hlast hpool]
    exact ⟨not_attended_delSession hfree, spared_delSession⟩
  · rw [cleanUp_reactor hlast hpool hfind]
    exact ⟨not_attended_mayStop hpool honly, spared_mayStop (.inl (congrArg ISCSIReactor.session hr))⟩

theorem cleanUp_again (fd : Nat) (h : Listed w id) (hlast : (w.ses id).connection.length ≤ 1) :
    ¬ Attended ((w.cleanUp id fd).cleanUp id fd) id ∧
      (Spared id w ((w.cleanUp id fd).cleanUp id fd) ↔
        (w.pooled id = true → ∀ r, w.findReactor (w.ses id).sid = some r →
          (w.reactor r).stop = true)) := by
  obtain ⟨hpool, hfree⟩ | ⟨hpool, r, hfind, hr, honly⟩ := h
  · have hgone := not_attended_delSession hfree
    rw [cleanUp_pooled hlast hpool]
    cases hfind : w.findReactor (w.ses id).sid with
    | none =>
      rw [cleanUp_unknown (w := w.delSession id) hlast pooled_delSession hfind]
      exact ⟨hgone, fun _ _ r hr => absurd hr nofun, fun _ => spared_delSession⟩
    | some r =>
      have hr : r ∈ w.reactors := List.mem_of_find?_eq_some hfind
      rw [cleanUp_reactor (w := w.delSession id) hlast pooled_delSession hfind]
      refine ⟨mt attended_of_mayStop hgone, fun hspared _ r' heq => ?_, fun hstop => ?_⟩
      · obtain rfl := Option.some.inj heq
        rw [← hspared.reactor r hr (hfree r hr)]
        exact congrArg ISCSIReactor.stop (mayStop_self (w := w.delSession id))
      · exact spared_delSession.trans (spared_mayStop (.inr (hstop hpool r rfl)))
  · have hfind' : (w.mayStop r).findReactor (w.ses id).sid = some r :=
      (mayStop_findReactor _).trans hfind
    have hsession : (w.reactor r).session = id := congrArg ISCSIReactor.session hr
    rw [cleanUp_reactor hlast hpool hfind, cleanUp_reactor (w := w.mayStop r) hlast hpool hfind']
    refine ⟨mt attended_of_mayStop (not_attended_mayStop hpool honly), fun _ hpool' => ?_, fun _ => ?_⟩
    · exact absurd (hpool'.symm.trans hpool) Bool.noConfusion
    · exact (spared_mayStop (.inl hsession)).trans
        (spared_mayStop (.inl ((mayStop_session r).trans hsession)))

end Last

section Logout

variable {cid : Nat}

theorem reason_ne : LogoutRequest.reasonCloseConnection ≠ LogoutRequest.reasonCloseSession :=
  Nat.one_ne_zero

theorem runLogout_found (h : cid ∈ (w.ses id).connection) :
    runLogout w id fd cid = .ok (w.delConnection id fd) := by
  unfold runLogout logoutReason
  rw [if_neg reason_ne, if_pos rfl, if_pos h]
  rfl

theorem runLogout_unknown (h : cid ∉ (w.ses id).connection) : runLogout w id fd cid =
    if (w.ses id).window.type = .discovery then .ok (w.delSession id) else w.removeReactorTask id := by
  unfold runLogout logoutReason endSessionTask
  rw [if_neg reason_ne, if_pos rfl, if_neg h]
  split
  · rfl
  · exact bind_pure (w.removeReactorTask id)

theorem runLogout_last (fd : Nat) (h : Listed w id) (hcid : cid ∉ (w.ses id).connection)
    (htype : (w.ses id).window.type = .discovery ↔ w.pooled id = true) :
    ∃ w', runLogout w id fd cid = .ok w' ∧ ¬ Attended w' id ∧ Spared id w w' := by
  rw [runLogout_unknown hcid]
  obtain ⟨hpool, hfree⟩ | ⟨hpool, r, hfind, hr, honly⟩ := h
  · rw [if_pos (htype.mpr hpool)]
    exact ⟨_, rfl, not_attended_delSession hfree, spared_delSession⟩
  · have hnormal : (w.ses id).window.type ≠ .discovery := fun hd => by
      exact absurd (hpool.symm.trans (htype.mp hd)) Bool.noConfusion
    rw [if_neg hnormal, removeReactorTask, hfind]
    exact ⟨_, rfl, not_attended_mayStop hpool honly,
      spared_mayStop (.inl (congrArg ISCSIReactor.session hr))⟩

theorem runLogout_gone (h : Listed w id) (hcid : cid ∉ (w.ses id).connection)
    (hrun : runLogout w id fd cid = .ok w') :
    (w'.ses id).connection = (w.ses id).connection ∧
      (¬ Attended w' id → ((w.ses id).window.type = .discovery ↔ w.pooled id = true)) := by
  rw [runLogout_unknown hcid] at hrun
  split at hrun
  · next htype =>
    obtain rfl := Except.ok.inj hrun
    refine ⟨rfl, fun hgone => ⟨fun _ => ?_, fun _ => htype⟩⟩
    obtain ⟨hpool, -⟩ | ⟨-, r, hfind, hr, -⟩ := h
    · exact hpool
    · have hsession : (w.reactor r).session = id := congrArg ISCSIReactor.session hr
      exact absurd (.inr ⟨r, List.mem_of_find?_eq_some hfind, hsession,
        congrArg ISCSIReactor.stop hr⟩) hgone
  · next htype =>
    rw [removeReactorTask] at hrun
    split at hrun
    · cases hrun
    · obtain rfl := Except.ok.inj hrun
      exact ⟨rfl, fun hgone => ⟨fun hd => absurd hd htype, fun hpool => absurd (.inl hpool) hgone⟩⟩

end Logout

theorem delConnection_connection : ((w.delConnection id fd).ses id).connection =
    (w.ses id).connection.filter (· ≠ fd) :=
  congrArg LoginSession.connection (setSes_ses_self w id _)

theorem delConnection_sid : ∀ j, ((w.delConnection id fd).ses j).sid = (w.ses j).sid := by
  intro j
  by_cases hj : j = id
  · subst hj
    rw [delConnection, setSes_ses_self]
  · rw [delConnection, setSes_ses_of_ne hj]

theorem Listed.congr (h : Listed w id) (hsessions : w'.sessions = w.sessions)
    (hreactors : w'.reactors = w.reactors)
    (hreactor : w'.reactor = w.reactor) (hsid : ∀ j, (w'.ses j).sid = (w.ses j).sid) : Listed w' id := by
  have hfind : ∀ sid, w'.findReactor sid = w.findReactor sid := by
    intro sid
    unfold findReactor getSessionID
    rw [hreactors, hreactor]
    simp only [hsid]
  unfold Listed pooled at h ⊢
  rw [hsessions, hreactors, hreactor, hfind, hsid]
  exact h

theorem Begun.delConnection (h : Begun w id fds) (hne : fds.filter (· ≠ fd) ≠ []) :
    Begun (w.delConnection id fd) id (fds.filter (· ≠ fd)) where
  connection := by rw [delConnection_connection, h.connection]
  ne := hne
  nodup := h.nodup.filter _
  registered := h.registered
  listed := h.listed.congr rfl rfl rfl delConnection_sid

theorem Begun.addConnection (h : Begun w id fds) (hfd : fd ∉ fds) :
    Begun (w.addConnection id fd) id (fds ++ [fd]) := by
  have hadd : w.addConnection id fd = w.setSes id { w.ses id with connection := fds ++ [fd] } := by
    rw [Target.addConnection, h.connection, if_neg hfd]
  rw [hadd]
  refine ⟨by rw [setSes_ses_self], List.append_ne_nil_of_right_ne_nil _ (List.cons_ne_nil _ _),
    ?_, h.registered,
    h.listed.congr rfl rfl rfl fun j => ?_⟩
  · exact List.nodup_append.mpr ⟨h.nodup, List.pairwise_singleton _ fd, fun a ha b hb hab =>
      hfd (List.mem_singleton.mp hb ▸ hab ▸ ha)⟩
  · by_cases hj : j = id
    · subst hj
      rw [setSes_ses_self]
    · rw [setSes_ses_of_ne hj]

theorem Begun.handOver_reactor (h : Begun w id fds) (hr : r ∈ w.reactors) :
    (handOver w id fd).reactor r = w.reactor r := by
  rw [ReactorHandOff.handOver_reactor]
  exact Function.update_of_ne (Nat.ne_of_lt (h.registered r hr)) ..

theorem Begun.handOver_getSessionID (h : Begun w id fds) (hr : r ∈ w.reactors) :
    (handOver w id fd).getSessionID r = w.getSessionID r := by
  unfold getSessionID
  rw [h.handOver_reactor hr, handOver_ses]

theorem Begun.created (h : Begun w id fds) (hrun : w.createReactorTask id fd = .ok w') :
    w' = { handOver w id fd with reactors := w.constructed :: w.reactors } ∧
      (handOver w id fd).getSessionID w.constructed = (w.ses id).sid ∧
      ∀ r ∈ w.reactors, (w.reactor r).session ≠ id := by
  have hnew : (handOver w id fd).getSessionID w.constructed = (w.ses id).sid := by
    unfold getSessionID
    rw [handOver_session, handOver_ses]
  rw [createReactorTask_eq] at hrun
  split at hrun
  swap
  · exact absurd hrun nofun
  unfold addReactor at hrun
  split at hrun
  · exact absurd hrun nofun
  next hfresh =>
  obtain rfl := Except.ok.inj hrun
  rw [handOver_reactors] at hfresh ⊢
  refine ⟨rfl, hnew, fun r hr hsession => hfresh (List.any_eq_true.mpr ⟨r, hr, decide_eq_true ?_⟩)⟩
  rw [h.handOver_getSessionID hr, hnew, getSessionID, hsession]

theorem Begun.createReactorTask (h : Begun w id fds) (hrun : w.createReactorTask id fd = .ok w') :
    Begun w' id fds ∧ Spared id w w' := by
  obtain ⟨rfl, hnew, hfree⟩ := h.created hrun
  have hsessions : (handOver w id fd).sessions = (w.delSession id).sessions := handOver_sessions
  have hconstructed : (handOver w id fd).constructed = w.constructed + 1 := leaveListener_constructed
  have hreactor : (handOver w id fd).reactor w.constructed = ⟨id, false⟩ :=
    (congrFun ReactorHandOff.handOver_reactor _).trans (Function.update_self ..)
  have hpool : (handOver w id fd).pooled id = false := by
    rw [pooled, hsessions]
    exact pooled_delSession (w := w)
  refine ⟨⟨?_, h.ne, h.nodup, fun r hr => ?_,
    .inr ⟨hpool, w.constructed, ?_, hreactor, fun r hr hsession => ?_⟩⟩,
    ⟨fun j _ => congrFun handOver_ses j, fun j hj => ?_, fun r => ⟨?_, ?_⟩,
      fun r hr _ => h.handOver_reactor hr⟩⟩
  · exact (congrArg LoginSession.connection (congrFun handOver_ses id)).trans h.connection
  · dsimp only
    rw [hconstructed]
    obtain rfl | hr := List.mem_cons.mp hr
    · exact Nat.lt_succ_self _
    · exact Nat.lt_succ_of_lt (h.registered r hr)
  · exact List.find?_cons_of_pos (decide_eq_true
      (hnew.trans (congrArg LoginSession.sid (congrFun handOver_ses id)).symm))
  · obtain rfl | hr := List.mem_cons.mp hr
    · rfl
    · exact absurd ((congrArg ISCSIReactor.session (h.handOver_reactor hr)).symm.trans hsession)
        (hfree r hr)
  · have hother := spared_delSession.pooled (w := w) j hj
    rw [pooled] at hother ⊢
    dsimp only
    rw [hsessions]
    exact hother
  · rintro ⟨hmem, hsession⟩
    obtain rfl | hr := List.mem_cons.mp hmem
    · exact absurd (congrArg ISCSIReactor.session hreactor) hsession
    · dsimp only at hsession
      rw [h.handOver_reactor hr] at hsession
      exact ⟨hr, hsession⟩
  · rintro ⟨hr, hsession⟩
    refine ⟨List.mem_cons_of_mem _ hr, ?_⟩
    dsimp only
    rwa [h.handOver_reactor hr]

theorem length_le_one_iff (hnodup : fds.Nodup) (hfd : fd ∈ fds) : fds.length ≤ 1 ↔
    fds.filter (· ≠ fd) = [] := by
  constructor
  · intro hle
    obtain ⟨g, rfl⟩ := List.length_eq_one_iff.mp (hle.antisymm (List.length_pos_of_mem hfd))
    obtain rfl := List.mem_singleton.mp hfd
    exact List.filter_eq_nil_iff.mpr fun g hg => by simpa using hg
  · intro hnil
    have hall : ∀ g ∈ fds, g = fd := fun g hg => by simpa using List.filter_eq_nil_iff.mp hnil g hg
    have hrep := List.eq_replicate_of_mem hall
    rw [hrep] at hnodup ⊢
    rw [List.length_replicate]
    exact List.nodup_replicate.mp hnodup

theorem others_eq_nil_iff (h : Begun w id s.live) (hfd : fd ∈ s.live) :
    (w.ses id).connection.length ≤ 1 ↔ others s fd = [] := by
  rw [h.connection]
  exact length_le_one_iff h.nodup hfd

theorem cleanUp_eq (h : Begun w id s.live) (hfd : fd ∈ s.live) (hothers : others s fd ≠ []) :
    w.cleanUp id fd = w.delConnection id fd := by
  unfold cleanUp
  exact if_neg (mt (others_eq_nil_iff h hfd).mp hothers)

section Conns

variable {c c' : Connections} {n i : Nat}

theorem recv_fields (h : Connections.doRecv streams c fd n = some c') : c'.opened = c.opened := by
  obtain ⟨⟨ok, buf, tok⟩, -, rfl⟩ := Option.map_eq_some_iff.mp h
  rfl

theorem handled_chunk (h : c.step streams (.chunk fd n none) = some c') :
    c'.tok.bhss = [] ∧ c'.opened = c.opened := by
  rw [Connections.step] at h
  split at h
  swap
  · cases h
  obtain ⟨c₁, hrecv, hwork⟩ := Option.bind_eq_some_iff.mp h
  obtain rfl := Option.some.inj hwork
  exact ⟨rfl, (recv_fields hrecv :)⟩

theorem failed_chunk (h : c.step streams (.chunk fd n (some i)) = some c') : c'.tok.bhss ≠ [] := by
  rw [Connections.step] at h
  split at h
  swap
  · cases h
  obtain ⟨c₁, -, hwork⟩ := Option.bind_eq_some_iff.mp h
  rw [Connections.doWork] at hwork
  split at hwork
  swap
  · cases hwork
  next hlt =>
  obtain rfl := Option.some.inj hwork
  exact mt List.drop_eq_nil_iff.mp (Nat.not_le.mpr hlt)

end Conns

/-- An arrival is undisturbed when the connections that are left have no part of a PDU
in the tokenizer. -/
theorem Inv.undisturbed (h : Inv streams count w₀ id s) (hfd : fd ∈ s.live) {n : Nat} {fail : Option Nat}
    (ha : Apart streams count s (.chunk fd n fail)) :
    Connections.Undisturbed streams count s.conns fd n := by
  obtain ⟨hempty, hclear⟩ := h.clear (List.ne_nil_of_mem hfd)
  refine ⟨ha.1, hempty, fun fd' hne => ?_⟩
  by_cases hlive : fd' ∈ s.live
  · exact ha.2 fd' hlive hne
  · exact hclear fd' hlive

theorem held_of_attended (h : Attended w id) : held w id = (w.ses id).connection := if_pos h

theorem Inv.held (h : Inv streams count w₀ id s) : held s.target id = s.live := by
  by_cases hlive : s.live = []
  · rw [hlive]
    exact if_neg (h.gone hlive)
  · rw [held_of_attended (h.begun hlive).listed.attended]
    exact (h.begun hlive).connection

theorem Inv.right (h : Inv streams count w₀ id s) : Right streams w₀ id s :=
  ⟨⟨fun ha hnil => h.gone hnil ha, fun hne => (h.begun hne).listed.attended⟩, h.held, h.clear, h.spared⟩

theorem not_mem_others {fd' : Nat} (h : fd' ∉ others s fd) : fd' = fd ∨ fd' ∉ s.live := by
  by_cases heq : fd' = fd
  · exact .inl heq
  · exact .inr fun hlive => h (List.mem_filter.mpr ⟨hlive, by simpa using heq⟩)

theorem self_not_mem_others : fd ∉ others s fd := fun h => by simpa using (List.mem_filter.mp h).2

theorem Inv.closed (h : Inv streams count w₀ id s) (hfd : fd ∈ s.live) (hothers : others s fd ≠ [])
    (hwhole : Whole streams s fd) {conns : Connections}
    (hc : s.conns.step streams (.close fd) = some conns) :
    Inv streams count w₀ id ⟨s.target.delConnection id fd, conns, others s fd⟩ := by
  have hlive := List.ne_nil_of_mem hfd
  obtain ⟨ks, hks⟩ := h.framing
  obtain ⟨hempty, hclear⟩ := h.clear hlive
  obtain rfl := Option.some.inj hc
  refine ⟨⟨ks, hks.close hc⟩, fun _ => (h.begun hlive).delConnection hothers,
    fun hnil => absurd hnil hothers,
    fun fd' hfd' => ?_, fun _ => ⟨hempty, fun fd' hfd' => ?_⟩, h.spared.trans (spared_setSes _)⟩
  · obtain ⟨hmem, hne⟩ := List.mem_filter.mp hfd'
    exact (Function.update_of_ne (by simpa using hne) _ _).trans (h.opened fd' hmem)
  · obtain rfl | hgone := not_mem_others hfd'
    · exact hwhole
    · exact hclear fd' hgone

theorem Inv.joined (h : Inv streams count w₀ id s) (hne : s.live ≠ []) (hfd : fd ∉ s.live)
    (hopened : s.conns.opened fd = true) :
    Inv streams count w₀ id
      { s with target := s.target.addConnection id fd, live := s.live ++ [fd] } := by
  obtain ⟨hempty, hclear⟩ := h.clear hne
  refine ⟨h.framing, fun _ => (h.begun hne).addConnection hfd, fun hnil => ?_, fun fd' hfd' => ?_,
    fun _ => ⟨hempty, fun fd' hfd' => hclear fd' fun hlive => hfd' (List.mem_append_left _ hlive)⟩,
    h.spared.trans spared_addConnection⟩
  · exact absurd hnil (List.append_ne_nil_of_right_ne_nil _ (List.cons_ne_nil _ _))
  · obtain hlive | hnew := List.mem_append.mp hfd'
    · exact h.opened fd' hlive
    · rw [List.mem_singleton.mp hnew]
      exact hopened

theorem Inv.received (h : Inv streams count w₀ id s) (hfd : fd ∈ s.live) {n : Nat}
    {conns : Connections}
    (hc : s.conns.step streams (.chunk fd n none) = some conns)
    (hconns : ∃ ks, Connections.Inv streams count conns ks) :
    Inv streams count w₀ id { s with conns } := by
  obtain ⟨hempty, hopened⟩ := handled_chunk hc
  refine ⟨hconns, h.begun, h.gone, hopened ▸ h.opened, fun _ => ⟨hempty, fun fd' hfd' => ?_⟩, h.spared⟩
  have hne : fd' ≠ fd := fun heq => hfd' (heq ▸ hfd)
  have hread : conns.read fd' = s.conns.read fd' := by
    rw [Connections.read_of_step hc, Function.update_of_ne hne]
  unfold Whole
  dsimp only
  rw [hread]
  exact (h.clear (List.ne_nil_of_mem hfd)).2 fd' hfd'

theorem inv_last {conns : Connections} (hconns : ∃ ks, Connections.Inv streams count conns ks)
    (hothers : others s fd = []) (hw : ¬ Attended w id) (hspared : Spared id w₀ w) :
    Inv streams count w₀ id ⟨w, conns, others s fd⟩ :=
  ⟨hconns, fun hne => absurd hothers hne, fun _ => hw,
    fun _ hfd' => absurd (hothers ▸ hfd') List.not_mem_nil,
    fun hne => absurd hothers hne, hspared⟩

theorem Right.connection_ne {conns : Connections} (h : Right streams w₀ id ⟨w, conns, others s fd⟩)
    (ha : Attended w id) (hfd : fd ∈ s.live) : (w.ses id).connection ≠ s.live := by
  intro heq
  have hheld : held w id = others s fd := h.connection
  rw [held_of_attended ha, heq] at hheld
  exact self_not_mem_others (s := s) (hheld ▸ hfd)

section Steps

variable {n i cid : Nat}

theorem step_join (hs : step streams id s (.join fd) = some s') :
    (s.live ≠ [] ∧ fd ∉ s.live ∧ s.conns.read fd = 0 ∧ s.conns.opened fd = true) ∧
      s' = { s with target := s.target.addConnection id fd, live := s.live ++ [fd] } := by
  rw [step] at hs
  split at hs
  swap
  · exact absurd hs nofun
  · exact ⟨‹_›, (Option.some.inj hs).symm⟩

theorem step_create (hs : step streams id s (.create fd) = some s') :
    fd ∈ s.live ∧ ∃ w', s.target.createReactorTask id fd = .ok w' ∧ s' = { s with target := w' } := by
  rw [step] at hs
  split at hs
  swap
  · exact absurd hs nofun
  split at hs
  · next hrun => exact ⟨‹_›, _, hrun, (Option.some.inj hs).symm⟩
  · exact absurd hs nofun

theorem step_handled (hs : step streams id s (.chunk fd n none) = some s') :
    fd ∈ s.live ∧ ∃ conns, s.conns.step streams (.chunk fd n none) = some conns ∧
      s' = { s with conns } := by
  rw [step] at hs
  split at hs
  swap
  · exact absurd hs nofun
  obtain ⟨conns, hc, heq⟩ := Option.map_eq_some_iff.mp hs
  exact ⟨‹_›, conns, hc, heq.symm⟩

theorem step_failed (hs : step streams id s (.chunk fd n (some i)) = some s') :
    fd ∈ s.live ∧ ∃ conns, s.conns.step streams (.chunk fd n (some i)) = some conns ∧
      s' = ⟨(s.target.cleanUp id fd).cleanUp id fd, conns, others s fd⟩ := by
  rw [step] at hs
  split at hs
  swap
  · exact absurd hs nofun
  obtain ⟨conns, hc, heq⟩ := Option.map_eq_some_iff.mp hs
  exact ⟨‹_›, conns, hc, heq.symm⟩

theorem step_close (hs : step streams id s (.close fd) = some s') :
    fd ∈ s.live ∧ ∃ conns, s.conns.step streams (.close fd) = some conns ∧
      s' = ⟨s.target.cleanUp id fd, conns, others s fd⟩ := by
  rw [step] at hs
  split at hs
  swap
  · exact absurd hs nofun
  obtain ⟨conns, hc, heq⟩ := Option.map_eq_some_iff.mp hs
  exact ⟨‹_›, conns, hc, heq.symm⟩

theorem step_logout (hs : step streams id s (.logout fd cid) = some s') :
    fd ∈ s.live ∧ ∃ w' conns, runLogout s.target id fd cid = .ok w' ∧
      s.conns.step streams (.close fd) = some conns ∧
      s' = ⟨w', conns, others s fd⟩ := by
  rw [step] at hs
  split at hs
  swap
  · exact absurd hs nofun
  split at hs
  swap
  · exact absurd hs nofun
  next hrun =>
  obtain ⟨conns, hc, heq⟩ := Option.map_eq_some_iff.mp hs
  exact ⟨‹_›, _, conns, hrun, hc, heq.symm⟩

theorem logout_isSome (hfd : fd ∈ s.live) (hrun : runLogout s.target id fd cid = .ok w') :
    (step streams id s (.logout fd cid)).isSome := by
  rw [step, if_pos hfd, hrun]
  rfl

end Steps

theorem inv_step (hcount : 2 ≤ count) (h : Inv streams count w₀ id s) (e : Event)
    (ha : Apart streams count s e)
    (ht : Tidy streams id s e) (hs : step streams id s e = some s') : Inv streams count w₀ id s' := by
  obtain ⟨ks, hks⟩ := h.framing
  cases e with
  | join fd =>
    obtain ⟨⟨hne, hfd, -, hopened⟩, rfl⟩ := step_join hs
    exact h.joined hne hfd hopened
  | create fd =>
    obtain ⟨hfd, target, hrun, rfl⟩ := step_create hs
    have hlive := List.ne_nil_of_mem hfd
    obtain ⟨hbegun, hspared⟩ := (h.begun hlive).createReactorTask hrun
    exact ⟨⟨ks, hks⟩, fun _ => hbegun, fun hnil => absurd hnil hlive, h.opened, h.clear,
      h.spared.trans hspared⟩
  | chunk fd n fail =>
    cases fail with
    | none =>
      obtain ⟨hfd, conns, hc, rfl⟩ := step_handled hs
      exact h.received hfd hc (hks.chunk hcount (h.undisturbed hfd ha) hc)
    | some i =>
      obtain ⟨hfd, conns, hc, rfl⟩ := step_failed hs
      have hlive := List.ne_nil_of_mem hfd
      have hconns := hks.chunk hcount (h.undisturbed hfd ha) hc
      obtain ⟨hothers, hstopped⟩ := ht
      have hlast := (others_eq_nil_iff (h.begun hlive) hfd).mpr hothers
      obtain ⟨hgone, hspared⟩ := cleanUp_again fd (h.begun hlive).listed hlast
      exact inv_last hconns hothers hgone (h.spared.trans (hspared.mpr hstopped))
  | close fd =>
    obtain ⟨hfd, conns, hc, rfl⟩ := step_close hs
    have hlive := List.ne_nil_of_mem hfd
    by_cases hothers : others s fd = []
    · have hlast := (others_eq_nil_iff (h.begun hlive) hfd).mpr hothers
      obtain ⟨hgone, hspared⟩ := cleanUp_last fd (h.begun hlive).listed hlast
      exact inv_last ⟨ks, hks.close hc⟩ hothers hgone (h.spared.trans hspared)
    · rw [cleanUp_eq (h.begun hlive) hfd hothers]
      exact h.closed hfd hothers (ht.resolve_left hothers) hc
  | logout fd cid =>
    obtain ⟨hfd, w', conns, hrun, hc, rfl⟩ := step_logout hs
    have hbegun := h.begun (List.ne_nil_of_mem hfd)
    rw [Tidy] at ht
    split at ht
    · next hcid =>
      obtain rfl := Except.ok.inj ((runLogout_found (hbegun.connection ▸ hcid)).symm.trans hrun)
      exact h.closed hfd ht.1 ht.2 hc
    · next hcid =>
      obtain ⟨w'', hrun', hgone, hspared⟩ :=
        runLogout_last fd hbegun.listed (hbegun.connection ▸ hcid) ht.2
      obtain rfl := Except.ok.inj (hrun'.symm.trans hrun)
      exact inv_last ⟨ks, hks.close hc⟩ ht.1 hgone (h.spared.trans hspared)

theorem isSome_of_tidy (h : Inv streams count w₀ id s) {e : Event} (ho : Occurs streams id s e)
    (ht : Tidy streams id s e) : (step streams id s e).isSome := by
  cases e with
  | logout fd cid =>
    have hbegun := h.begun (List.ne_nil_of_mem ho)
    rw [Tidy] at ht
    split at ht
    · next hcid => exact logout_isSome ho (runLogout_found (hbegun.connection ▸ hcid))
    · next hcid =>
      obtain ⟨w', hrun, -⟩ := runLogout_last fd hbegun.listed (hbegun.connection ▸ hcid) ht.2
      exact logout_isSome ho hrun
  | join | create | chunk | close => exact ho

theorem tidy_of_right (h : Inv streams count w₀ id s) (e : Event) (hs : step streams id s e = some s')
    (hright : Right streams w₀ id s') : Tidy streams id s e := by
  cases e with
  | join fd => trivial
  | create fd => trivial
  | chunk fd n fail =>
    cases fail with
    | none => trivial
    | some i =>
      obtain ⟨hfd, conns, hc, rfl⟩ := step_failed hs
      have hbegun := h.begun (List.ne_nil_of_mem hfd)
      -- the PDU that failed waits for the others
      have hothers : others s fd = [] := by
        by_contra hothers
        exact failed_chunk hc (hright.clear hothers).1
      have hlast := (others_eq_nil_iff hbegun hfd).mpr hothers
      exact ⟨hothers, (cleanUp_again _ hbegun.listed hlast).2.mp (h.spared.between hright.spared)⟩
  | close fd =>
    obtain ⟨hfd, conns, hc, rfl⟩ := step_close hs
    obtain rfl := Option.some.inj hc
    by_cases hothers : others s fd = []
    · exact .inl hothers
    · exact .inr ((hright.clear hothers).2 fd self_not_mem_others)
  | logout fd cid =>
    obtain ⟨hfd, w', conns, hrun, hc, rfl⟩ := step_logout hs
    obtain rfl := Option.some.inj hc
    have hbegun := h.begun (List.ne_nil_of_mem hfd)
    rw [Tidy]
    split
    · next hcid =>
      obtain rfl := Except.ok.inj ((runLogout_found (hbegun.connection ▸ hcid)).symm.trans hrun)
      have hothers : others s fd ≠ [] := hright.attended.mp hbegun.listed.attended
      exact ⟨hothers, (hright.clear hothers).2 fd self_not_mem_others⟩
    · next hcid =>
      obtain ⟨hconn, htype⟩ := runLogout_gone hbegun.listed (hbegun.connection ▸ hcid) hrun
      -- a session that is still attended has the connection that ended
      have hgone : ¬ Attended w' id := fun ha => hright.connection_ne ha hfd
        (hconn.trans hbegun.connection)
      exact ⟨by_contra fun hothers => hgone (hright.attended.mpr hothers), htype hgone⟩

theorem right_iff_tidy (hcount : 2 ≤ count) (h : Inv streams count w₀ id s) (e : Event)
    (ha : Apart streams count s e)
    (ho : Occurs streams id s e) :
    (∃ s', step streams id s e = some s' ∧ Right streams w₀ id s') ↔ Tidy streams id s e := by
  refine ⟨fun ⟨s', hs, hright⟩ => tidy_of_right h e hs hright, fun ht => ?_⟩
  obtain ⟨s', hs⟩ := Option.isSome_iff_exists.mp (isSome_of_tidy h ho ht)
  exact ⟨s', hs, (inv_step hcount h e ha ht hs).right⟩

theorem inv_start {mrdsLength : Nat} {mem : Nat → Nat → Nat → UInt8} (h : Begun w id fds) :
    Inv streams (max (mrdsLength / commonBufSize + 1) 2) w id (start mrdsLength mem w fds) := by
  have hinv := Connections.inv_start streams mrdsLength mem
  refine ⟨⟨_, hinv⟩, fun _ => h, fun hnil => absurd hnil h.ne, fun _ _ => rfl,
    fun _ => ⟨rfl, fun fd _ => ?_⟩,
    .refl id w⟩
  have htaken := (hinv.placed fd).held.taken_eq
  exact (congrArg (pduStart (streams fd)) htaken).symm

/-- Where bytes of one connection arrive when the others have no part of a PDU in the
tokenizer, and each connection ends tidily, the others are there and are served as if
they were alone, and the session, and no other, is given up with its last connection; and
of all ways in which a connection may end next, just the tidy ones leave the session right. -/
theorem removed_of_tidy (streams : Nat → Nat → UInt8) (mrdsLength : Nat)
    (mem : Nat → Nat → Nat → UInt8) (id : Nat)
    (w : Target) (fds : List Nat) (hbegun : Begun w id fds) {s : State}
    (h : Reachable (start mrdsLength mem w fds) (step streams id)
      (Neat streams (max (mrdsLength / commonBufSize + 1) 2) id) s) :
    Removed streams (max (mrdsLength / commonBufSize + 1) 2) w id s ∧
      ∀ e, Apart streams (max (mrdsLength / commonBufSize + 1) 2) s e → Occurs streams id s e →
        ((∃ s', step streams id s e = some s' ∧ Right streams w id s') ↔ Tidy streams id s e) := by
  have hcount : 2 ≤ max (mrdsLength / commonBufSize + 1) 2 := Nat.le_max_right _ _
  have hi := h.invariant (Inv streams (max (mrdsLength / commonBufSize + 1) 2) w id) (inv_start hbegun)
    fun s e s' hi hok hs => inv_step hcount hi e hok.1 hok.2 hs
  refine ⟨⟨hi.right, fun fd hfd => ?_, fun fd hfd n hpos hn ha => ?_⟩,
    fun e ha ho => right_iff_tidy hcount hi e ha ho⟩
  · obtain ⟨ks, hks⟩ := hi.framing
    exact ⟨hks.alone fd, hi.opened fd hfd⟩
  · obtain ⟨ks, hks⟩ := hi.framing
    rw [step, if_pos hfd, Option.isSome_map]
    exact hks.chunk_isSome hcount (hi.opened fd hfd) hpos hn (hi.undisturbed hfd ha)

/-- A session with the connections 5 and 6, at its reactor. -/
def sampleTarget : Target where
  ses := fun _ => { LoginSession.new (fun _ => 0) (fun _ => false) 5 with connection := [5, 6] }
  accepted := 1
  conn := fun _ => { listener := some (.reactor 0) }
  ports := fun l => if l = .reactor 0 then [5, 6] else []
  sessions := []
  reactor := fun _ => ⟨0, false⟩
  constructed := 1
  reactors := [0]
  tsihGen := 1

theorem begun_sample : Begun sampleTarget 0 [5, 6] := by
  refine ⟨rfl, by decide, by decide, fun r hr => ?_, .inr ⟨rfl, 0, rfl, rfl, fun r hr _ => ?_⟩⟩
  · rw [List.mem_singleton.mp hr]
    exact Nat.one_pos
  · exact List.mem_singleton.mp hr

/-- A connection is closed behind a whole PDU. -/
theorem removed_first_of_two : ∃ s, Reachable (start 512 (fun _ _ _ => 0) sampleTarget [5, 6])
    (step (fun _ => sampleStream) 0)
    (Neat (fun _ => sampleStream) (max (512 / commonBufSize + 1) 2) 0) s ∧
      s.live = [6] ∧ s.conns.read 5 = 560 ∧ Removed (fun _ => sampleStream)
        (max (512 / commonBufSize + 1) 2) sampleTarget 0 s := by
  have htaken₀ : taken sampleStream 0 = 0 := by decide +kernel
  have htaken : taken sampleStream 560 = 1 := Receiver.taken_eq (by decide +kernel) (by decide +kernel)
  have hfits : Fits sampleStream (max (512 / commonBufSize + 1) 2) 0 560 :=
    ⟨⟨by decide +kernel, by decide +kernel⟩, fun j _ hj => by
      rw [Nat.zero_add, htaken] at hj
      obtain rfl : j = 0 := by omega
      exact .inr (by decide +kernel)⟩
  have hapart : Apart (fun _ => sampleStream) (max (512 / commonBufSize + 1) 2)
      (start 512 (fun _ _ _ => 0) sampleTarget [5, 6]) (.chunk 5 560 none) :=
    ⟨hfits, fun fd _ _ => (congrArg (pduStart sampleStream) htaken₀).symm⟩
  obtain ⟨s₁, hs₁⟩ := Option.isSome_iff_exists.mp
    ((removed_of_tidy (fun _ => sampleStream) 512 (fun _ _ _ => 0) 0
    sampleTarget [5, 6] begun_sample .start).1.handled 5 List.mem_cons_self 560 (by decide)
      (by decide +kernel) hapart)
  have hreach₁ : Reachable (start 512 (fun _ _ _ => 0) sampleTarget [5, 6])
    (step (fun _ => sampleStream) 0)
      (Neat (fun _ => sampleStream) (max (512 / commonBufSize + 1) 2) 0) s₁ :=
    .step .start (show Neat _ _ _ _ (.chunk 5 560 none) from ⟨hapart, trivial⟩) hs₁
  rw [step, if_pos (by decide)] at hs₁
  obtain ⟨conns, hc, rfl⟩ := Option.map_eq_some_iff.mp hs₁
  have hread : conns.read 5 = 560 := congrFun (Connections.read_of_step hc) 5
  have hwhole : conns.read 5 = pduStart sampleStream (taken sampleStream (conns.read 5)) := by
    rw [hread, htaken]
    decide +kernel
  have hreach₂ := hreach₁.step (show Neat _ _ _ _ (.close 5) from ⟨trivial, .inr hwhole⟩) rfl
  exact ⟨_, hreach₂, rfl, hread,
    (removed_of_tidy (fun _ => sampleStream) 512 (fun _ _ _ => 0) 0 sampleTarget [5, 6]
      begun_sample hreach₂).1⟩

/-- A PDU that is rejected on one of two connections: the clean-up of `recv` gives the
session up with the other one. -/
theorem not_right_rejected : ∃ s, Reachable (start 512 (fun _ _ _ => 0) sampleTarget [5, 6])
    (step Connections.zeroStream 0) (fun _ _ => True) s ∧ s.live = [6] ∧ ¬ Attended s.target 0 ∧
      ¬ Right Connections.zeroStream sampleTarget 0 s := by
  have hrun : (exec (step Connections.zeroStream 0) (start 512 (fun _ _ _ => 0) sampleTarget [5, 6])
      [.chunk 5 48 (some 0)]).map (fun s => (s.live, s.target.pooled 0, s.target.reactors,
        (s.target.reactor 0).stop)) =
        some ([6], false, [0], true) := by decide +kernel
  obtain ⟨s, hs, heq⟩ := Option.map_eq_some_iff.mp hrun
  obtain ⟨hlive, hrest⟩ := Prod.mk.inj heq
  obtain ⟨hpool, hrest⟩ := Prod.mk.inj hrest
  obtain ⟨hreactors, hstop⟩ := Prod.mk.inj hrest
  have hgone : ¬ Attended s.target 0 := by
    rintro (hpool' | ⟨r, hr, -, hrunning⟩)
    · exact absurd (hpool'.symm.trans hpool) Bool.noConfusion
    · rw [hreactors] at hr
      rw [List.mem_singleton.mp hr, hstop] at hrunning
      exact absurd hrunning Bool.noConfusion
  refine ⟨s, reachable_of_exec .start hs, hlive, hgone, fun hright => hgone (hright.attended.mpr ?_)⟩
  rw [hlive]
  exact List.cons_ne_nil _ _

end Sstoraged.ConnectionRemoval
