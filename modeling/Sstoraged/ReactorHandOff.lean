import Sstoraged.LoginRequired

namespace Sstoraged.ReactorHandOff

open Outcome Runs Target

/-- The loops that run: the manager's, and that of each registered reactor. -/
def Running (w : Target) : Listener → Prop
  | .manager => True
  | .reactor r => r ∈ w.reactors

/-- Exactly one running loop waits for the connection. -/
def Served (w : Target) (fd : Nat) : Prop := ∃! l, Running w l ∧ fd ∈ w.ports l

/-- The task does not meet a reactor of its session id where it is to register one for
a connection that is still there, and finds one where it is to stop one. -/
def Due (w : Target) : SessionTask → Prop
  | .createReactor id fd => fd ∈ (w.ses id).connection → w.findReactor (w.ses id).sid = none
  | .removeReactor id => w.findReactor (w.ses id).sid ≠ none
  | _ => True

instance (w : Target) (t : SessionTask) : Decidable (Due w t) :=
  match t with
  | .createReactor _ _ => inferInstanceAs (Decidable (_ → _))
  | .removeReactor _ => inferInstanceAs (Decidable (_ ≠ _))
  | .sendLogin _ _ | .sendLogout _ _ | .closeSession _ | .closeConnection _ _ => isTrue trivial

/-- The condition: tasks run when they are due, and a reactor leaves its loop when it
serves no connection that is also one of a session that someone else has. -/
def Orderly (w : Target) : TargetEvent → Prop
  | .run id _ => ∀ t ∈ (w.ses id).sendtask.head?, Due w t.2
  | .exit r => ∀ id, id < w.accepted → (w.delReactor r).isHeld id = true → ∀ fd ∈ (w.ses id).connection,
      fd ∉ (w.ses (w.reactor r).session).connection ∧ (w.conn fd).listener ≠ some (.reactor r)
  | _ => True

/-- The ports that the loops wait for are those whose connections name them. -/
structure Wired (w : Target) : Prop where
  ports : ∀ l fd, fd ∈ w.ports l ↔ (w.conn fd).listener = some l
  reactor : ∀ fd r, (w.conn fd).listener = some (.reactor r) → r < w.constructed
  registered : ∀ r ∈ w.reactors, r < w.constructed

/-- The sessions in `H` are served; they are at least those that someone has. -/
structure Serving (H : Nat → Prop) (w : Target) : Prop where
  wired : Wired w
  served : ∀ id, id < w.accepted → H id → ∀ fd ∈ (w.ses id).connection,
    ∃ l, Running w l ∧ (w.conn fd).listener = some l
  held : ∀ id, w.isHeld id = true → H id
  own : ∀ id, ∀ t ∈ (w.ses id).sendtask, ∀ id' fd, t.2 = .createReactor id' fd → id' = id

/-- A step that neither serves nor keeps anything new. -/
structure Releases (w w' : Target) : Prop where
  ports : w'.ports = w.ports
  listener : ∀ fd, (w'.conn fd).listener = (w.conn fd).listener
  constructed : w'.constructed = w.constructed
  reactors : w'.reactors = w.reactors
  accepted : w'.accepted = w.accepted
  session : ∀ r, (w'.reactor r).session = (w.reactor r).session
  sessions : w'.sessions ⊆ w.sessions
  connection : ∀ id, (w'.ses id).connection ⊆ (w.ses id).connection
  sendtask : ∀ id, (w'.ses id).sendtask ⊆ (w.ses id).sendtask

variable {H : Nat → Prop} {cfg : Config} {l : LinearLimitter} {w w' w'' : Target} {id fd r : Nat}

theorem Releases.refl (w : Target) : Releases w w :=
  ⟨rfl, fun _ => rfl, rfl, rfl, rfl, fun _ => rfl, List.Subset.refl _, fun _ => List.Subset.refl _,
    fun _ => List.Subset.refl _⟩

theorem Releases.trans (h : Releases w w') (h' : Releases w' w'') : Releases w w'' where
  ports := h'.ports.trans h.ports
  listener fd := (h'.listener fd).trans (h.listener fd)
  constructed := h'.constructed.trans h.constructed
  reactors := h'.reactors.trans h.reactors
  accepted := h'.accepted.trans h.accepted
  session r := (h'.session r).trans (h.session r)
  sessions := List.Subset.trans h'.sessions h.sessions
  connection id := List.Subset.trans (h'.connection id) (h.connection id)
  sendtask id := List.Subset.trans (h'.sendtask id) (h.sendtask id)

theorem any_of_subset {α : Type} {p : α → Bool} {xs ys : List α} (h : xs ⊆ ys) (hx : xs.any p = true) :
    ys.any p = true := by
  obtain ⟨x, hm, hp⟩ := List.any_eq_true.mp hx
  exact List.any_eq_true.mpr ⟨x, h hm, hp⟩

theorem Releases.isHeld (h : Releases w w') (hheld : w'.isHeld id = true) : w.isHeld id = true := by
  unfold Target.isHeld at hheld ⊢
  simp only [Bool.or_eq_true, h.reactors, h.session] at hheld ⊢
  exact hheld.imp (Or.imp_left (any_of_subset h.sessions)) (any_of_subset (h.sendtask id))

theorem Wired.releases (hw : Wired w) (h : Releases w w') : Wired w' := by
  refine ⟨fun l fd => ?_, fun fd r hr => ?_, ?_⟩
  · rw [h.ports, h.listener]
    exact hw.ports l fd
  · rw [h.listener] at hr
    rw [h.constructed]
    exact hw.reactor fd r hr
  · rw [h.reactors, h.constructed]
    exact hw.registered

theorem running_congr (h : w'.reactors = w.reactors) {l : Listener} (hl : Running w l) :
    Running w' l := by
  cases l with
  | manager => trivial
  | reactor r =>
    unfold Running at hl ⊢
    rwa [h]

theorem Serving.releases (hs : Serving H w) (h : Releases w w') : Serving H w' where
  wired := hs.wired.releases h
  served id hid hH fd hfd := by
    obtain ⟨l, hl, hlisten⟩ := hs.served id (h.accepted ▸ hid) hH fd (h.connection id hfd)
    exact ⟨l, running_congr h.reactors hl, (h.listener fd).trans hlisten⟩
  held id hheld := hs.held id (h.isHeld hheld)
  own id t ht := hs.own id t (h.sendtask id ht)

theorem releases_setSes {s : LoginSession} (hc : s.connection ⊆ (w.ses id).connection)
    (ht : s.sendtask ⊆ (w.ses id).sendtask) : Releases w (w.setSes id s) := by
  refine ⟨rfl, fun _ => rfl, rfl, rfl, rfl, fun _ => rfl, List.Subset.refl _, fun j => ?_, fun j => ?_⟩
  · by_cases hj : j = id
    · subst hj
      rw [setSes_ses_self]
      exact hc
    · rw [setSes_ses_of_ne hj]
      exact List.Subset.refl _
  · by_cases hj : j = id
    · subst hj
      rw [setSes_ses_self]
      exact ht
    · rw [setSes_ses_of_ne hj]
      exact List.Subset.refl _

theorem releases_setConn {c : ISCSIConnection} (h : c.listener = (w.conn fd).listener) :
    Releases w (w.setConn fd c) := by
  refine ⟨rfl, fun fd' => ?_, rfl, rfl, rfl, fun _ => rfl, List.Subset.refl _,
    fun _ => List.Subset.refl _,
    fun _ => List.Subset.refl _⟩
  by_cases hfd : fd' = fd
  · subst hfd
    exact (congrArg _ (Function.update_self ..)).trans h
  · exact congrArg _ (Function.update_of_ne hfd ..)

theorem releases_delSession : Releases w (w.delSession id) :=
  ⟨rfl, fun _ => rfl, rfl, rfl, rfl, fun _ => rfl, List.filter_subset_self ..,
    fun _ => List.Subset.refl _,
    fun _ => List.Subset.refl _⟩

theorem releases_mayStop : Releases w (w.mayStop r) := by
  refine ⟨rfl, fun _ => rfl, rfl, rfl, rfl, fun r' => ?_, List.Subset.refl _,
    fun _ => List.Subset.refl _,
    fun _ => List.Subset.refl _⟩
  by_cases hr : r' = r
  · subst hr
    unfold mayStop
    dsimp only
    rw [Function.update_self]
  · exact congrArg _ (Function.update_of_ne hr ..)

theorem releases_delConnection : Releases w (w.delConnection id fd) :=
  releases_setSes (List.filter_subset_self ..) (List.Subset.refl _)

theorem releases_cleanUp : Releases w (w.cleanUp id fd) := by
  unfold cleanUp
  split
  · split
    · exact releases_delSession
    · split
      · exact .refl w
      · exact releases_mayStop
  · exact releases_delConnection

theorem releases_setTasks {tasks : List (Nat × SessionTask)} (h : tasks ⊆ (w.ses id).sendtask) :
    Releases w (w.setTasks id tasks) := releases_setSes (List.Subset.refl _) h

theorem releases_setSid {sid cid : Nat} : Releases w (w.setSid id fd sid cid) := by
  have hses : Releases w (w.setSes id { w.ses id with sid }) :=
    releases_setSes (List.Subset.refl _) (List.Subset.refl _)
  exact hses.trans (releases_setConn rfl)

theorem mem_leaveListener (hw : Wired w) {l : Listener} {fd' : Nat} :
    fd' ∈ (w.leaveListener fd).ports l ↔ fd' ≠ fd ∧ fd' ∈ w.ports l := by
  have hother : ∀ l', (w.conn fd).listener ≠ some l' →
      (fd' ∈ w.ports l' ↔ fd' ≠ fd ∧ fd' ∈ w.ports l') := by
    intro l' hne
    refine ⟨fun hmem => ⟨?_, hmem⟩, And.right⟩
    rintro rfl
    exact hne ((hw.ports l' fd').mp hmem)
  unfold leaveListener
  split
  · next l₀ hl₀ =>
    unfold delPort
    dsimp only
    by_cases hl : l = l₀
    · subst hl
      rw [Function.update_self, List.mem_filter, decide_eq_true_eq, and_comm]
    · rw [Function.update_of_ne hl]
      exact hother l fun hn => hl (Option.some.inj (hn.symm.trans hl₀))
  · next hnone => exact hother l (hnone ▸ Option.some_ne_none l |>.symm)

theorem leaveListener_conn : (w.leaveListener fd).conn = w.conn := by
  unfold leaveListener
  split <;> rfl

theorem leaveListener_constructed : (w.leaveListener fd).constructed = w.constructed := by
  unfold leaveListener
  split <;> rfl

theorem leaveListener_reactors : (w.leaveListener fd).reactors = w.reactors := by
  unfold leaveListener
  split <;> rfl

theorem changeListener_listener {fd' : Nat} : ((w.changeListener fd r).conn fd').listener =
    if fd' = fd then some (.reactor r) else (w.conn fd').listener := by
  unfold changeListener
  dsimp only [addPort, setConn]
  by_cases hfd : fd' = fd
  · rw [if_pos hfd, hfd, Function.update_self]
  · rw [if_neg hfd, Function.update_of_ne hfd, leaveListener_conn]

theorem wired_changeListener (hw : Wired w) (hr : r < w.constructed) :
    Wired (w.changeListener fd r) := by
  have hconstructed : (w.changeListener fd r).constructed = w.constructed := leaveListener_constructed
  have hreactors : (w.changeListener fd r).reactors = w.reactors := leaveListener_reactors
  refine ⟨fun l fd' => ?_, fun fd' r' hr' => ?_, ?_⟩
  · rw [changeListener_listener]
    have hports : fd' ∈ (w.changeListener fd r).ports l ↔
        (fd' ≠ fd ∧ fd' ∈ w.ports l) ∨ l = .reactor r ∧ fd' = fd := by
      unfold changeListener
      dsimp only [addPort, setConn]
      by_cases hl : l = .reactor r
      · subst hl
        rw [Function.update_self, List.mem_append, List.mem_singleton, mem_leaveListener hw]
        simp only [true_and]
      · rw [Function.update_of_ne hl, mem_leaveListener hw]
        simp only [hl, false_and, or_false]
    rw [hports]
    by_cases hfd : fd' = fd
    · simp only [hfd, ne_eq, not_true_eq_false, false_and, and_true, false_or, if_true,
        Option.some.injEq]
      exact eq_comm
    · simp only [hfd, ne_eq, not_false_eq_true, true_and, and_false, or_false, if_false]
      exact hw.ports l fd'
  · rw [hconstructed]
    rw [changeListener_listener] at hr'
    split at hr'
    · exact Listener.reactor.inj (Option.some.inj hr') ▸ hr
    · exact hw.reactor fd' r' hr'
  · rw [hconstructed, hreactors]
    exact hw.registered

theorem changeListener_isHeld : (w.changeListener fd r).isHeld id = w.isHeld id := by
  unfold changeListener leaveListener
  dsimp only
  split <;> rfl

theorem serving_changeListener (hs : Serving H w) (hr : r ∈ w.reactors) :
    Serving H (w.changeListener fd r) := by
  have hreactors : (w.changeListener fd r).reactors = w.reactors := leaveListener_reactors
  refine ⟨wired_changeListener hs.wired (hs.wired.registered r hr), fun id hid hH fd' hfd' => ?_,
    fun id hheld => hs.held id (changeListener_isHeld ▸ hheld), fun id => ?_⟩
  · rw [changeListener_accepted] at hid
    rw [changeListener_ses] at hfd'
    obtain ⟨l, hl, hlisten⟩ := hs.served id hid hH fd' hfd'
    by_cases hfd : fd' = fd
    · have hrun : Running w (.reactor r) := hr
      exact ⟨.reactor r, running_congr hreactors hrun, changeListener_listener.trans (if_pos hfd)⟩
    · exact ⟨l, running_congr hreactors hl, changeListener_listener.trans ((if_neg hfd).trans hlisten)⟩
  · rw [changeListener_ses]
    exact hs.own id

theorem setSes_isHeld {s : LoginSession} {j : Nat} (h : s.sendtask = (w.ses id).sendtask) :
    (w.setSes id s).isHeld j = w.isHeld j := by
  have htasks : ((w.setSes id s).ses j).sendtask = (w.ses j).sendtask := by
    by_cases hj : j = id
    · rw [hj, setSes_ses_self, h]
    · rw [setSes_ses_of_ne hj]
  unfold Target.isHeld
  rw [htasks]
  rfl

theorem serving_addConnection (hs : Serving H w) {l : Listener} (hl : Running w l)
    (hfd : (w.conn fd).listener = some l) : Serving H (w.addConnection id fd) := by
  unfold addConnection
  split
  · exact hs
  refine ⟨⟨hs.wired.ports, hs.wired.reactor, hs.wired.registered⟩, fun j hj hH fd' hfd' => ?_,
    fun j hheld => hs.held j ?_, fun j => ?_⟩
  · by_cases hid : j = id
    · subst hid
      rw [setSes_ses_self] at hfd'
      rcases List.mem_append.mp hfd' with hold | hnew
      · exact hs.served j hj hH fd' hold
      · exact ⟨l, hl, List.mem_singleton.mp hnew ▸ hfd⟩
    · rw [setSes_ses_of_ne hid] at hfd'
      exact hs.served j hj hH fd' hfd'
  · have hsame : (w.setSes id { w.ses id with connection := (w.ses id).connection ++ [fd] }).isHeld
      j = w.isHeld j :=
      setSes_isHeld rfl
    exact hsame.symm.trans hheld
  · by_cases hid : j = id
    · subst hid
      rw [setSes_ses_self]
      exact hs.own j
    · rw [setSes_ses_of_ne hid]
      exact hs.own j

/-- The new tasks are the session's own. -/
def OwnTasks (id : Nat) (tasks : List SessionTask) : Prop :=
  ∀ t ∈ tasks, ∀ id' fd, t = .createReactor id' fd → id' = id

theorem serving_pushTasks (hs : Serving H w) (hH : H id) {addr : SessionTask → Nat}
    {tasks : List SessionTask}
    (ht : OwnTasks id tasks) : Serving H (w.pushTasks id addr tasks) := by
  have hmem : ∀ j, ∀ t ∈ ((w.pushTasks id addr tasks).ses j).sendtask,
      t ∈ (w.ses j).sendtask ∨ j = id ∧ ∃ t' ∈ tasks, (addr t', t') = t := by
    intro j t htj
    unfold pushTasks setTasks at htj
    by_cases hid : j = id
    · subst hid
      rw [setSes_ses_self] at htj
      exact (List.mem_merge.mp htj).imp_right fun hnew => ⟨rfl, List.mem_map.mp hnew⟩
    · rw [setSes_ses_of_ne hid] at htj
      exact .inl htj
  have hconn : ∀ j, ((w.pushTasks id addr tasks).ses j).connection = (w.ses j).connection := by
    intro j
    unfold pushTasks setTasks
    by_cases hid : j = id
    · rw [hid, setSes_ses_self]
    · rw [setSes_ses_of_ne hid]
  refine ⟨⟨hs.wired.ports, hs.wired.reactor, hs.wired.registered⟩, fun j hj hHj fd' hfd' => ?_,
    fun j hheld => ?_, fun j t htj id' fd heq => ?_⟩
  · exact hs.served j hj hHj fd' (hconn j ▸ hfd')
  · by_cases hid : j = id
    · exact hid ▸ hH
    · refine hs.held j ?_
      have htasks : ((w.pushTasks id addr tasks).ses j).sendtask = (w.ses j).sendtask :=
        congrArg _ (setSes_ses_of_ne hid)
      unfold Target.isHeld at hheld ⊢
      rw [htasks] at hheld
      exact hheld
  · rcases hmem j t htj with hold | ⟨rfl, t', ht', rfl⟩
    · exact hs.own j t hold id' fd heq
    · exact ht t' ht' id' fd heq

/-- The pointers that handlers and tasks may use besides a reactor. -/
abbrev NotReactor (p : Pointer) : Prop := p ≠ .reactor

theorem serving_findConnection {failed : Target → Prop} :
    Ends NotReactor failed (fun _ => fd ∈ (w.ses id).connection) (w.findConnection id fd) := by
  unfold findConnection
  split
  · next hmem => exact hmem
  · exact Pointer.noConfusion

theorem serving_joinSession {req : LoginRequest} (hs : Serving H w) (hr : r ∈ w.reactors) :
    Ends NotReactor (Serving H) (Serving H) (w.joinSession id fd r req) := by
  have hjoin : ∀ {v : Target}, Serving H v → r ∈ v.reactors →
      Serving H ((v.changeListener fd r).addConnection (w.reactor r).session fd) := by
    intro v hv hrv
    have hreactors : (v.changeListener fd r).reactors = v.reactors := leaveListener_reactors
    have hrun : Running v (.reactor r) := hrv
    exact serving_addConnection (serving_changeListener hv hrv) (running_congr hreactors hrun)
      (changeListener_listener.trans (if_pos rfl))
  unfold joinSession
  dsimp only
  split
  · split
    · exact hs
    · refine serving_findConnection.bind fun _ _ => ?_
      have hstatsn : Releases w (w.setConn fd { w.conn fd with statsn := (w.conn req.cid).statsn }) :=
        releases_setConn rfl
      exact hjoin (hs.releases (hstatsn.trans releases_delConnection)) hr
  · exact serving_findConnection.bind fun _ _ => hjoin hs hr

theorem serving_handle1stRequest {req : LoginRequest} (hs : Serving H w) :
    Ends NotReactor (Serving H) (fun p => Serving H p.1 ∧ OwnTasks id p.2)
      (w.handle1stRequest id fd req) := by
  have hsid : Ends NotReactor (Serving H) (fun _ => Serving H (w.setSid id fd req.sid req.cid))
      (w.findConnection id fd) :=
    serving_findConnection.mono (fun _ h => h) fun _ _ => hs.releases releases_setSid
  unfold handle1stRequest
  split
  · unfold handle1stDiscoveryRequest
    split
    · exact hs
    · exact hsid.bind fun _ h => ⟨h, fun t ht => absurd ht List.not_mem_nil⟩
  · unfold handle1stNormalRequest
    split
    · split
      · exact hs
      · refine hsid.bind fun _ h => ⟨h, fun t ht id' fd' heq => ?_⟩
        obtain rfl := List.mem_singleton.mp ht
        exact (SessionTask.createReactor.inj heq).1.symm
    · next r hr =>
      dsimp only
      split
      · refine hsid.bind fun _ h => ⟨h, fun t ht id' fd' heq => ?_⟩
        rcases List.mem_cons.mp ht with rfl | ht
        · exact absurd heq nofun
        · obtain rfl := List.mem_singleton.mp ht
          exact (SessionTask.createReactor.inj heq).1.symm
      · split
        · exact hs
        · refine (serving_joinSession hs (List.mem_of_find?_eq_some hr)).bind fun _ h =>
            ⟨h.releases releases_setSid, fun t ht id' fd' heq => ?_⟩
          obtain rfl := List.mem_singleton.mp ht
          exact absurd heq nofun
  · exact hs

theorem releases_setType {type : SessionType} : Releases w (w.setType id type) :=
  releases_setSes (List.Subset.refl _) (List.Subset.refl _)

theorem serving_beginSession {req : LoginRequest} {pairs : List (String × String)} (hs : Serving H w) :
    Ends NotReactor (Serving H) (fun p => Serving H p.1 ∧ OwnTasks id p.2)
      (w.beginSession id fd req pairs) := by
  unfold beginSession
  split
  · exact serving_handle1stRequest (hs.releases releases_setType)
  · exact ⟨hs, fun t ht => absurd ht List.not_mem_nil⟩

theorem releases_advance {s : LoginSession} {poolnum : Nat} {immediate : Bool}
    (h : (w.ses id).advanceCMDSNs l poolnum immediate = some s) : Releases w (w.setSes id s) := by
  obtain ⟨_, -, rfl⟩ := Option.map_eq_some_iff.mp h
  exact releases_setSes (List.Subset.refl _) (List.Subset.refl _)

theorem releases_negotiating {s : LoginSession} {pairs : List (String × String)}
    (h : Negotiating pairs (w.ses id) s) : Releases w (w.setSes id s) :=
  releases_setSes (h.connection ▸ List.Subset.refl _) (h.sendtask ▸ List.Subset.refl _)

theorem serving_negotiate {pairs : List (String × String)} (hs : Serving H w) :
    Ends NotReactor (Serving H) (fun p => Serving H p.1) (w.negotiate cfg id pairs) := by
  have hpairs : Ends NotReactor (Negotiating pairs (w.ses id))
    (fun p => Negotiating pairs (w.ses id) p.1)
      (handlePairs cfg pairs pairs (w.ses id) []) := by
    refine (ends_handlePairs pairs (w.ses id) []).mono_null fun p hp => ?_
    rcases hp with rfl | rfl <;> exact Pointer.noConfusion
  exact .bind (hpairs.mapStop fun _ h => hs.releases (releases_negotiating h)) fun _ h =>
    hs.releases (releases_negotiating h)

theorem ends_shift (s : LoginSession) :
    Ends NotReactor (fun t => t = s) (fun t => t.connection = s.connection ∧
      t.sendtask = s.sendtask) s.shift := by
  unfold LoginSession.shift
  split
  · exact ⟨rfl, rfl⟩
  · unfold LoginSession.shift2Normal
    split
    · exact Pointer.noConfusion
    · exact ⟨rfl, rfl⟩
  · exact rfl

theorem serving_shiftStage {nsg : UInt8} (hs : Serving H w) :
    Ends NotReactor (Serving H) (Serving H) (w.shiftStage id nsg) := by
  unfold shiftStage
  split
  · exact hs
  split
  · have htsih : Releases w (w.setTSIH id) := by
      unfold setTSIH
      split
      · have hnext : Releases w w.getNextTSIH.2 := ⟨rfl, fun _ => rfl, rfl, rfl, rfl, fun _ => rfl,
          List.Subset.refl _, fun _ => List.Subset.refl _, fun _ => List.Subset.refl _⟩
        exact hnext.trans (releases_setSes (List.Subset.refl _) (List.Subset.refl _))
      · exact .refl w
    have hs := hs.releases htsih
    refine .bind ((ends_shift _).mapStop fun t ht => ?_) fun t ht => ?_
    · subst ht
      exact hs.releases (releases_setSes (List.Subset.refl _) (List.Subset.refl _))
    · exact hs.releases (releases_setSes (ht.1 ▸ List.Subset.refl _) (ht.2 ▸ List.Subset.refl _))
  · exact hs

theorem OwnTasks.cons {task : SessionTask} {tasks : List SessionTask} (h : OwnTasks id tasks)
    (ht : ∀ id' fd, task ≠ .createReactor id' fd) : OwnTasks id (task :: tasks) := by
  intro t hmem id' fd heq
  rcases List.mem_cons.mp hmem with rfl | hmem
  · exact absurd heq (ht id' fd)
  · exact h t hmem id' fd heq

theorem serving_reply (hs : Serving H w) (hH : H id) {addr : SessionTask → Nat}
    {tasks : List SessionTask}
    (ht : OwnTasks id tasks) : Serving H ((w.advanceSTATSN fd).pushTasks id addr tasks) := by
  have hstatsn : Serving H (w.advanceSTATSN fd) := hs.releases (releases_setConn rfl)
  exact serving_pushTasks hstatsn hH ht

theorem serving_handleLogin {poolnum : Nat} {addr : SessionTask → Nat} {req : LoginRequest}
    (hs : Serving H w)
    (hH : H id) : Ends NotReactor (Serving H) (Serving H)
      (w.handleLogin cfg l id fd poolnum addr req) := by
  have hparse : Ends NotReactor (Serving H) (fun _ => True)
      ((parsePairs cfg req.data).mapError (Stop.map fun _ => w)) :=
    .mono_null (.mapStop (ends_parsePairs _) fun _ _ => hs) fun _ => False.elim
  unfold handleLogin
  split
  · exact hs
  refine hparse.bind fun pairs _ => ?_
  refine (serving_beginSession hs).bind fun ⟨w₁, tasks⟩ ⟨hs₁, htasks⟩ => ?_
  have hadvance : Ends NotReactor (Serving H) (fun s => Serving H (w₁.setSes id s))
      (ofOption ((w₁.ses id).advanceCMDSNs l poolnum req.immediate)) :=
    ends_ofOption.mpr fun s hs => hs₁.releases (releases_advance hs)
  refine hadvance.bind fun s hs₂ => ?_
  refine serving_findConnection.bind fun _ _ => ?_
  have hstatsn : Serving H ((w₁.setSes id s).advanceSTATSN fd) := hs₂.releases (releases_setConn rfl)
  refine (serving_negotiate hstatsn).bind fun ⟨w₃, reply⟩ hs₃ => ?_
  exact (serving_shiftStage hs₃).bind fun w₄ hs₄ =>
    serving_pushTasks hs₄ hH (htasks.cons fun _ _ => nofun)

theorem ownTasks_logoutReason {req : LogoutRequest} : OwnTasks id (w.logoutReason id fd req).2 := by
  have hnil : OwnTasks id [] := fun t ht => absurd ht List.not_mem_nil
  have hend : OwnTasks id [w.endSessionTask id] := by
    refine hnil.cons fun _ _ => ?_
    unfold endSessionTask
    split <;> nofun
  unfold logoutReason
  split
  · exact hend
  split
  · split
    · exact hnil.cons fun _ _ => nofun
    · exact hend
  split <;> exact hnil

theorem serving_handleLogout {addr : SessionTask → Nat} {req : LogoutRequest}
    (hs : Serving H w) (hH : H id) :
    Ends NotReactor (Serving H) (Serving H) (w.handleLogout id fd addr req) := by
  unfold handleLogout
  split
  · exact hs
  exact serving_findConnection.bind fun _ _ =>
    serving_reply hs hH (ownTasks_logoutReason.cons fun _ _ => nofun)

theorem serving_handleOther {kind : PduKind} {poolnum : Nat} {immediate accepted : Bool}
    (hs : Serving H w) :
    Ends NotReactor (Serving H) (Serving H) (w.handleOther l id kind poolnum immediate accepted) := by
  have hvalid : Ends NotReactor (Serving H) (Serving H)
      (w.handleValid l id kind poolnum immediate accepted) := by
    unfold handleValid
    split
    · exact hs
    split
    · have hadvance : Ends NotReactor (Serving H) (fun s => Serving H (w.setSes id s))
          (ofOption ((w.ses id).advanceCMDSNs l poolnum immediate)) :=
        ends_ofOption.mpr fun s h => hs.releases (releases_advance h)
      exact hadvance.bind fun _ h => h
    · exact hs
  unfold handleOther
  split
  · exact hs
  · exact Pointer.noConfusion
  · exact hvalid

theorem serving_receive {pdu : Pdu} (hs : Serving H w) (hH : H id) :
    Ends NotReactor (Serving H) (Serving H) (w.receive cfg l id fd pdu) := by
  have hpdu : Ends NotReactor (Serving H) (Serving H) (w.handlePdu cfg l id fd pdu) := by
    cases pdu with
    | login poolnum addr req =>
      rw [handlePdu]
      split
      · exact hs
      · exact serving_handleLogin hs hH
    | logout addr req =>
      rw [handlePdu]
      split
      · exact hs
      · exact serving_handleLogout hs hH
    | other kind poolnum immediate accepted => exact serving_handleOther hs
  unfold receive
  split
  · next hfail =>
    rw [hfail] at hpdu
    exact Serving.releases (Serving.releases hpdu releases_cleanUp) releases_cleanUp
  · exact hpdu

theorem changeListener_reactor : (w.changeListener fd r).reactor = w.reactor := by
  unfold changeListener leaveListener
  dsimp only
  split <;> rfl

theorem changeListener_sessions : (w.changeListener fd r).sessions = w.sessions := by
  unfold changeListener leaveListener
  dsimp only
  split <;> rfl

theorem newReactor_reactor (hw : Wired w) (hr : r ∈ w.reactors) :
    (w.newReactor id).reactor r = w.reactor r :=
  Function.update_of_ne (Nat.ne_of_lt (hw.registered r hr)) ..

theorem newReactor_session : ((w.newReactor id).reactor w.constructed).session = id := by
  unfold newReactor
  dsimp only
  rw [Function.update_self]

/-- The session out of the pool, and its connection with the new reactor. -/
def handOver (w : Target) (id fd : Nat) : Target :=
  ((w.delSession id).newReactor id).changeListener fd w.constructed

theorem createReactorTask_eq : w.createReactorTask id fd =
    if fd ∈ (w.ses id).connection then (handOver w id fd).addReactor w.constructed
    else .error (.null .connection) := by
  have hfind : ((w.delSession id).newReactor id).findConnection id fd =
      if fd ∈ (w.ses id).connection then .ok () else .error (.null .connection) := rfl
  unfold createReactorTask
  dsimp only
  rw [hfind]
  split
  · rfl
  · rfl

theorem handOver_reactors : (handOver w id fd).reactors = w.reactors := leaveListener_reactors

theorem handOver_ses : (handOver w id fd).ses = w.ses := changeListener_ses

theorem handOver_reactor : (handOver w id fd).reactor = ((w.delSession id).newReactor id).reactor :=
  changeListener_reactor

theorem handOver_session : ((handOver w id fd).reactor w.constructed).session = id :=
  (congrArg _ (congrFun handOver_reactor _)).trans (newReactor_session (w := w.delSession id))

theorem handOver_registered (hw : Wired w) (hr : r ∈ w.reactors) :
    (handOver w id fd).reactor r = w.reactor r :=
  (congrFun handOver_reactor r).trans
    (newReactor_reactor (w := w.delSession id) (hw.releases releases_delSession) hr)

theorem handOver_sessions : (handOver w id fd).sessions = (w.delSession id).sessions :=
  changeListener_sessions

theorem handOver_listener {fd' : Nat} : ((handOver w id fd).conn fd').listener =
    if fd' = fd then some (.reactor w.constructed) else (w.conn fd').listener := changeListener_listener

theorem wired_handOver (hw : Wired w) : Wired (handOver w id fd) := by
  have hnew : Wired ((w.delSession id).newReactor id) :=
    ⟨hw.ports, fun fd r hr => Nat.lt_succ_of_lt (hw.reactor fd r hr),
      fun r hr => Nat.lt_succ_of_lt (hw.registered r hr)⟩
  exact wired_changeListener hnew (Nat.lt_succ_self _)

theorem handOver_any (hw : Wired w) : ((handOver w id fd).reactors.any fun r =>
    (handOver w id fd).getSessionID r = (handOver w id fd).getSessionID w.constructed) = true ↔
      w.findReactor (w.ses id).sid ≠ none := by
  have hids : ∀ r ∈ w.reactors, (handOver w id fd).getSessionID r = w.getSessionID r := by
    intro r hr
    unfold getSessionID
    rw [handOver_registered hw hr, handOver_ses]
  have hnew : (handOver w id fd).getSessionID w.constructed = (w.ses id).sid := by
    unfold getSessionID
    rw [handOver_session, handOver_ses]
  rw [hnew, handOver_reactors, ← Option.isSome_iff_ne_none, findReactor, List.find?_isSome,
    List.any_eq_true]
  refine exists_congr fun r => and_congr_right fun hr => ?_
  rw [hids r hr]

/-- With no reactor of its session id registered, the new reactor is registered and
takes the connection over. -/
theorem serving_createReactorTask (hs : Serving H w) (hH : H id) (hdue : Due w (.createReactor id fd)) :
    Ends NotReactor (fun _ => False) (Serving H) (w.createReactorTask id fd) := by
  rw [createReactorTask_eq]
  split
  swap
  · exact Pointer.noConfusion
  next hmem =>
  have hwired : Wired (handOver w id fd) := wired_handOver hs.wired
  unfold addReactor
  rw [if_neg fun hany => (handOver_any hs.wired).mp hany (hdue hmem)]
  refine ⟨⟨hwired.ports, hwired.reactor, fun r hr => ?_⟩, fun j hj hHj fd' hfd' => ?_,
    fun j hheld => ?_, ?_⟩
  · have hconstructed : (handOver w id fd).constructed = w.constructed + 1 := leaveListener_constructed
    dsimp only
    rw [hconstructed]
    obtain rfl | hr := List.mem_cons.mp hr
    · exact Nat.lt_succ_self _
    · exact Nat.lt_succ_of_lt (hs.wired.registered r (handOver_reactors ▸ hr))
  · have haccepted : (handOver w id fd).accepted = w.accepted := changeListener_accepted
    dsimp only at hj hfd'
    rw [haccepted] at hj
    rw [handOver_ses] at hfd'
    by_cases hfd : fd' = fd
    · exact ⟨.reactor w.constructed, List.mem_cons_self, handOver_listener.trans (if_pos hfd)⟩
    · obtain ⟨l, hl, hlisten⟩ := hs.served j hj hHj fd' hfd'
      refine ⟨l, ?_, handOver_listener.trans ((if_neg hfd).trans hlisten)⟩
      cases l with
      | manager => trivial
      | reactor r => exact List.mem_cons_of_mem _ (handOver_reactors.symm ▸ hl)
  · have hpool : (handOver w id fd).sessions ⊆ w.sessions :=
      handOver_sessions ▸ releases_delSession.sessions
    unfold Target.isHeld at hheld
    dsimp only at hheld
    rw [Bool.or_eq_true, Bool.or_eq_true, List.any_cons, Bool.or_eq_true, handOver_session,
      decide_eq_true_eq,
      handOver_reactors, handOver_ses] at hheld
    obtain (hp | rfl | hr) | ht := hheld
    · refine hs.held j ?_
      unfold Target.isHeld
      rw [Bool.or_eq_true, Bool.or_eq_true]
      exact .inl (.inl (any_of_subset hpool hp))
    · exact hH
    · refine hs.held j ?_
      obtain ⟨r, hr, heq⟩ := List.any_eq_true.mp hr
      rw [handOver_registered hs.wired hr] at heq
      unfold Target.isHeld
      rw [Bool.or_eq_true, Bool.or_eq_true]
      exact .inl (.inr (List.any_eq_true.mpr ⟨r, hr, heq⟩))
    · refine hs.held j ?_
      unfold Target.isHeld
      rw [Bool.or_eq_true]
      exact .inr ht
  · dsimp only
    rw [handOver_ses]
    exact hs.own

theorem destroy_listener {fd' : Nat} :
    ((w.destroy fd).conn fd').listener = if fd' = fd then none else (w.conn fd').listener := by
  unfold destroy
  dsimp only [setConn]
  by_cases hfd : fd' = fd
  · rw [if_pos hfd, hfd, Function.update_self]
  · rw [if_neg hfd, Function.update_of_ne hfd, leaveListener_conn]

theorem wired_destroy (hw : Wired w) : Wired (w.destroy fd) := by
  have hconstructed : (w.destroy fd).constructed = w.constructed := leaveListener_constructed
  have hreactors : (w.destroy fd).reactors = w.reactors := leaveListener_reactors
  refine ⟨fun l fd' => ?_, fun fd' r hr => ?_, ?_⟩
  · have hports : fd' ∈ (w.destroy fd).ports l ↔ fd' ≠ fd ∧ fd' ∈ w.ports l := mem_leaveListener hw
    rw [hports, destroy_listener]
    by_cases hfd : fd' = fd
    · simp only [hfd, ne_eq, not_true_eq_false, false_and, if_true, reduceCtorEq]
    · simp only [hfd, ne_eq, not_false_eq_true, true_and, if_false]
      exact hw.ports l fd'
  · rw [hconstructed]
    rw [destroy_listener] at hr
    split at hr
    · exact absurd hr nofun
    · exact hw.reactor fd' r hr
  · rw [hconstructed, hreactors]
    exact hw.registered

theorem destroy_eq :
    w.destroy fd = { w with conn := (w.destroy fd).conn, ports := (w.destroy fd).ports } := by
  unfold destroy leaveListener
  dsimp only
  split <;> rfl

theorem clearListener_eq : w.clearListener fd =
    if (w.conn fd).listener = none then .error (.null .listener) else .ok (w.destroy fd) := by
  unfold clearListener destroy leaveListener
  split
  · next hl => exact (if_neg (hl ▸ Option.some_ne_none _)).symm
  · next hl => exact (if_pos hl).symm

theorem clearListeners_cleared (fds : List Nat) : ∀ {w : Target}, Wired w →
    Ends NotReactor (fun _ => False) (fun w' => Wired w' ∧
      w' = { w with conn := w'.conn, ports := w'.ports } ∧
      ∀ fd, fd ∉ fds → (w'.conn fd).listener = (w.conn fd).listener) (w.clearListeners fds) := by
  induction fds with
  | nil => exact fun hw => ⟨hw, rfl, fun _ _ => rfl⟩
  | cons fd fds ih =>
    intro w hw
    have hclear : Ends NotReactor (fun _ => False) (fun w' => Wired w' ∧
        w' = { w with conn := w'.conn, ports := w'.ports } ∧
          ∀ fd', fd' ≠ fd → (w'.conn fd').listener = (w.conn fd').listener) (w.clearListener fd) := by
      rw [clearListener_eq]
      split
      · exact Pointer.noConfusion
      · exact ⟨wired_destroy hw, destroy_eq, fun fd' hne => destroy_listener.trans (if_neg hne)⟩
    refine hclear.bind fun w' ⟨hw', heq, hlisten⟩ => (ih hw').mono (fun _ h => h) fun w''
      ⟨hw'', heq', hlisten'⟩ =>
      ⟨hw'', ?_, fun fd' hfd' => ?_⟩
    · rw [heq', heq]
    · rw [List.mem_cons, not_or] at hfd'
      rw [hlisten' fd' hfd'.2, hlisten fd' hfd'.1]

theorem Serving.narrow {H' : Nat → Prop} (hs : Serving H w) (h : ∀ id, H' id → H id)
    (hheld : ∀ id, w.isHeld id = true → H' id) : Serving H' w :=
  ⟨hs.wired, fun id hid hH => hs.served id hid (h id hH), hheld, hs.own⟩

/-- The sessions that someone has are served. -/
abbrev Inv (w : Target) : Prop := Serving (fun id => w.isHeld id = true) w

theorem Serving.inv (hs : Serving H w) : Inv w := hs.narrow hs.held fun _ h => h

theorem isHeld_of_delReactor (h : (w.delReactor r).isHeld id = true) : w.isHeld id = true := by
  unfold Target.isHeld at h ⊢
  rw [Bool.or_eq_true, Bool.or_eq_true] at h ⊢
  exact h.imp_left (Or.imp_right (any_of_subset (List.filter_subset_self ..)))

theorem inv_exit (hs : Inv w) (hok : Orderly w (.exit r)) :
    Ends NotReactor (fun _ => False) Inv (w.exit r) := by
  refine (clearListeners_cleared _ hs.wired).bind fun w' ⟨hw', heq, hlisten⟩ => ?_
  have hses : w'.ses = w.ses := by rw [heq]
  have hreactors : w'.reactors = w.reactors := by rw [heq]
  have hheld : ∀ id, (w'.delReactor r).isHeld id = (w.delReactor r).isHeld id := by
    intro id
    rw [heq]
    rfl
  refine ⟨⟨hw'.ports, hw'.reactor, fun r' hr' => hw'.registered r' (List.mem_of_mem_filter hr')⟩,
    fun id hid hH fd hfd => ?_, fun id h => h, fun id => ?_⟩
  · have hold := hok id (by rwa [heq] at hid) ((hheld id).symm.trans hH) fd (hses ▸ hfd)
    obtain ⟨l, hl, hlistener⟩ := hs.served id (by rwa [heq] at hid)
      (isHeld_of_delReactor ((hheld id).symm.trans hH))
      fd (hses ▸ hfd)
    refine ⟨l, ?_, (hlisten fd hold.1).trans hlistener⟩
    cases l with
    | manager => trivial
    | reactor r' =>
      refine List.mem_filter.mpr ⟨hreactors.symm ▸ hl, decide_eq_true fun he => ?_⟩
      exact hold.2 (he ▸ hlistener)
  · exact hses ▸ hs.own id

theorem isLive_iff : w.isLive fd = true ↔ ∃ id < w.accepted, w.isHeld id = true ∧
    fd ∈ (w.ses id).connection := by
  unfold isLive
  simp only [List.any_eq_true, List.mem_range, Bool.and_eq_true, decide_eq_true_eq]

theorem inv_destroy (hs : Inv w) (hfree : ¬ w.isLive fd = true) : Inv (w.destroy fd) := by
  have heq : w.destroy fd = _ := destroy_eq
  have hses : (w.destroy fd).ses = w.ses := by rw [heq]
  have hheld : ∀ id, (w.destroy fd).isHeld id = w.isHeld id := by
    intro id
    rw [heq]
    rfl
  refine ⟨wired_destroy hs.wired, fun id hid hH fd' hfd' => ?_, fun id h => h,
    fun id => hses ▸ hs.own id⟩
  rw [show (w.destroy fd).accepted = w.accepted from leaveListener_accepted] at hid
  rw [hheld] at hH
  rw [hses] at hfd'
  obtain ⟨l, hl, hlistener⟩ := hs.served id hid hH fd' hfd'
  have hne : fd' ≠ fd := fun he => hfree (isLive_iff.mpr ⟨id, hid, hH, he ▸ hfd'⟩)
  exact ⟨l, running_congr leaveListener_reactors hl,
    destroy_listener.trans ((if_neg hne).trans hlistener)⟩

theorem not_mem_ports (hw : Wired w) (hfree : w.isFree fd = true) (l : Listener) : fd ∉ w.ports l := by
  unfold isFree at hfree
  simp only [Bool.and_eq_true, decide_eq_true_eq, List.all_eq_true, List.mem_range] at hfree
  obtain ⟨⟨-, hmanager⟩, hreactor⟩ := hfree
  cases l with
  | manager => exact hmanager
  | reactor r => exact fun hmem => hreactor r (hw.reactor fd r ((hw.ports _ fd).mp hmem)) hmem

theorem accept_eq (cfg : Config) (w : Target) (fd : Nat) :
    ∃ sessions, (∀ p ∈ sessions, p ∈ w.sessions ∨ p.2 = w.accepted) ∧ w.accept cfg fd =
    { (w.setConn fd {}).addPort .manager fd with
      ses := Function.update w.ses w.accepted (.new cfg.nums cfg.flags fd)
      accepted := w.accepted + 1
      sessions } := by
  unfold accept addSession
  dsimp only
  split
  · exact ⟨w.sessions, fun p hp => .inl hp, rfl⟩
  · refine ⟨w.sessions ++ [(fd, w.accepted)], fun p hp => ?_, rfl⟩
    exact (List.mem_append.mp hp).imp_right fun hnew => congrArg Prod.snd (List.mem_singleton.mp hnew)

theorem accept_listener {fd' : Nat} :
    ((w.accept cfg fd).conn fd').listener = if fd' = fd then some .manager
      else (w.conn fd').listener := by
  obtain ⟨_, -, heq⟩ := accept_eq cfg w fd
  rw [heq]
  dsimp only [addPort, setConn]
  by_cases hfd : fd' = fd
  · rw [if_pos hfd, hfd, Function.update_self]
  · rw [if_neg hfd, Function.update_of_ne hfd]

theorem mem_accept_ports {l : Listener} {fd' : Nat} :
    fd' ∈ (w.accept cfg fd).ports l ↔ fd' ∈ w.ports l ∨ l = .manager ∧ fd' = fd := by
  obtain ⟨_, -, heq⟩ := accept_eq cfg w fd
  rw [heq]
  dsimp only [addPort, setConn]
  by_cases hl : l = .manager
  · subst hl
    rw [Function.update_self, List.mem_append, List.mem_singleton]
    simp only [true_and]
  · rw [Function.update_of_ne hl]
    simp only [hl, false_and, or_false]

theorem wired_accept (hw : Wired w) (hfree : w.isFree fd = true) : Wired (w.accept cfg fd) := by
  obtain ⟨_, -, heq⟩ := accept_eq cfg w fd
  have hconstructed : (w.accept cfg fd).constructed = w.constructed := by rw [heq]; rfl
  have hreactors : (w.accept cfg fd).reactors = w.reactors := by rw [heq]; rfl
  refine ⟨fun l fd' => ?_, fun fd' r hr => ?_, ?_⟩
  · rw [mem_accept_ports, accept_listener]
    by_cases hfd : fd' = fd
    · subst hfd
      simp only [not_mem_ports hw hfree l, false_or, and_true, if_true, Option.some.injEq]
      exact eq_comm
    · simp only [hfd, and_false, or_false, if_false]
      exact hw.ports l fd'
  · rw [hconstructed]
    rw [accept_listener] at hr
    split at hr
    · exact absurd (Option.some.inj hr) nofun
    · exact hw.reactor fd' r hr
  · rw [hconstructed, hreactors]
    exact hw.registered

theorem isHeld_of_accept (hid : id ≠ w.accepted) (h : (w.accept cfg fd).isHeld id = true) :
    w.isHeld id = true := by
  obtain ⟨sessions, hsessions, heq⟩ := accept_eq cfg w fd
  rw [heq] at h
  unfold Target.isHeld at h ⊢
  dsimp only at h
  rw [Function.update_of_ne hid] at h
  rw [Bool.or_eq_true, Bool.or_eq_true] at h ⊢
  refine h.imp_left (Or.imp_left fun hpool => ?_)
  obtain ⟨p, hp, hpid⟩ := List.any_eq_true.mp hpool
  refine List.any_eq_true.mpr ⟨p, (hsessions p hp).resolve_right fun hnew => hid ?_, hpid⟩
  exact (of_decide_eq_true hpid).symm.trans hnew

theorem inv_accept (hs : Inv w) (hfree : w.isFree fd = true) : Inv (w.accept cfg fd) := by
  obtain ⟨_, -, heq⟩ := accept_eq cfg w fd
  have hreactors : (w.accept cfg fd).reactors = w.reactors := by rw [heq]; rfl
  have hmanager : ∀ {fd'}, fd' = fd → ∃ l, Running (w.accept cfg fd) l ∧
      ((w.accept cfg fd).conn fd').listener = some l :=
    fun hfd => ⟨.manager, trivial, accept_listener.trans (if_pos hfd)⟩
  refine ⟨wired_accept hs.wired hfree, fun id hid hH fd' hfd' => ?_, fun id h => h, fun id => ?_⟩
  · rw [accept_ses] at hfd'
    by_cases hnew : id = w.accepted
    · rw [hnew, Function.update_self] at hfd'
      exact hmanager (List.mem_singleton.mp hfd')
    · rw [Function.update_of_ne hnew] at hfd'
      rw [accept_accepted] at hid
      obtain ⟨l, hl, hlisten⟩ := hs.served id (Nat.lt_of_le_of_ne (Nat.le_of_lt_succ hid) hnew)
        (isHeld_of_accept hnew hH) fd' hfd'
      by_cases hfd : fd' = fd
      · exact hmanager hfd
      · exact ⟨l, running_congr hreactors hl, accept_listener.trans ((if_neg hfd).trans hlisten)⟩
  · rw [accept_ses]
    by_cases hnew : id = w.accepted
    · rw [hnew, Function.update_self]
      exact fun t ht => absurd ht List.not_mem_nil
    · rw [Function.update_of_ne hnew]
      exact hs.own id

theorem inv_runTask {sent : RunResult} {task : SessionTask} (hs : Inv w) (hdue : Due w task)
    (hmem : ∃ addr, (addr, task) ∈ (w.ses id).sendtask) :
    Ends NotReactor Inv Inv (w.runTask sent task) := by
  cases task with
  | sendLogin | sendLogout =>
    cases sent with
    | done | again => exact hs
    | throws => exact trivial
  | createReactor id' fd =>
    obtain ⟨addr, hmem⟩ := hmem
    obtain rfl := hs.own id _ hmem id' fd rfl
    have hheld : w.isHeld id' = true := by
      unfold Target.isHeld
      rw [Bool.or_eq_true]
      exact .inr (List.any_eq_true.mpr ⟨_, hmem, decide_eq_true rfl⟩)
    exact (serving_createReactorTask hs hheld hdue).mono (fun _ h => h.elim) fun _ => Serving.inv
  | removeReactor id' =>
    show Ends NotReactor Inv Inv (w.removeReactorTask id')
    unfold removeReactorTask
    split
    · next hnone => exact absurd hnone hdue
    · exact (hs.releases releases_mayStop).inv
  | closeSession id' => exact (hs.releases releases_delSession).inv
  | closeConnection id' fd => exact (hs.releases releases_delConnection).inv

theorem inv_invoke {sent : RunResult} (hs : Inv w) (hok : Orderly w (.run id sent)) :
    Ends NotReactor Inv Inv (w.invoke id sent) := by
  unfold Target.invoke
  split
  · exact hs
  · next addr task rest htasks =>
    have hdue : Due w task := hok (addr, task) (by rw [htasks]; rfl)
    have hrun : Ends NotReactor Inv Inv (w.runTask sent task) :=
      inv_runTask hs hdue ⟨addr, htasks ▸ List.mem_cons_self⟩
    split
    · next hrunok =>
      rw [hrunok] at hrun
      exact (Serving.releases hrun (releases_setTasks fun _ => List.mem_of_mem_tail)).inv
    · exact (hs.releases (releases_setTasks (List.nil_subset _))).inv
    · exact hrun

theorem inv_act {e : TargetEvent} (hs : Inv w) (hok : Orderly w e) :
    Ends NotReactor Inv Inv (w.act cfg l e) := by
  cases e with
  | accept fd =>
    rw [act]
    split
    · next hfree => exact inv_accept hs hfree
    · exact trivial
  | pdu id fd pdu =>
    rw [act]
    split
    · next hheld =>
      exact (serving_receive hs hheld.1).mono (fun _ => Serving.inv) fun _ => Serving.inv
    · exact trivial
  | close id fd =>
    rw [act]
    split
    · exact (hs.releases releases_cleanUp).inv
    · exact trivial
  | run id sent =>
    have hrun : Ends NotReactor Inv Inv (w.invoke id sent) := inv_invoke hs hok
    rw [act]
    split
    · next hfail =>
      rw [hfail] at hrun
      exact hrun
    · exact hrun
  | exit r =>
    rw [act]
    split
    · exact (inv_exit hs hok).mono (fun _ => False.elim) fun _ h => h
    · exact trivial
  | destroy fd =>
    rw [act]
    split
    · exact trivial
    · next hfree => exact inv_destroy hs hfree

theorem inv_start : Inv start where
  wired := ⟨fun _ _ => ⟨fun h => absurd h List.not_mem_nil, nofun⟩, fun _ _ => nofun,
    fun _ h => absurd h List.not_mem_nil⟩
  served _ hid := absurd hid (Nat.not_lt_zero _)
  held _ h := h
  own _ _ ht := absurd ht List.not_mem_nil

theorem inv_of_reachable (h : Reachable start (step cfg l) Orderly w) : Inv w := by
  refine h.invariant Inv inv_start fun w e w' hw hok hstep => ?_
  have hact : Ends NotReactor Inv Inv (w.act cfg l e) := inv_act hw hok
  rwa [act_of_step hstep] at hact

theorem served_of_listener {l : Listener} (hw : Wired w) (hl : Running w l)
    (hfd : (w.conn fd).listener = some l) : Served w fd := by
  refine ⟨l, ⟨hl, (hw.ports l fd).mpr hfd⟩, fun l' h' => ?_⟩
  exact Option.some.inj (((hw.ports l' fd).mp h'.2).symm.trans hfd)

/-- The session and the listener of its connection are as they were. -/
structure Unmoved (id fd : Nat) (w w' : Target) : Prop where
  session : w'.ses id = w.ses id
  pooled : w'.pooled id = w.pooled id
  listener : (w'.conn fd).listener = (w.conn fd).listener

/-- The task at the front of a queue uses no reactor that was not found, and where its
reactor is refused nothing has moved. -/
def RunsWell (w : Target) (id : Nat) (sent : RunResult) : Prop :=
  w.invoke id sent ≠ .error (.null .reactor) ∧
    ∀ addr id' fd, (w.ses id).sendtask.head? = some (addr, .createReactor id' fd) →
      ∀ w', w.createReactorTask id' fd = .error (.failed w') → Unmoved id' fd w w'

theorem moved_of_found (hw : Wired w) (hmem : fd ∈ (w.ses id).connection)
    (hfound : w.findReactor (w.ses id).sid ≠ none) :
    ∃ w', w.createReactorTask id fd = .error (.failed w') ∧ ¬ Unmoved id fd w w' := by
  refine ⟨handOver w id fd, ?_, fun hsame => ?_⟩
  · rw [createReactorTask_eq, if_pos hmem, addReactor, if_pos ((handOver_any hw).mpr hfound)]
  · have hlisten : (w.conn fd).listener = some (.reactor w.constructed) :=
      hsame.listener.symm.trans (handOver_listener.trans (if_pos rfl))
    exact Nat.lt_irrefl _ (hw.reactor fd _ hlisten)

theorem runsWell_iff {sent : RunResult} (hs : Inv w) : RunsWell w id sent ↔
    Orderly w (.run id sent) := by
  refine ⟨fun h t ht => ?_, fun hok => ⟨fun hnull => ?_, fun addr id' fd hhead w' hfail => ?_⟩⟩
  · obtain ⟨addr, task⟩ := t
    cases task with
    | createReactor id' fd =>
      intro hmem
      by_contra hfound
      obtain ⟨w', hfail, hmoved⟩ := moved_of_found hs.wired hmem hfound
      exact hmoved (h.2 addr id' fd (Option.mem_def.mp ht) w' hfail)
    | removeReactor id' =>
      intro hnone
      obtain ⟨rest, htasks⟩ := List.head?_eq_some_iff.mp (Option.mem_def.mp ht)
      refine h.1 ?_
      simp only [Target.invoke, htasks, runTask, removeReactorTask, hnone]
    | sendLogin | sendLogout | closeSession | closeConnection => trivial
  · have hrun : Ends NotReactor Inv Inv (w.invoke id sent) := inv_invoke hs hok
    rw [hnull] at hrun
    exact hrun rfl
  · have hdue : Due w (.createReactor id' fd) := hok _ hhead
    rw [createReactorTask_eq, addReactor] at hfail
    split at hfail
    · next hmem =>
      rw [if_neg fun hany => (handOver_any hs.wired).mp hany (hdue hmem)] at hfail
      exact absurd hfail nofun
    · exact absurd hfail nofun

/-- While tasks run when they are due and reactors leave their loops in time, every live
connection has exactly one running loop, and the next task runs well as long as it is
due. -/
theorem handOff_of_reachable (h : Reachable start (step cfg l) Orderly w) :
    (∀ fd, w.isLive fd = true → Served w fd) ∧
      ∀ id sent, RunsWell w id sent ↔ Orderly w (.run id sent) := by
  have hs := inv_of_reachable h
  refine ⟨fun fd hlive => ?_, fun id sent => runsWell_iff hs⟩
  obtain ⟨id, hid, hheld, hfd⟩ := isLive_iff.mp hlive
  obtain ⟨l, hl, hlisten⟩ := hs.served id hid hheld fd hfd
  exact served_of_listener hs.wired hl hlisten

/-- The login of a second connection with the session id of the first. -/
def reinstatement : TargetEvent :=
  .pdu 1 6 (.login 0 (fun _ => 0) { flags := 0x87, sid := 7, cid := 1, data := ["SessionType=Normal",
    "InitiatorName=iqn.client"] })

/-- A login whose session goes to a reactor. -/
theorem handOff_first_login : ∃ w, exec (step oneInitiator ⟨0, 0⟩) start [.accept 5,
    firstLogin ["SessionType=Normal", "InitiatorName=iqn.client"], .run 0 .done, .run 0 .done] = some w ∧
      w.ports (.reactor 0) = [5] ∧ Served w 5 := by
  have hsteps : ((step oneInitiator ⟨0, 0⟩ (start.accept oneInitiator 5)
      (firstLogin ["SessionType=Normal", "InitiatorName=iqn.client"])).bind fun w₁ =>
        (step oneInitiator ⟨0, 0⟩ w₁ (.run 0 .done)).bind fun w₂ =>
          (step oneInitiator ⟨0, 0⟩ w₂ (.run 0 .done)).map fun w =>
            ((w₁.ses 0).sendtask.head?.all fun t => decide (Due w₁ t.2),
              (w₂.ses 0).sendtask.head?.all fun t => decide (Due w₂ t.2), w.isLive 5,
                w.ports (.reactor 0))) =
                some (true, true, true, [5]) := by
    simp only [step, act, firstLogin, receive, handlePdu, handleLogin, pushTasks,
      SessionSendTask.merge_eq_foldr]
    decide +kernel
  obtain ⟨w₁, hw₁, hsteps⟩ := Option.bind_eq_some_iff.mp hsteps
  obtain ⟨w₂, hw₂, hsteps⟩ := Option.bind_eq_some_iff.mp hsteps
  obtain ⟨w, hw, hvals⟩ := Option.map_eq_some_iff.mp hsteps
  simp only [Prod.mk.injEq, Option.all_eq_true, decide_eq_true_eq] at hvals
  obtain ⟨hdue₁, hdue₂, hlive, hports⟩ := hvals
  have hlogin : Reachable start (step oneInitiator ⟨0, 0⟩) Orderly w₁ := by
    refine .step (reachable_accept trivial) ?_ hw₁
    exact trivial
  have hreach : Reachable start (step oneInitiator ⟨0, 0⟩) Orderly w := by
    refine .step (.step hlogin ?_ hw₂) ?_ hw
    · exact fun t ht => hdue₁ t ht
    · exact fun t ht => hdue₂ t ht
  refine ⟨w, ?_, hports, (handOff_of_reachable hreach).1 5 hlive⟩
  simp only [exec, List.foldlM_cons, step_accept (by decide : start.isFree 5 = true),
    Option.bind_eq_bind,
    Option.bind_some, hw₁, hw₂, hw, List.foldlM_nil, Option.pure_def]

/-- A session is reinstated while its old reactor still runs: the new reactor is refused,
and the connection waits in a loop that nobody runs. Where the old reactor has left
already, the task that is to stop it uses the null pointer. -/
theorem not_handOff_reinstated :
    (¬ ∀ w, Reachable start (step oneInitiator ⟨0, 0⟩) (fun _ _ => True) w →
      ∀ fd, w.isLive fd = true → Served w fd) ∧
    ¬ ∀ w, Reachable start (step oneInitiator ⟨0, 0⟩) (fun _ _ => True) w →
      ∀ id sent, RunsWell w id sent := by
  have hevals : (exec (step oneInitiator ⟨0, 0⟩) start [.accept 5,
      firstLogin ["SessionType=Normal", "InitiatorName=iqn.client"], .run 0 .done,
        .run 0 .done, .accept 6,
        reinstatement, .run 1 .done]).bind (fun w => (exec (step oneInitiator ⟨0, 0⟩) w
          [.run 1 .done, .run 1 .done]).bind fun w₁ => (exec (step oneInitiator ⟨0, 0⟩) w [.exit 0]).map
            fun w₂ => (w₁.isLive 6, w₁.reactors, w₁.ports .manager, w₁.ports (.reactor 0),
              (w₂.invoke 1 .done).nullOf)) = some (true, [0], [], [5], some .reactor) := by
    simp only [exec, List.foldlM_cons, step, act, firstLogin, reinstatement, receive,
      handlePdu, handleLogin,
      pushTasks, SessionSendTask.merge_eq_foldr]
    decide +kernel
  obtain ⟨w, hw, hevals⟩ := Option.bind_eq_some_iff.mp hevals
  obtain ⟨w₁, hw₁, hevals⟩ := Option.bind_eq_some_iff.mp hevals
  obtain ⟨w₂, hw₂, hvals⟩ := Option.map_eq_some_iff.mp hevals
  simp only [Prod.mk.injEq] at hvals
  obtain ⟨hlive, hreactors, hmanager, hreactor, hnull⟩ := hvals
  have hreach := reachable_of_exec .start hw
  refine ⟨fun h => ?_, fun h => ?_⟩
  · obtain ⟨l, ⟨hl, hmem⟩, -⟩ := h w₁ (reachable_of_exec hreach hw₁) 6 hlive
    cases l with
    | manager =>
      rw [hmanager] at hmem
      exact List.not_mem_nil hmem
    | reactor r =>
      have hr : r ∈ w₁.reactors := hl
      rw [hreactors, List.mem_singleton] at hr
      rw [hr, hreactor] at hmem
      exact absurd hmem (by decide)
  · exact (h w₂ (reachable_of_exec hreach hw₂) 1 .done).1 (eq_of_nullOf hnull)

end Sstoraged.ReactorHandOff
