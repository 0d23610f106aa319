import Sstoraged.LoginSteps

namespace Sstoraged.CidLookup

open Outcome Target

/-- The session has this connection, and its `getCID` is the given one. -/
def Named (w : Target) (id cid fd : Nat) : Prop := fd ∈ (w.ses id).connection ∧ (w.conn fd).cid = cid

/-- The connections that end with a task: one, or all of a session that ends. -/
def closes (w : Target) : SessionTask → List Nat
  | .closeConnection _ fd => [fd]
  | .closeSession id | .removeReactor id => (w.ses id).connection
  | .sendLogin _ _ | .sendLogout _ _ | .createReactor _ _ => []

/-- A Logout that closes a connection acts on the one that it names. -/
structure LogoutRight (w : Target) (id fd : Nat) (req : LogoutRequest) : Prop where
  found : (∃ fd', Named w id req.cid fd') → (w.logoutReason id fd req).1 = .success
  notFound : (¬ ∃ fd', Named w id req.cid fd') → (w.logoutReason id fd req).1 = .cidNotFound
  closed : ∀ fd', fd' ∈ (w.logoutReason id fd req).2.flatMap (closes w) ↔ Named w id req.cid fd'

/-- The login joins the session of a registered reactor. -/
structure Rejoins (w : Target) (id fd r : Nat) (req : LoginRequest) : Prop where
  own : fd ∈ (w.ses id).connection
  reactor : w.findReactor req.sid = some r
  tsih : req.tsih = (w.ses (w.reactor r).session).tsih
  restarts : req.tsih ≠ 0

/-- Of the session's connections the login replaces the one that it names, if any, and
no other; it is refused only for the ExpStatSN of that one. -/
abbrev LoginRight (w : Target) (id fd r : Nat) (req : LoginRequest) : Prop :=
  Ends (fun _ => False)
    (fun _ => ∃ fd', Named w (w.reactor r).session req.cid fd' ∧ req.expstatsn ≠ (w.conn fd').statsn)
    (fun p => ∀ fd', fd' ∈ (p.1.ses (w.reactor r).session).connection ↔
      fd' = fd ∨ fd' ∈ (w.ses (w.reactor r).session).connection ∧ (w.conn fd').cid ≠ req.cid)
    (w.handle1stNormalRequest id fd req)

/-- The condition for a Logout: the CID is a socket of the session, and that of the
connection that brings the request only. -/
def OwnCid (w : Target) (id fd cid : Nat) : Prop :=
  cid ∈ (w.ses id).connection ∧ ∀ fd', Named w id cid fd' ↔ fd' = fd

/-- The connection whose socket is the CID has another StatSN than the login expects. -/
def Refused (w : Target) (old : Nat) (req : LoginRequest) : Prop :=
  req.cid ∈ (w.ses old).connection ∧ req.expstatsn ≠ (w.conn req.cid).statsn

/-- The condition for a login: it is refused, and would also be for the connection that
it names, or of the other connections exactly those are named whose sockets are the CID. -/
def SameName (w : Target) (fd old : Nat) (req : LoginRequest) : Prop :=
  (Refused w old req → ∃ fd', Named w old req.cid fd' ∧ req.expstatsn ≠ (w.conn fd').statsn) ∧
    (¬ Refused w old req → ∀ fd' ∈ (w.ses old).connection, fd' ≠ fd →
      (fd' = req.cid ↔ (w.conn fd').cid = req.cid))

variable {w : Target} {id fd r : Nat}

theorem closes_endSessionTask : closes w (w.endSessionTask id) = (w.ses id).connection := by
  unfold endSessionTask
  split <;> rfl

theorem logoutRight_iff {req : LogoutRequest}
    (hreason : req.reason = LogoutRequest.reasonCloseConnection)
    (hfd : fd ∈ (w.ses id).connection) : LogoutRight w id fd req ↔ OwnCid w id fd req.cid := by
  have hanswer : w.logoutReason id fd req = if req.cid ∈ (w.ses id).connection
      then (.success, [.closeConnection id fd]) else (.cidNotFound, [w.endSessionTask id]) := by
    unfold logoutReason
    rw [hreason, if_neg (by decide), if_pos rfl]
  by_cases hcid : req.cid ∈ (w.ses id).connection
  · rw [if_pos hcid] at hanswer
    have hclosed : ∀ fd', fd' ∈ (w.logoutReason id fd req).2.flatMap (closes w) ↔ fd' = fd := by
      intro fd'
      rw [hanswer, List.flatMap_singleton]
      exact List.mem_singleton
    refine ⟨fun h => ⟨hcid, fun fd' => (h.closed fd').symm.trans (hclosed fd')⟩,
      fun h => ⟨fun _ => ?_, ?_, ?_⟩⟩
    · rw [hanswer]
    · exact fun hnone => absurd ⟨fd, (h.2 fd).mpr rfl⟩ hnone
    · exact fun fd' => (hclosed fd').trans (h.2 fd').symm
  · rw [if_neg hcid] at hanswer
    have hclosed : ∀ fd', fd' ∈ (w.logoutReason id fd req).2.flatMap (closes w) ↔
        fd' ∈ (w.ses id).connection := by
      intro fd'
      rw [hanswer, List.flatMap_singleton, closes_endSessionTask]
    refine ⟨fun h => ?_, fun h => absurd h.1 hcid⟩
    -- the requesting connection ends with the session, so it would be the named one
    have hnamed : Named w id req.cid fd := (h.closed fd).mp ((hclosed fd).mpr hfd)
    have hsuccess := h.found ⟨fd, hnamed⟩
    rw [hanswer] at hsuccess
    exact absurd hsuccess nofun

theorem mem_addConnection {fd' : Nat} :
    fd' ∈ ((w.addConnection id fd).ses id).connection ↔ fd' = fd ∨ fd' ∈ (w.ses id).connection := by
  unfold addConnection
  split
  · next hmem => exact ⟨Or.inr, fun h => h.elim (fun heq => heq ▸ hmem) fun h => h⟩
  · rw [setSes_ses_self, List.mem_append, List.mem_singleton]
    exact or_comm

theorem mem_delConnection {fd' : Nat} :
    fd' ∈ ((w.delConnection id fd).ses id).connection ↔ fd' ∈ (w.ses id).connection ∧ fd' ≠ fd := by
  unfold delConnection
  rw [setSes_ses_self, List.mem_filter, decide_eq_true_eq]

theorem setSid_connection {sid cid j : Nat} : ((w.setSid id fd sid cid).ses j).connection =
    (w.ses j).connection := by
  have hses : (w.setSid id fd sid cid).ses = (w.setSes id { w.ses id with sid }).ses := rfl
  rw [hses]
  by_cases hj : j = id
  · rw [hj, setSes_ses_self]
  · rw [setSes_ses_of_ne hj]

theorem joinSession_of_not_refused {req : LoginRequest} (hfd : fd ∈ (w.ses id).connection)
    (hok : ¬ Refused w (w.reactor r).session req) : ∃ w', w.joinSession id fd r req = .ok w' ∧
      ∀ fd', fd' ∈ (w'.ses (w.reactor r).session).connection ↔
        fd' = fd ∨ fd' ∈ (w.ses (w.reactor r).session).connection ∧ fd' ≠ req.cid := by
  have hfind : w.findConnection id fd = .ok () := if_pos hfd
  unfold joinSession
  dsimp only
  rw [hfind]
  split
  · next hmem =>
    have hstatsn : ¬ req.expstatsn ≠ (w.conn req.cid).statsn := fun hne => hok ⟨hmem, hne⟩
    rw [if_neg hstatsn]
    refine ⟨_, rfl, fun fd' => ?_⟩
    rw [mem_addConnection, changeListener_ses]
    exact or_congr_right mem_delConnection
  · next hmem =>
    refine ⟨_, rfl, fun fd' => ?_⟩
    rw [mem_addConnection, changeListener_ses]
    exact or_congr_right ⟨fun h => ⟨h, fun heq => hmem (heq ▸ h)⟩, And.left⟩

theorem loginRight_iff {req : LoginRequest} (h : Rejoins w id fd r req) :
    LoginRight w id fd r req ↔ SameName w fd (w.reactor r).session req := by
  have hhandle : w.handle1stNormalRequest id fd req =
      (w.joinSession id fd r req).bind fun w' => .ok (w'.setSid id fd req.sid req.cid,
        [.closeSession id]) := by
    unfold handle1stNormalRequest
    rw [h.reactor]
    dsimp only
    rw [if_neg h.restarts, if_neg (not_not_intro h.tsih)]
    rfl
  unfold LoginRight
  rw [hhandle]
  by_cases hrefused : Refused w (w.reactor r).session req
  · have hjoin : w.joinSession id fd r req = .error (.failed w) := by
      unfold joinSession
      dsimp only
      rw [if_pos hrefused.1, if_pos hrefused.2]
    rw [hjoin]
    exact ⟨fun hd => ⟨fun _ => hd, absurd hrefused⟩, fun hs => hs.1 hrefused⟩
  · obtain ⟨w', hjoin, hconn⟩ := joinSession_of_not_refused h.own hrefused
    rw [hjoin]
    refine ⟨fun hright => ⟨fun hr => absurd hr hrefused, fun _ fd' hfd' hne => ?_⟩, fun hs fd' => ?_⟩
    · have hboth := (hconn fd').symm.trans (setSid_connection ▸ hright fd')
      simp only [hne, hfd', true_and, false_or] at hboth
      exact not_iff_not.mp hboth
    · rw [setSid_connection, hconn]
      by_cases hne : fd' = fd
      · exact iff_of_true (.inl hne) (.inl hne)
      · exact or_congr_right (and_congr_right fun hfd' => not_congr (hs.2 hrefused fd' hfd' hne))

/-- Connections are looked up by their sockets: Logouts and logins act on the connection
that they name exactly where its socket is its CID. -/
theorem named_iff_same_number (w : Target) (id fd : Nat) :
    (∀ req : LogoutRequest, req.reason = LogoutRequest.reasonCloseConnection →
      fd ∈ (w.ses id).connection →
      (LogoutRight w id fd req ↔ OwnCid w id fd req.cid)) ∧
    ∀ r req, Rejoins w id fd r req → (LoginRight w id fd r req ↔
      SameName w fd (w.reactor r).session req) :=
  ⟨fun _ => logoutRight_iff, fun _ _ => loginRight_iff⟩

/-- A reactor's session with one connection of this CID on socket 5, and a second
session on socket 6. -/
def oneConnection (cid : Nat) : Target :=
  { start with
    ses := fun id => { start.ses id with sid := 7, tsih := 1, connection := [5 + id] }
    accepted := 2
    conn := fun fd => { cid := if fd = 5 then cid else 0 }
    sessions := [(6, 1)]
    constructed := 1
    reactors := [0] }

/-- A Logout on socket 5 that closes the connection of this CID. -/
def closeRequest (cid : Nat) : LogoutRequest := { reason := LogoutRequest.reasonCloseConnection, cid }

/-- A login on socket 6 that restarts the connection of this CID. -/
def restartRequest (cid : Nat) : LoginRequest := { flags := 0x87, sid := 7, tsih := 1, cid, data := [] }

theorem rejoins_oneConnection (cid cid' : Nat) : Rejoins (oneConnection cid) 1 6 0
    (restartRequest cid') :=
  ⟨List.mem_singleton.mpr rfl, rfl, rfl, Nat.one_ne_zero⟩

/-- The CID of the connection is its socket. -/
theorem named_five : LogoutRight (oneConnection 5) 0 5 (closeRequest 5) ∧
    LoginRight (oneConnection 5) 1 6 0 (restartRequest 5) := by
  have hnamed : ∀ fd', Named (oneConnection 5) 0 5 fd' ↔ fd' = 5 := by
    intro fd'
    refine ⟨fun h => List.mem_singleton.mp h.1, ?_⟩
    rintro rfl
    exact ⟨List.mem_singleton.mpr rfl, rfl⟩
  refine ⟨((named_iff_same_number (oneConnection 5) 0 5).1 (closeRequest 5) rfl
    (List.mem_singleton.mpr rfl)).mpr
    ⟨List.mem_singleton.mpr rfl, hnamed⟩,
      ((named_iff_same_number (oneConnection 5) 1 6).2 0 (restartRequest 5)
      (rejoins_oneConnection 5 5)).mpr ⟨fun h => absurd rfl h.2, fun _ fd' hfd' _ => ?_⟩⟩
  have hfive : fd' = 5 := List.mem_singleton.mp hfd'
  exact iff_of_true hfive ((hnamed fd').mpr hfive).2

/-- The connection of CID 1 is on socket 5: a Logout for CID 1 does not find it, and a
login that restarts it leaves it there. -/
theorem not_named_one : ¬ LogoutRight (oneConnection 1) 0 5 (closeRequest 1) ∧
    ¬ LoginRight (oneConnection 1) 1 6 0 (restartRequest 1) := by
  have hnone : 1 ∉ ((oneConnection 1).ses 0).connection := by decide
  refine ⟨fun h => ?_, fun h => ?_⟩
  · exact hnone ((logoutRight_iff rfl (List.mem_singleton.mpr rfl)).mp h).1
  · have hsame := ((loginRight_iff (rejoins_oneConnection 1 1)).mp h).2 (fun hr => hnone hr.1) 5
      (List.mem_singleton.mpr rfl) (by decide)
    exact absurd (hsame.mpr rfl) (by decide)

end Sstoraged.CidLookup
