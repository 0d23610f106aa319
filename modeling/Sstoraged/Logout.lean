import Sstoraged.Login

namespace Sstoraged

structure LogoutRequest where
  opCode : Nat := LoginSession.opLogoutCmd
  isFinal : Bool := true
  reason : Nat
  cid : Nat
  itt : Nat := 0

namespace LogoutRequest

def reasonCloseSession : Nat := 0
def reasonCloseConnection : Nat := 1
def reasonRecovery : Nat := 2

def valid (req : LogoutRequest) : Bool := decide (req.opCode = LoginSession.opLogoutCmd) && req.isFinal

end LogoutRequest

namespace Target

/-- The task that ends a session, by its type. -/
def endSessionTask (w : Target) (id : Nat) : SessionTask :=
  if (w.ses id).window.type = .discovery then .closeSession id else .removeReactor id

/-- The response to a logout, and what it queues. The session is asked for a connection
by the CID of the request, and the connection that is closed is the one of the
request itself. -/
def logoutReason (w : Target) (id fd : Nat) (req : LogoutRequest) : LogoutResponse × List SessionTask :=
  if req.reason = LogoutRequest.reasonCloseSession then (.success, [w.endSessionTask id])
  else if req.reason = LogoutRequest.reasonCloseConnection then
    if req.cid ∈ (w.ses id).connection then (.success, [.closeConnection id fd])
    else (.cidNotFound, [w.endSessionTask id])
  else if req.reason = LogoutRequest.reasonRecovery then (.recoveryUnsupported, [])
  else (.cleanupFailed, [])

/-- `LogoutHandler::handle`. -/
def handleLogout (w : Target) (id fd : Nat) (addr : SessionTask → Nat) (req : LogoutRequest) :
    Outcome Pointer Target Target := do
  if !req.valid then .error (.failed w)
  else
    let s := w.ses id
    let (response, tasks) := w.logoutReason id fd req
    w.findConnection id fd
    let reply : LogoutReply :=
      { response, itt := req.itt, time2Wait := s.nums "DefaultTime2Wait" % 2 ^ 16
        time2Retain := s.nums "DefaultTime2Retain" % 2 ^ 16, statsn := (w.conn fd).statsn
        expcmdsn := s.window.expcmdsn, maxcmdsn := s.window.maxcmdsn }
    return (w.advanceSTATSN fd).pushTasks id addr (.sendLogout fd reply :: tasks)

end Target

end Sstoraged
