import Sstoraged.KeyValue
import Sstoraged.SessionSendTask
import Sstoraged.Tsih

namespace Sstoraged

/-- The loops that wait for ports: the manager's and one for each reactor. -/
inductive Listener
  | manager
  | reactor (r : Nat)
  deriving DecidableEq

structure ISCSIConnection where
  cid : Nat := 0
  statsn : Nat := 0
  listener : Option Listener := some .manager

structure ISCSIReactor where
  session : Nat
  stop : Bool := false
  deriving Inhabited

/-- The sessions, their connections by sockets, the ports that each loop waits for,
the sessions of the manager's pool by the sockets they began with, the reactors that
were constructed, those that are registered, and the generator of the TSIHs. -/
structure Target where
  ses : Nat → LoginSession
  accepted : Nat
  conn : Nat → ISCSIConnection
  ports : Listener → List Nat
  sessions : List (Nat × Nat)
  reactor : Nat → ISCSIReactor
  constructed : Nat
  reactors : List Nat
  tsihGen : Nat

namespace Target

def setSes (w : Target) (id : Nat) (s : LoginSession) : Target :=
  { w with ses := Function.update w.ses id s }

@[simp] theorem setSes_ses_self (w : Target) (id : Nat) (s : LoginSession) :
    (w.setSes id s).ses id = s :=
  Function.update_self ..

theorem setSes_ses_of_ne {w : Target} {id j : Nat} {s : LoginSession} (h : j ≠ id) :
    (w.setSes id s).ses j = w.ses j := Function.update_of_ne h ..

def setConn (w : Target) (fd : Nat) (c : ISCSIConnection) : Target :=
  { w with conn := Function.update w.conn fd c }

def addPort (w : Target) (l : Listener) (fd : Nat) : Target :=
  { w with ports := Function.update w.ports l (w.ports l ++ [fd]) }

def delPort (w : Target) (l : Listener) (fd : Nat) : Target :=
  { w with ports := Function.update w.ports l ((w.ports l).filter (· ≠ fd)) }

/-- What a connection does in front of a change of its listener, and when it is
destroyed. -/
def leaveListener (w : Target) (fd : Nat) : Target :=
  match (w.conn fd).listener with
  | some l => w.delPort l fd
  | none => w

def changeListener (w : Target) (fd r : Nat) : Target :=
  let w := w.leaveListener fd
  (w.setConn fd { w.conn fd with listener := some (.reactor r) }).addPort (.reactor r) fd

/-- The listener is used without a look at the pointer. -/
def clearListener (w : Target) (fd : Nat) : Outcome Pointer Target Target :=
  match (w.conn fd).listener with
  | some l => .ok ((w.delPort l fd).setConn fd { w.conn fd with listener := none })
  | none => .error (.null .listener)

/-- The connections of a session that clear their listeners, one after the other. -/
def clearListeners (w : Target) (fds : List Nat) : Outcome Pointer Target Target :=
  fds.foldlM clearListener w

/-- The session has a connection of this socket. -/
def findConnection (w : Target) (id fd : Nat) : Outcome Pointer Target Unit :=
  if fd ∈ (w.ses id).connection then .ok () else .error (.null .connection)

def addConnection (w : Target) (id fd : Nat) : Target :=
  if fd ∈ (w.ses id).connection then w
  else w.setSes id { w.ses id with connection := (w.ses id).connection ++ [fd] }

def delConnection (w : Target) (id fd : Nat) : Target :=
  w.setSes id { w.ses id with connection := (w.ses id).connection.filter (· ≠ fd) }

def addSession (w : Target) (fd id : Nat) : Target :=
  if fd ∈ w.sessions.map Prod.fst then w else { w with sessions := w.sessions ++ [(fd, id)] }

theorem addSession_ses {w : Target} {fd id : Nat} : (w.addSession fd id).ses = w.ses := by
  unfold addSession
  split <;> rfl

theorem addSession_accepted {w : Target} {fd id : Nat} : (w.addSession fd id).accepted = w.accepted := by
  unfold addSession
  split <;> rfl

/-- A session is in the pool at most once. -/
def delSession (w : Target) (id : Nat) : Target :=
  { w with sessions := w.sessions.filter fun p => p.2 ≠ id }

def pooled (w : Target) (id : Nat) : Bool := w.sessions.any fun p => p.2 = id

/-- Some session of the pool has this session id. -/
def findSession (w : Target) (sid : Nat) : Bool := w.sessions.any fun p => (w.ses p.2).sid = sid

def getSessionID (w : Target) (r : Nat) : Nat := (w.ses (w.reactor r).session).sid

def findReactor (w : Target) (sid : Nat) : Option Nat := w.reactors.find? fun r => w.getSessionID r = sid

/-- A second reactor with a session id is refused. -/
def addReactor (w : Target) (r : Nat) : Outcome Pointer Target Target :=
  if w.reactors.any fun r' => w.getSessionID r' = w.getSessionID r then .error (.failed w)
  else .ok { w with reactors := r :: w.reactors }

def delReactor (w : Target) (r : Nat) : Target := { w with reactors := w.reactors.filter (· ≠ r) }

def mayStop (w : Target) (r : Nat) : Target :=
  { w with reactor := Function.update w.reactor r { w.reactor r with stop := true } }

/-- Construct a reactor, whose number is the next one. -/
def newReactor (w : Target) (id : Nat) : Target :=
  { w with reactor := Function.update w.reactor w.constructed ⟨id, false⟩,
           constructed := w.constructed + 1 }

def getNextTSIH (w : Target) : Nat × Target :=
  (w.tsihGen, { w with tsihGen := if 2 ^ 32 - 1 ≤ w.tsihGen then 1 else w.tsihGen + 1 })

def createReactorTask (w : Target) (id fd : Nat) : Outcome Pointer Target Target := do
  let w := (w.delSession id).newReactor id
  let r := w.constructed - 1
  w.findConnection id fd
  (w.changeListener fd r).addReactor r

def removeReactorTask (w : Target) (id : Nat) : Outcome Pointer Target Target :=
  match w.findReactor (w.ses id).sid with
  | none => .error (.null .reactor)
  | some r => .ok (w.mayStop r)

/-- `run` of a task. The tasks that send may find that the socket is not ready, or
throw. -/
def runTask (w : Target) (sent : RunResult) : SessionTask → Outcome Pointer Target Target
  | .sendLogin _ _ | .sendLogout _ _ =>
    match sent with
    | .done => .ok w
    | .again => .error (.failed w)
    | .throws => .error .aborted
  | .createReactor id fd => w.createReactorTask id fd
  | .removeReactor id => w.removeReactorTask id
  | .closeSession id => .ok (w.delSession id)
  | .closeConnection id fd => .ok (w.delConnection id fd)

def setTasks (w : Target) (id : Nat) (sendtask : List (Nat × SessionTask)) : Target :=
  w.setSes id { w.ses id with sendtask }

/-- The first task of the queue runs. One that fails stays there, and one that throws
takes the queue with it. -/
def invoke (w : Target) (id : Nat) (sent : RunResult) : Outcome Pointer Target Target :=
  match (w.ses id).sendtask with
  | [] => .ok w
  | (_, task) :: _ =>
    match w.runTask sent task with
    | .ok w => .ok (w.setTasks id (w.ses id).sendtask.tail)
    | .error .aborted => .ok (w.setTasks id [])
    | o => o

/-- Tasks are pushed with their addresses, by which the queue is merged with them. -/
def pushTasks (w : Target) (id : Nat) (addr : SessionTask → Nat) (tasks : List SessionTask) : Target :=
  w.setTasks id (SessionSendTask.merge (fun a b => decide (a.1 < b.1)) (w.ses id).sendtask
    (tasks.map fun t => (addr t, t)))

/-- What remains to be done for a connection that ends. -/
def cleanUp (w : Target) (id fd : Nat) : Target :=
  if (w.ses id).connection.length ≤ 1 then
    if w.pooled id then w.delSession id
    else match w.findReactor (w.ses id).sid with
      | none => w
      | some r => w.mayStop r
  else w.delConnection id fd

/-- A reactor's thread leaves its loop. -/
def exit (w : Target) (r : Nat) : Outcome Pointer Target Target := do
  return (← w.clearListeners (w.ses (w.reactor r).session).connection).delReactor r

/-- A new connection becomes a new session of the pool. -/
def accept (cfg : Config) (w : Target) (fd : Nat) : Target :=
  let w := (w.setConn fd {}).addPort .manager fd
  ({ w.setSes w.accepted (.new cfg.nums cfg.flags fd) with accepted := w.accepted + 1 }).addSession fd
    w.accepted

theorem accept_ses {cfg : Config} {w : Target} {fd : Nat} :
    (w.accept cfg fd).ses = Function.update w.ses w.accepted (.new cfg.nums cfg.flags fd) :=
  addSession_ses

theorem accept_accepted {cfg : Config} {w : Target} {fd : Nat} :
    (w.accept cfg fd).accepted = w.accepted + 1 :=
  addSession_accepted

end Target

end Sstoraged
