import Mathlib.Data.List.Nodup
import Sstoraged.Target

namespace Sstoraged

/-- The vector of a loop. A block of memory that was too small is replaced by another. -/
structure PortVector (P : Type) where
  block : Nat
  capacity : Nat
  ports : List P
  length_le : ports.length ≤ capacity

/-- What a handler may do to the ports of its loop. -/
inductive PortOp (P : Type)
  | addPort (port : P)
  | delPort (port : P)

inductive Direction
  | receive
  | send
  deriving DecidableEq

/-- What a handler does: it changes the ports and returns a status, or throws. -/
structure Reaction (P : Type) where
  ops : List (PortOp P)
  status : Option Int

/-- The handlers of all ports, with what they know. -/
abbrev React (P S : Type) := Direction → P → Nat → S → PortVector P → Reaction P × S

namespace PortVector

variable {P : Type}

/-- An iterator can be dereferenced in its block, in front of the end. -/
def deref (v : PortVector P) (block index : Nat) : Option P :=
  if v.block = block then v.ports[index]? else none

/-- `Loop::addPort`, with the capacities that the vector grows by. -/
def addPort (growth : Nat → Nat) (v : PortVector P) (port : P) : PortVector P :=
  if h : v.ports.length < v.capacity then
    { v with
      ports := v.ports ++ [port]
      length_le := by rwa [List.length_append] }
  else
    { block := v.block + 1
      capacity := max (growth v.capacity) (v.ports.length + 1)
      ports := v.ports ++ [port]
      length_le := by
        rw [List.length_append]
        exact Nat.le_max_right _ _ }

theorem addPort_ports (growth : Nat → Nat) (v : PortVector P) (port : P) :
    (v.addPort growth port).ports = v.ports ++ [port] := by
  unfold addPort
  split <;> rfl

theorem deref_nil {v : PortVector P} {block index : Nat} (h : v.ports = []) :
    v.deref block index = none := by
  unfold deref
  rw [h]
  split <;> rfl

variable [DecidableEq P]

/-- `Loop::delPort`. -/
def delPort (v : PortVector P) (port : P) : PortVector P :=
  { v with
    ports := v.ports.filter (· ≠ port)
    length_le := (List.length_filter_le _ _).trans v.length_le }

theorem delPort_ports (v : PortVector P) (port : P) : (v.delPort port).ports = v.ports.filter
    (· ≠ port) := rfl

def apply (growth : Nat → Nat) (v : PortVector P) : PortOp P → PortVector P
  | .addPort port => v.addPort growth port
  | .delPort port => v.delPort port

end PortVector

/-- A call of a handler in a round: the position in the vector, the port there, the
socket it is called with, and the vector before and after it. -/
structure PortCall (P : Type) where
  position : Nat
  direction : Direction
  port : P
  fd : Nat
  before : PortVector P
  after : PortVector P
  status : Option Int

namespace PortCall

variable {P : Type}

/-- The loop goes on behind the call: it is left for a status that is not positive, when
something is received, and for a negative one, when it is sent. -/
def goesOn (c : PortCall P) : Bool :=
  match c.direction, c.status with
  | _, none => false
  | .receive, some ret => decide (0 < ret)
  | .send, some ret => decide (0 ≤ ret)

/-- The ports stay where they are; there may be others behind them. -/
def Keeps (c : PortCall P) : Prop := c.after.block = c.before.block ∧ c.before.ports <+: c.after.ports

end PortCall

/-- The state of a round of the loop. -/
structure Round (P S : Type) where
  vector : PortVector P
  rest : S
  calls : List (PortCall P)

/-- The sockets of the ports, and those that `select` has found ready. -/
structure SelectLoop (P : Type) where
  growth : Nat → Nat
  getSocket : P → Nat
  readfds : Nat → Bool
  writefds : Nat → Bool

namespace SelectLoop

variable {P S : Type} [DecidableEq P]

/-- The handler is called, and its ops are done. -/
def made (l : SelectLoop P) (react : React P S) (r : Round P S) (position : Nat)
    (direction : Direction) (port : P)
    (fd : Nat) : PortCall P :=
  let reaction := (react direction port fd r.rest r.vector).1
  { position, direction, port, fd
    before := r.vector
    after := reaction.ops.foldl (PortVector.apply l.growth) r.vector
    status := reaction.status }

def call (l : SelectLoop P) (react : React P S) (r : Round P S) (position : Nat)
    (direction : Direction) (port : P)
    (fd : Nat) : Bool × Round P S :=
  let c := l.made react r position direction port fd
  (c.goesOn, ⟨c.after, (react direction port fd r.rest r.vector).2, r.calls ++ [c]⟩)

/-- The second half of the body, with the socket from the first one. The iterator is
dereferenced once more; there is no result when it points to no port. -/
def visitSend (l : SelectLoop P) (react : React P S) (block index fd : Nat) (r : Round P S) :
    Except (Round P S) (Bool × Round P S) :=
  if l.writefds fd then
    match r.vector.deref block index with
    | none => .error r
    | some port => .ok (l.call react r index .send port fd)
  else .ok (true, r)

/-- The body of the loop. -/
def visit (l : SelectLoop P) (react : React P S) (block index : Nat) (r : Round P S) :
    Except (Round P S) (Bool × Round P S) :=
  match r.vector.deref block index with
  | none => .error r
  | some port =>
    let fd := l.getSocket port
    if l.readfds fd then
      let (goesOn, r) := l.call react r index .receive port fd
      if goesOn then l.visitSend react block index fd r else .ok (false, r)
    else l.visitSend react block index fd r

/-- The loop, with the number of positions up to the end it was given. -/
def visits (l : SelectLoop P) (react : React P S) (block : Nat) : Nat → Nat → Round P S →
    Except (Round P S) (Round P S)
  | 0, _, r => .ok r
  | n + 1, index, r =>
    match l.visit react block index r with
    | .error r => .error r
    | .ok (goesOn, r) => if goesOn then visits l react block n (index + 1) r else .ok r

/-- The dispatch of one round: both iterators are taken before it. -/
def dispatch (l : SelectLoop P) (react : React P S) (v : PortVector P) (s : S) :
    Except (Round P S) (Round P S) :=
  l.visits react v.block v.ports.length 0 ⟨v, s, []⟩

/-- What the handlers of a round may rely on: each was called for a port of the vector,
and none twice in one direction. -/
structure Right (r : Round P S) : Prop where
  registered : ∀ c ∈ r.calls, c.port ∈ c.before.ports
  once : (r.calls.map fun c => (c.port, c.direction)).Nodup

/-- Only iterators to ports are dereferenced, and the calls are right. -/
def Safe (l : SelectLoop P) (react : React P S) (v : PortVector P) (s : S) : Prop :=
  ∃ r, l.dispatch react v s = .ok r ∧ Right r

/-- There is something left to look at behind a call, as there were `n` ports. -/
def Left (l : SelectLoop P) (n : Nat) (c : PortCall P) : Prop :=
  c.position + 1 < n ∨ c.direction = .receive ∧ l.writefds c.fd = true

/-- Where the loop goes on to something that is left, the handler has kept the ports. -/
def Tame (l : SelectLoop P) (n : Nat) (calls : List (PortCall P)) : Prop :=
  ∀ c ∈ calls, c.goesOn = true → l.Left n c → c.Keeps

def Ready (l : SelectLoop P) (port : P) : Prop :=
  l.readfds (l.getSocket port) = true ∨ l.writefds (l.getSocket port) = true

/-- A port that is ready is the last one, and ready in one direction. -/
def LastOnly (l : SelectLoop P) (ports : List P) : Prop :=
  ∀ front port behind, ports = front ++ port :: behind → l.Ready port →
    behind = [] ∧ ¬ (l.readfds (l.getSocket port) = true ∧ l.writefds (l.getSocket port) = true)

section keeps

variable {P S : Type} {l : SelectLoop P} {react : React P S} {v : PortVector P} {r r' : Round P S}
  {index n : Nat}
  {port : P} {direction : Direction} {goesOn : Bool} {Q Q' : P → Direction → Prop}

/-- The ports from before the round are where they were, and only those of `Q` were
called. -/
structure Inv (v : PortVector P) (Q : P → Direction → Prop) (r : Round P S) : Prop extends Right r where
  block : r.vector.block = v.block
  ports : v.ports <+: r.vector.ports
  past : ∀ c ∈ r.calls, Q c.port c.direction

theorem Inv.mono (h : Inv v Q r) (hQ : ∀ q d, Q q d → Q' q d) : Inv v Q' r :=
  ⟨h.toRight, h.block, h.ports, fun c hc => hQ _ _ (h.past c hc)⟩

theorem Inv.deref (h : Inv v Q r) (hport : v.ports[index]? = some port) :
    r.vector.deref v.block index = some port := by
  rw [PortVector.deref, if_pos h.block]
  obtain ⟨behind, hbehind⟩ := h.ports
  rw [← hbehind, List.getElem?_append_left, hport]
  exact (List.getElem?_eq_some_iff.mp hport).1

/-- The ports in front of a position. -/
def Behind (v : PortVector P) (index : Nat) (port : P) (_ : Direction) : Prop :=
  port ∈ v.ports.take index

theorem not_behind (hnodup : v.ports.Nodup) (hport : v.ports[index]? = some port) :
    ¬ Behind v index port direction := by
  intro hmem
  obtain ⟨hlt, hget⟩ := List.getElem?_eq_some_iff.mp hport
  rw [← List.take_append_drop index v.ports] at hnodup
  refine List.disjoint_of_nodup_append hnodup hmem ?_
  rw [← hget, List.drop_eq_getElem_cons hlt]
  exact List.mem_cons_self

theorem behind_succ (hport : v.ports[index]? = some port) {q : P} {d : Direction}
    (h : Behind v index q d ∨ q = port) : Behind v (index + 1) q d := by
  obtain ⟨hlt, hget⟩ := List.getElem?_eq_some_iff.mp hport
  rw [Behind, List.take_succ_eq_append_getElem hlt, List.mem_append, List.mem_singleton, hget]
  exact h

theorem lastOnly_at (h : l.LastOnly v.ports) (hport : v.ports[index]? = some port)
    (hready : l.Ready port) :
    index + 1 = v.ports.length ∧
      ¬ (l.readfds (l.getSocket port) = true ∧ l.writefds (l.getSocket port) = true) := by
  obtain ⟨hlt, hget⟩ := List.getElem?_eq_some_iff.mp hport
  have hsplit : v.ports = v.ports.take index ++ port :: v.ports.drop (index + 1) := by
    rw [← hget, ← List.drop_eq_getElem_cons hlt, List.take_append_drop]
  obtain ⟨hnil, hone⟩ := h _ _ _ hsplit hready
  have hlen := List.drop_eq_nil_iff.mp hnil
  exact ⟨by omega, hone⟩

theorem inv_start (s : S) : Inv v (Behind v 0) (⟨v, s, []⟩ : Round P S) :=
  ⟨⟨nofun, List.nodup_nil⟩, rfl, List.prefix_rfl, nofun⟩

variable [DecidableEq P]

theorem Inv.right_call {fd : Nat} (h : Inv v Q r) (hport : v.ports[index]? = some port)
    (hQ : ¬ Q port direction) :
    Right (l.call react r index direction port fd).2 := by
  have hmem : port ∈ r.vector.ports := h.ports.subset (List.mem_of_getElem? hport)
  refine ⟨fun c hc => ?_, ?_⟩
  · obtain hc | hc := List.mem_append.mp hc
    · exact h.registered c hc
    · rw [List.mem_singleton.mp hc]
      exact hmem
  · have hnew : (port, direction) ∉ r.calls.map fun c => (c.port, c.direction) := by
      intro hseen
      obtain ⟨c, hc, heq⟩ := List.mem_map.mp hseen
      obtain ⟨rfl, rfl⟩ := Prod.mk.inj heq
      exact hQ (h.past c hc)
    have hcalls : ((l.call react r index direction port fd).2.calls.map fun c => (c.port, c.direction)) =
        (r.calls.map fun c => (c.port, c.direction)) ++ [(port, direction)] := List.map_append
    rw [hcalls, ← List.concat_eq_append]
    exact List.Nodup.concat hnew h.once

theorem Inv.call {fd : Nat} (h : Inv v Q r) (hport : v.ports[index]? = some port)
    (hQ : ¬ Q port direction)
    (hkeeps : (l.made react r index direction port fd).Keeps) :
    Inv v (fun q d => Q q d ∨ q = port ∧ d = direction) (l.call react r index direction port fd).2 := by
  refine ⟨h.right_call hport hQ, hkeeps.1.trans h.block, h.ports.trans hkeeps.2, fun c hc => ?_⟩
  obtain hc | hc := List.mem_append.mp hc
  · exact .inl (h.past c hc)
  · rw [List.mem_singleton.mp hc]
    exact .inr ⟨rfl, rfl⟩

/-- The calls that were made when the body ended. -/
def calls : Except (Round P S) (Bool × Round P S) → List (PortCall P)
  | .ok (_, r) | .error r => r.calls

theorem visitSend_spec {fd : Nat} (h : Inv v Q r) (hport : v.ports[index]? = some port)
    (hQ : ¬ Q port .send)
    (htame : l.Tame v.ports.length (calls (l.visitSend react v.block index fd r))) :
    ∃ goesOn r', l.visitSend react v.block index fd r = .ok (goesOn, r') ∧ Right r' ∧
      (goesOn = true → index + 1 < v.ports.length → Inv v (fun q d => Q q d ∨ q = port) r') := by
  unfold visitSend at htame ⊢
  by_cases hwrite : l.writefds fd = true
  · rw [if_pos hwrite, h.deref hport] at htame ⊢
    refine ⟨_, _, rfl, h.right_call hport hQ, fun hgoes hlt => ?_⟩
    have hkeeps := htame _ (List.mem_append_right _ List.mem_cons_self) hgoes (.inl hlt)
    exact (h.call hport hQ hkeeps).mono fun q d hq => hq.imp_right And.left
  · rw [if_neg hwrite]
    exact ⟨_, _, rfl, h.toRight, fun _ _ => h.mono fun q d => .inl⟩

theorem subset_calls_visitSend (fd : Nat) : r.calls ⊆ calls (l.visitSend react v.block index fd r) := by
  unfold visitSend
  split
  · cases r.vector.deref v.block index with
    | none => exact List.Subset.refl _
    | some port => exact List.subset_append_left _ _
  · exact List.Subset.refl _

theorem visit_spec (hnodup : v.ports.Nodup) (hport : v.ports[index]? = some port)
    (h : Inv v (Behind v index) r)
    (htame : l.Tame v.ports.length (calls (l.visit react v.block index r))) :
    ∃ goesOn r', l.visit react v.block index r = .ok (goesOn, r') ∧ Right r' ∧
      (goesOn = true → index + 1 < v.ports.length → Inv v (Behind v (index + 1)) r') := by
  have hfree : ∀ d, ¬ Behind v index port d := fun d => not_behind hnodup hport
  unfold visit at htame ⊢
  rw [h.deref hport] at htame ⊢
  dsimp only at htame ⊢
  by_cases hread : l.readfds (l.getSocket port) = true
  · rw [if_pos hread] at htame ⊢
    have hright := @Inv.right_call _ _ l react v r index port .receive _ _
      (l.getSocket port) h hport (hfree .receive)
    have hmem := @List.mem_append_right _ _ r.calls _
      (List.mem_singleton_self (l.made react r index .receive port (l.getSocket port)))
    split at htame <;> rename_i hgoes
    · rw [if_pos hgoes]
      by_cases hleft : l.Left v.ports.length (l.made react r index .receive port (l.getSocket port))
      · have hkeeps := htame _ (subset_calls_visitSend _ hmem) hgoes hleft
        obtain ⟨goesOn, r', hvisit, hright', hinv⟩ :=
          visitSend_spec (h.call hport (hfree .receive) hkeeps) hport
          (fun hq => hq.elim (hfree .send) fun hd => nomatch hd.2) htame
        refine ⟨goesOn, r', hvisit, hright', fun hg hlt => (hinv hg hlt).mono fun q d hq =>
          behind_succ hport ?_⟩
        exact hq.elim (fun hq => hq.imp_right And.left) .inr
      · -- Nothing is left: the port is the last one, and nothing can be sent.
        have hwrite : ¬ l.writefds (l.getSocket port) = true := fun hwrite => hleft (.inr ⟨rfl, hwrite⟩)
        refine ⟨true, _, if_neg hwrite, hright, fun _ hlt => absurd (.inl hlt) hleft⟩
    · rw [if_neg hgoes]
      exact ⟨_, _, rfl, hright, nofun⟩
  · rw [if_neg hread] at htame ⊢
    obtain ⟨goesOn, r', hvisit, hright, hinv⟩ := visitSend_spec h hport (hfree .send) htame
    exact ⟨goesOn, r', hvisit, hright, fun hg hlt => (hinv hg hlt).mono fun q d hq =>
      behind_succ hport hq⟩

theorem subset_calls_visit : r.calls ⊆ calls (l.visit react v.block index r) := by
  unfold visit
  cases r.vector.deref v.block index with
  | none => exact List.Subset.refl _
  | some port =>
    dsimp only
    split
    · have hcall : r.calls ⊆ (l.call react r index .receive port (l.getSocket port)).2.calls :=
        List.subset_append_left _ _
      split
      · exact List.Subset.trans hcall (subset_calls_visitSend _)
      · exact hcall
    · exact subset_calls_visitSend _

/-- The state in which a round ends. -/
def last : Except (Round P S) (Round P S) → Round P S
  | .ok r | .error r => r

theorem subset_calls_visits : r.calls ⊆ (last (l.visits react v.block n index r)).calls := by
  induction n generalizing index r with
  | zero => exact List.Subset.refl _
  | succ n ih =>
    have hvisit := @subset_calls_visit _ _ l react v r index _
    rw [visits]
    cases hx : l.visit react v.block index r with
    | error r' =>
      rw [hx] at hvisit
      exact hvisit
    | ok x =>
      rw [hx] at hvisit
      dsimp only
      split
      · exact List.Subset.trans hvisit ih
      · exact hvisit

theorem visits_spec (hnodup : v.ports.Nodup) (hlen : index + n = v.ports.length) (hright : Right r)
    (h : index < v.ports.length → Inv v (Behind v index) r)
    (htame : l.Tame v.ports.length (last (l.visits react v.block n index r)).calls) :
    ∃ r', l.visits react v.block n index r = .ok r' ∧ Right r' := by
  induction n generalizing index r with
  | zero => exact ⟨r, rfl, hright⟩
  | succ n ih =>
    have hlt : index < v.ports.length := by omega
    have hsub : calls (l.visit react v.block index r) ⊆
        (last (l.visits react v.block (n + 1) index r)).calls := by
      rw [visits]
      cases l.visit react v.block index r with
      | error r' => exact List.Subset.refl _
      | ok x =>
        dsimp only
        split
        · exact subset_calls_visits
        · exact List.Subset.refl _
    obtain ⟨goesOn, r', hvisit, hright', hinv⟩ := @visit_spec _ _ l react v r index _ _ hnodup
      (List.getElem?_eq_getElem hlt) (h hlt) fun c hc => htame c (hsub hc)
    rw [visits, hvisit] at htame ⊢
    cases goesOn with
    | false => exact ⟨r', rfl, hright'⟩
    | true => exact ih (by omega) hright' (hinv rfl) htame

theorem safe_of_tame (hnodup : v.ports.Nodup) {s : S}
    (htame : l.Tame v.ports.length (last (l.dispatch react v s)).calls) : l.Safe react v s :=
  visits_spec hnodup (Nat.zero_add _) (inv_start s).toRight (fun _ => inv_start s) htame

end keeps

section all

variable {l : SelectLoop P} {v : PortVector P} {r : Round P S} {react : React P S}
  {index n : Nat} {port : P}

theorem visit_skip (hderef : r.vector.deref v.block index = some port) (hport : ¬ l.Ready port) :
    l.visit react v.block index r = .ok (true, r) := by
  obtain ⟨hread, hwrite⟩ := not_or.mp hport
  unfold visit
  rw [hderef]
  dsimp only
  rw [if_neg hread]
  exact if_neg hwrite

theorem mem_calls_visit {c : PortCall P} (hderef : r.vector.deref v.block index = some port)
    (hc : c ∈ calls (l.visit react v.block index r)) : c ∈ r.calls ∨ c.position = index ∧
      (c.direction = .receive → c.fd = l.getSocket port ∧ l.readfds c.fd = true) := by
  have hsend : ∀ (r : Round P S) (fd : Nat), c ∈ calls (l.visitSend react v.block index fd r) →
      c ∈ r.calls ∨ c.position = index ∧ c.direction = .send := by
    intro r fd hc
    unfold visitSend at hc
    split at hc
    · split at hc
      · exact .inl hc
      · refine (List.mem_append.mp hc).imp_right fun hc => ?_
        obtain rfl := List.mem_singleton.mp hc
        exact ⟨rfl, rfl⟩
    · exact .inl hc
  unfold visit at hc
  rw [hderef] at hc
  dsimp only at hc
  split at hc
  · rename_i hread
    have hcall : c ∈ (l.call react r index .receive port (l.getSocket port)).2.calls → c ∈ r.calls ∨
        c.position = index ∧ (c.direction = .receive → c.fd = l.getSocket port ∧
          l.readfds c.fd = true) := by
      intro hc
      refine (List.mem_append.mp hc).imp_right fun hc => ?_
      obtain rfl := List.mem_singleton.mp hc
      exact ⟨rfl, fun _ => ⟨rfl, hread⟩⟩
    split at hc
    · obtain hc | ⟨hpos, hd⟩ := hsend _ _ hc
      · exact hcall hc
      · exact .inr ⟨hpos, fun h => nomatch hd.symm.trans h⟩
    · exact hcall hc
  · obtain hc | ⟨hpos, hd⟩ := hsend _ _ hc
    · exact .inl hc
    · exact .inr ⟨hpos, fun h => nomatch hd.symm.trans h⟩

theorem visits_lastOnly (hnodup : v.ports.Nodup) (h : l.LastOnly v.ports) (s : S)
    (hlen : index + n = v.ports.length) (hinv : Inv v (Behind v index) (⟨v, s, []⟩ : Round P S)) :
    ∃ r', l.visits react v.block n index ⟨v, s, []⟩ = .ok r' ∧ Right r' := by
  induction n generalizing index with
  | zero => exact ⟨_, rfl, hinv.toRight⟩
  | succ n ih =>
    have hlt : index < v.ports.length := by omega
    have hport := List.getElem?_eq_getElem hlt
    by_cases hready : l.Ready v.ports[index]
    · obtain ⟨hlast, hone⟩ := lastOnly_at h hport hready
      obtain rfl : n = 0 := by omega
      obtain ⟨goesOn, r', hvisit, hright, -⟩ :=
        @visit_spec _ _ l react v _ index _ _ hnodup hport hinv (by
        intro c hc hgoes hleft
        obtain hc | ⟨hpos, hfd⟩ := mem_calls_visit (hinv.deref hport) hc
        · exact absurd hc List.not_mem_nil
        · obtain hlt' | ⟨hd, hwrite⟩ := hleft
          · omega
          · obtain ⟨heq, hread⟩ := hfd hd
            rw [heq] at hread hwrite
            exact absurd ⟨hread, hwrite⟩ hone)
      rw [visits, hvisit]
      cases goesOn with
      | false | true => exact ⟨r', rfl, hright⟩
    · rw [visits, visit_skip (hinv.deref hport) hready]
      exact ih (by omega) (hinv.mono fun q d hq => behind_succ hport (.inl hq))

/-- Handlers that delete all ports, and let the loop go on. -/
def clear : React P Unit := fun _ _ _ _ v => (⟨v.ports.map .delPort, some 1⟩, ())

theorem foldl_delPort (growth : Nat → Nat) (ports : List P) (v : PortVector P) :
    ((ports.map .delPort).foldl (PortVector.apply growth) v).ports = v.ports.filter (· ∉ ports) := by
  induction ports generalizing v with
  | nil => simp
  | cons port ports ih =>
    rw [List.map_cons, List.foldl_cons, ih]
    dsimp only [PortVector.apply, PortVector.delPort]
    rw [List.filter_filter]
    apply List.filter_congr
    intro q _
    simp [Bool.and_comm]

theorem call_clear {direction : Direction} {fd : Nat} {r : Round P Unit} :
    (l.call clear r index direction port fd).1 = true ∧
      (l.call clear r index direction port fd).2.vector.ports = [] := by
  refine ⟨?_, ?_⟩
  · cases direction <;> rfl
  · refine (foldl_delPort l.growth r.vector.ports r.vector).trans ?_
    simp

theorem visits_nil {block : Nat} (h : r.vector.ports = []) (hn : n ≠ 0) :
    l.visits react block n index r = .error r := by
  obtain ⟨n, rfl⟩ := Nat.exists_eq_succ_of_ne_zero hn
  rw [visits, visit, PortVector.deref_nil h]

theorem visits_clear {index' : Nat} (hlen : index + n = v.ports.length) (hle : index ≤ index')
    (hport : v.ports[index']? = some port) (hready : l.Ready port)
    (hleft : index' + 1 < v.ports.length ∨
      l.readfds (l.getSocket port) = true ∧ l.writefds (l.getSocket port) = true) :
    ∃ r', l.visits clear v.block n index ⟨v, (), []⟩ = .error r' := by
  have hlt' : index' < v.ports.length := (List.getElem?_eq_some_iff.mp hport).1
  induction n generalizing index with
  | zero => omega
  | succ n ih =>
    have hderef := (inv_start (v := v) ()).deref
      (List.getElem?_eq_getElem (by omega : index < v.ports.length))
    by_cases hfirst : l.Ready v.ports[index]
    · -- The first call that the loop makes: what it looks at next is not there.
      have hnext : l.writefds (l.getSocket v.ports[index]) = true ∧
          l.readfds (l.getSocket v.ports[index]) = true ∨ n ≠ 0 := by
        by_cases heq : index = index'
        · subst heq
          obtain rfl := Option.some.inj ((List.getElem?_eq_getElem hlt').symm.trans hport)
          exact hleft.symm.imp And.symm fun _ => by omega
        · exact .inr (by omega)
      rw [visits, visit, hderef]
      dsimp only
      by_cases hread : l.readfds (l.getSocket v.ports[index]) = true
      · rw [if_pos hread, if_pos call_clear.1, visitSend]
        by_cases hwrite : l.writefds (l.getSocket v.ports[index]) = true
        · rw [if_pos hwrite, PortVector.deref_nil call_clear.2]
          exact ⟨_, rfl⟩
        · rw [if_neg hwrite]
          exact ⟨_, visits_nil call_clear.2 (hnext.resolve_left fun h => hwrite h.1)⟩
      · have hwrite := hfirst.resolve_left hread
        rw [if_neg hread, visitSend, if_pos hwrite, hderef]
        dsimp only
        rw [if_pos call_clear.1]
        exact ⟨_, visits_nil call_clear.2 (hnext.resolve_left fun h => hread h.2)⟩
    · rw [visits, visit_skip hderef hfirst]
      refine ih (by omega) (Nat.lt_of_le_of_ne hle fun heq => hfirst ?_)
      subst heq
      obtain rfl := Option.some.inj ((List.getElem?_eq_getElem hlt').symm.trans hport)
      exact hready

theorem not_safe_clear (h : ¬ l.LastOnly v.ports) : ¬ l.Safe clear v () := by
  rintro ⟨r, hr, -⟩
  apply h
  intro front port behind hsplit hready
  by_contra hmore
  have hport : v.ports[front.length]? = some port := by
    rw [hsplit, List.getElem?_append_right (Nat.le_refl _), Nat.sub_self]
    rfl
  have hleft : front.length + 1 < v.ports.length ∨
      l.readfds (l.getSocket port) = true ∧ l.writefds (l.getSocket port) = true := by
    by_cases hboth : l.readfds (l.getSocket port) = true ∧ l.writefds (l.getSocket port) = true
    · exact .inr hboth
    · have hpos := List.length_pos_of_ne_nil fun hnil => hmore ⟨hnil, hboth⟩
      rw [hsplit, List.length_append, List.length_cons]
      exact .inl (by omega)
  obtain ⟨r', hr'⟩ := visits_clear (Nat.zero_add _) (Nat.zero_le _) hport hready hleft
  exact nomatch hr.symm.trans hr'

end all

/-- A round is safe for all handlers just if the last port at most is ready, and that in
one direction; and it is safe if each handler keeps the ports where the loop goes on to
something that is left. -/
theorem safe_iff_lastOnly (l : SelectLoop P) (v : PortVector P) (hnodup : v.ports.Nodup) :
    ((∀ (S : Type) (react : React P S) (s : S), l.Safe react v s) ↔ l.LastOnly v.ports) ∧
      ∀ (S : Type) (react : React P S) (s : S),
        l.Tame v.ports.length (last (l.dispatch react v s)).calls → l.Safe react v s := by
  refine ⟨⟨fun h => ?_, fun h S react s => ?_⟩, fun S react s => safe_of_tame hnodup⟩
  · by_contra hlast
    exact not_safe_clear hlast (h Unit clear ())
  · exact visits_lastOnly hnodup h s (Nat.zero_add _) (inv_start s)

section sample

/-- A port that listens, and two connections. -/
def threePorts : PortVector Nat := ⟨0, 4, [3, 5, 6], by decide⟩

/-- Something has arrived at one port. -/
def received (fd : Nat) : SelectLoop Nat where
  growth n := 2 * n
  getSocket port := port
  readfds fd' := fd' == fd
  writefds _ := false

/-- What a login into a Normal session does: its connection changes to the loop of a
reactor, and the handler returns a positive status. -/
def handOff : React Nat Unit := fun _ port _ _ _ => (⟨[.delPort port], some 1⟩, ())

/-- The last port may give up its place. -/
theorem safe_last : (received 6).Safe handOff threePorts () := by
  refine (safe_iff_lastOnly (received 6) threePorts (by decide)).1.mpr
    (fun front port behind hsplit hready => ?_)
    Unit handOff ()
  have hlast : port = 6 := by simpa [Ready, received] using hready
  subst hlast
  refine ⟨?_, by simp [received]⟩
  obtain _ | ⟨_, _ | ⟨_, _ | ⟨_, front⟩⟩⟩ := front <;> simp_all [threePorts]

/-- The connection in the middle changes its loop; behind the other one the vector ends,
but not the loop. -/
theorem not_safe_handOff : ¬ ∀ (l : SelectLoop Nat) (v : PortVector Nat), v.ports.Nodup →
    ∀ (S : Type) (react : React Nat S) (s : S), l.Safe react v s := by
  intro hall
  obtain ⟨r, hr, -⟩ := hall (received 5) threePorts (by decide) Unit handOff ()
  have herror : ((received 5).dispatch handOff threePorts ()).toOption.isSome = false := by decide
  rw [hr] at herror
  exact absurd herror Bool.noConfusion

end sample

end SelectLoop

namespace Target

variable {w : Target} {v : PortVector Nat} {fd r : Nat} {l : Listener}

theorem addPort_ports (hv : v.ports = w.ports l) (growth : Nat → Nat) :
    (w.addPort l fd).ports l = (v.addPort growth fd).ports := by
  rw [PortVector.addPort_ports, hv, addPort]
  exact Function.update_self ..

theorem delPort_ports (hv : v.ports = w.ports l) : (w.delPort l fd).ports l = (v.delPort fd).ports := by
  rw [PortVector.delPort_ports, hv, delPort]
  exact Function.update_self ..

theorem changeListener_ports (hv : v.ports = w.ports .manager)
    (hl : (w.conn fd).listener = some .manager) :
    (w.changeListener fd r).ports .manager = (v.delPort fd).ports := by
  have hne : Listener.manager ≠ .reactor r := nofun
  have hleave : w.leaveListener fd = w.delPort .manager fd := by rw [leaveListener, hl]
  rw [← delPort_ports hv, changeListener, hleave]
  dsimp only [addPort]
  rw [Function.update_of_ne hne]
  rfl

end Target

end Sstoraged
