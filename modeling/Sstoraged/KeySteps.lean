import Sstoraged.KeyValue

namespace Sstoraged

open Outcome

variable {cfg : Config} {value : String} {s t : LoginSession} {reply : List (String × String)}

namespace PairHandler

/-- The handlers that use the initiator object. -/
def usesInitiator : PairHandler → Bool
  | initiatorAlias | authMethod | maxRecvDataSegmentLength => true
  | _ => false

/-- What a key handler may change: the numbers and flags of the session, and its
initiator. -/
structure Negotiated (h : PairHandler) (s t : LoginSession) : Prop where
  window : t.window = s.window
  protos : t.protos = s.protos
  accepted : t.accepted = s.accepted
  connection : t.connection = s.connection
  sendtask : t.sendtask = s.sendtask
  initiator : h ≠ initiatorName → h.usesInitiator = false → t.initiator = s.initiator
  isSome : h = initiatorName ∨ s.initiator ≠ none → t.initiator ≠ none

theorem negotiated_of_eq {h : PairHandler} (hne : h ≠ initiatorName) (hw : t.window = s.window)
    (hp : t.protos = s.protos) (ha : t.accepted = s.accepted) (hc : t.connection = s.connection)
    (ht : t.sendtask = s.sendtask) (hi : t.initiator = s.initiator) : Negotiated h s t :=
  ⟨hw, hp, ha, hc, ht, fun _ _ => hi, fun hs => hi ▸ hs.resolve_left hne⟩

theorem negotiated_update {h : PairHandler} (hu : h.usesInitiator = true) (initiator : ISCSIInitiator) :
    Negotiated h s { s with initiator := some initiator } where
  window := rfl
  protos := rfl
  accepted := rfl
  connection := rfl
  sendtask := rfl
  initiator _ hn := absurd hu (hn ▸ Bool.false_ne_true)
  isSome _ := Option.some_ne_none _

/-- The null pointer that a handler may use is that of an initiator which no name was
given for. -/
def NeedsInitiator (h : PairHandler) (s : LoginSession) (p : Pointer) : Prop :=
  p = .initiator ∧ h.usesInitiator = true ∧ s.initiator = none

theorem ends_getInitiator {h : PairHandler} (hu : h.usesInitiator = true) :
    Ends (NeedsInitiator h s) (fun t => t = s) (fun i => s.initiator = some i) (getInitiator s) := by
  unfold getInitiator
  split
  · next hnone => exact ⟨rfl, hu, hnone⟩
  · next hsome => exact hsome

theorem ends_negotiateNum {h : PairHandler} (hne : h ≠ initiatorName) (f : Nat → Nat → Nat)
    (attr : String) :
    Ends (NeedsInitiator h s) (fun t => t = s) (fun p => Negotiated h s p.1)
      (negotiateNum cfg f attr value s reply) :=
  .bind (ends_ofOption.mpr fun _ _ => trivial) fun _ _ => negotiated_of_eq hne rfl rfl rfl rfl rfl rfl

theorem ends_normalOnly {h : PairHandler} {r : Outcome Pointer LoginSession (LoginSession × Pairs)}
    (hr : Ends (NeedsInitiator h s) (fun t => t = s) (fun p => Negotiated h s p.1) r) :
    Ends (NeedsInitiator h s) (fun t => t = s) (fun p => Negotiated h s p.1) (normalOnly s r) := by
  unfold normalOnly
  split
  · exact hr
  · exact rfl

theorem ends_handle (h : PairHandler) :
    Ends (NeedsInitiator h s) (fun t => t = s) (fun p => Negotiated h s p.1)
      (h.handle cfg value s reply) := by
  cases h with
  | initiatorName =>
    rw [handle]
    split
    · exact ⟨rfl, rfl, rfl, rfl, rfl, fun hne => absurd rfl hne, fun _ => Option.some_ne_none _⟩
    · exact rfl
  | initiatorAlias => exact .bind (ends_getInitiator rfl) fun _ _ => negotiated_update rfl _
  | authMethod =>
    rw [handle]
    split
    · exact .bind (ends_getInitiator rfl) fun _ _ => negotiated_update rfl _
    · exact ⟨rfl, rfl, rfl, rfl, rfl, fun _ _ => rfl, fun hs => hs.resolve_left nofun⟩
  | maxRecvDataSegmentLength =>
    exact .bind (ends_ofOption.mpr fun _ _ => trivial) fun _ _ =>
      .bind (ends_getInitiator rfl) fun _ _ => negotiated_update rfl _
  | nothingTodo | targetAlias | digest => exact negotiated_of_eq nofun rfl rfl rfl rfl rfl rfl
  | negotiateMax | negotiateMin => exact ends_negotiateNum (by nofun) _ _
  | normalMin => exact ends_normalOnly (ends_negotiateNum (by nofun) _ _)
  | normalOr | normalAnd => exact ends_normalOnly (negotiated_of_eq nofun rfl rfl rfl rfl rfl rfl)
  | negotiateAnd => exact negotiated_of_eq nofun rfl rfl rfl rfl rfl rfl

end PairHandler

open PairHandler

/-- The keys whose handlers use the initiator object. -/
def initiatorKeys : List String := ["InitiatorAlias", "AuthMethod", "MaxRecvDataSegmentLength"]

theorem lookup_mem {α β : Type} [BEq α] [LawfulBEq α] {l : List (α × β)} {k : α} {b : β}
    (h : l.lookup k = some b) : (k, b) ∈ l := by
  obtain ⟨l₁, l₂, rfl, -⟩ := List.lookup_eq_some_iff.mp h
  exact List.mem_append_right _ List.mem_cons_self

theorem mem_initiatorKeys {key : String} {h : PairHandler} (hl : pairHandlers.lookup key = some h)
    (hu : h.usesInitiator = true) : key ∈ initiatorKeys := by
  have hall : ∀ p ∈ pairHandlers, p.2.usesInitiator = true → p.1 ∈ initiatorKeys := by decide +kernel
  exact hall _ (lookup_mem hl) hu

theorem eq_initiatorName {key : String} (hl : pairHandlers.lookup key = some initiatorName) :
    key = "InitiatorName" := by
  have hall : ∀ p ∈ pairHandlers, p.2 = initiatorName → p.1 = "InitiatorName" := by decide +kernel
  exact hall _ (lookup_mem hl) rfl

theorem lookup_initiatorName : pairHandlers.lookup "InitiatorName" = some initiatorName := by
  decide +kernel

/-- What one key does to a session. -/
structure Handled (key value : String) (s t : LoginSession) : Prop where
  window : t.window = s.window
  protos : t.protos = s.protos
  accepted : t.accepted = s.accepted ++ [(key, value)]
  connection : t.connection = s.connection
  sendtask : t.sendtask = s.sendtask
  initiator : key ≠ "InitiatorName" → key ∉ initiatorKeys → t.initiator = s.initiator
  isSome : key = "InitiatorName" ∨ s.initiator ≠ none → t.initiator ≠ none

theorem ends_handlePair {pairs : List (String × String)} {key : String} :
    Ends (fun p => p = .pairHandler ∨ p = .initiator ∧ key ∈ initiatorKeys ∧ s.initiator = none)
      (fun t => t = s)
      (fun p => Handled key (getPairValue pairs key) s p.1) (handlePair cfg pairs key s reply) := by
  unfold handlePair
  split
  · exact .inl rfl
  next h hl =>
  refine .bind (.mono_null (ends_handle h) fun p hp => .inr ⟨hp.1, mem_initiatorKeys hl hp.2.1, hp.2.2⟩)
    fun ⟨t, _⟩ ht => ⟨ht.window, ht.protos, congrArg (· ++ _) ht.accepted, ht.connection, ht.sendtask,
      fun hne hnot => ?_, fun hs => ?_⟩
  · have hu : h.usesInitiator = false :=
      Bool.eq_false_iff.mpr fun hu => hnot (mem_initiatorKeys hl hu)
    exact ht.initiator (fun hi => hne (eq_initiatorName (hi ▸ hl))) hu
  · refine ht.isSome (hs.imp_left fun hkey => ?_)
    rw [hkey, lookup_initiatorName] at hl
    exact (Option.some.inj hl).symm

/-- Keys that do not concern the initiator leave it alone; none concerns the handlers,
the type, the window, the connections and the queue. -/
structure Negotiating (pairs : List (String × String)) (s t : LoginSession) : Prop where
  window : t.window = s.window
  protos : t.protos = s.protos
  connection : t.connection = s.connection
  sendtask : t.sendtask = s.sendtask
  initiator : (∀ key ∈ pairs.map Prod.fst, key ≠ "InitiatorName" ∧ key ∉ initiatorKeys) →
    t.initiator = s.initiator

theorem ends_handlePairs {pairs : List (String × String)} :
    ∀ (rest : List (String × String)) (s : LoginSession) (reply : List (String × String)),
      Ends (fun p => p = .pairHandler ∨ p = .initiator) (Negotiating rest s)
        (fun p => Negotiating rest s p.1)
        (handlePairs cfg pairs rest s reply)
  | [], _, _ => ⟨rfl, rfl, rfl, rfl, fun _ => rfl⟩
  | (key, v) :: rest, s, reply => by
    have hpair : Ends (fun p => p = .pairHandler ∨ p = .initiator) (Negotiating ((key, v) :: rest) s)
        (fun p => Handled key (getPairValue pairs key) s p.1) (handlePair cfg pairs key s reply) :=
      .mono_null (ends_handlePair.mono (fun t ht => ht ▸ ⟨rfl, rfl, rfl, rfl, fun _ => rfl⟩)
        fun _ h => h)
        fun _ hp => hp.imp_right And.left
    refine hpair.bind fun ⟨t, reply⟩ ht => ?_
    have hcons : ∀ u, Negotiating rest t u → Negotiating ((key, v) :: rest) s u := fun u hu =>
      ⟨hu.window.trans ht.window, hu.protos.trans ht.protos, hu.connection.trans ht.connection,
        hu.sendtask.trans ht.sendtask, fun hkeys => by
        obtain ⟨hkey, hrest⟩ := List.forall_mem_cons.mp hkeys
        rw [hu.initiator hrest, ht.initiator hkey.1 hkey.2]⟩
    exact (ends_handlePairs rest t reply).mono hcons fun p => hcons p.1

theorem parsePair_of_mem {data : List String} {pairs : List (String × String)}
    (h : parsePairs cfg data = .ok pairs) : ∀ p ∈ pairs, parsePair cfg p = some true := by
  induction data generalizing pairs with
  | nil =>
    obtain rfl := Except.ok.inj h
    exact fun _ hp => absurd hp List.not_mem_nil
  | cons str data ih =>
    unfold parsePairs at h
    dsimp only at h
    cases hp : parsePair cfg (getKeyValuePair str) with
    | none =>
      rw [hp] at h
      exact absurd h nofun
    | some b =>
      rw [hp] at h
      cases b with
      | false => exact absurd h nofun
      | true =>
        cases hrest : parsePairs cfg data with
        | error e =>
          rw [hrest] at h
          exact absurd h nofun
        | ok rest =>
          rw [hrest] at h
          obtain rfl := Except.ok.inj h
          exact List.forall_mem_cons.mpr ⟨hp, ih hrest⟩

theorem getPairValue_mem {pairs : List (String × String)} {key : String} (h : key ∈ pairs.map Prod.fst) :
    (key, getPairValue pairs key) ∈ pairs := by
  obtain ⟨v, hv⟩ := Option.isSome_iff_exists.mp (List.lookup_isSome_iff.mpr
    (let ⟨p, hp, hk⟩ := List.mem_map.mp h; ⟨p, hp, beq_iff_eq.mpr hk.symm⟩))
  rw [getPairValue, hv]
  exact lookup_mem hv

end Sstoraged
