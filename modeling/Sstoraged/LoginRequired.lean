import Sstoraged.KeySteps
import Sstoraged.LoginSteps

namespace Sstoraged

open Outcome Runs LoginSession Target

/-- The names are the same but for the case of their letters. -/
def EqualIgnoringCase (a b : String) : Prop := a.toList.map Char.toLower = b.toList.map Char.toLower

theorem strncasecmp_iff : ∀ {as bs : List Char}, as.length = bs.length →
    (strncasecmp as bs as.length = true ↔ as.map Char.toLower = bs.map Char.toLower)
  | [], [], _ => by simp [strncasecmp]
  | a :: as, b :: bs, h => by
    rw [List.length_cons, strncasecmp, Bool.and_eq_true, decide_eq_true_eq,
      strncasecmp_iff (Nat.succ.inj h),
      List.map_cons, List.map_cons, List.cons.injEq]

/-- An InitiatorName of the configuration and the name of the target were accepted. -/
structure LoggedIn (cfg : Config) (s : LoginSession) : Prop where
  initiatorName : ∃ v, ("InitiatorName", v) ∈ s.accepted ∧ (cfg.initiators.lookup v).isSome
  targetName : ∃ v, ("TargetName", v) ∈ s.accepted ∧ EqualIgnoringCase v cfg.globalTargetName

/-- A key was accepted with a value, or this request has it. -/
def Gives (s : LoginSession) (pairs : List (String × String)) (key : String)
    (P : String → Prop) : Prop :=
  (∃ v, (key, v) ∈ s.accepted ∧ P v) ∨ key ∈ pairs.map Prod.fst ∧ P (getPairValue pairs key)

/-- The keys of a request come after the name of the initiator, and both names are
given, the target's in full, when a Normal session shifts to the full feature phase. -/
structure ProperKeys (cfg : Config) (s : LoginSession) (stage : UInt8) (pairs : List (String × String)) :
    Prop where
  order : ∀ before key v after, pairs = before ++ (key, v) :: after → key ∈ initiatorKeys →
    Gives s before "InitiatorName" fun _ => True
  names : stage = 3 → firstType s pairs = .normal →
    Gives s pairs "InitiatorName" (fun _ => True) ∧
      Gives s pairs "TargetName" fun v => v.length = cfg.globalTargetName.length

/-- The condition on the Login requests. -/
def Proper (cfg : Config) (w : Target) : TargetEvent → Prop
  | .pdu id _ (.login _ _ req) => req.valid = true → ∀ pairs, parsePairs cfg req.data = .ok pairs →
      ProperKeys cfg (w.ses id) req.stage pairs
  | _ => True

/-- What has been accepted so far, and the handlers that rest on it. -/
structure Checked (cfg : Config) (s : LoginSession) : Prop where
  initiator : "InitiatorName" ∈ s.accepted.map Prod.fst → s.initiator ≠ none
  names : ∀ v, ("InitiatorName", v) ∈ s.accepted → (cfg.initiators.lookup v).isSome
  targets : ∀ v, ("TargetName", v) ∈ s.accepted →
    strncasecmp v.toList cfg.globalTargetName.toList v.length = true
  protos : LoggedIn cfg s ∨ ∀ op h, s.protos op = some h → op ≠ opScsiCmd ∧
    ∀ read write, h ≠ .command read write

variable {cfg : Config} {l : LinearLimitter} {s t : LoginSession} {pairs : List (String × String)}

theorem Checked.kept {type : SessionType} (h : Checked cfg s) (hk : Kept l type s t) :
    Checked cfg t := by
  refine ⟨?_, ?_, ?_, ?_⟩
  · rw [hk.accepted, hk.initiator]
    exact h.initiator
  · rw [hk.accepted]
    exact h.names
  · rw [hk.accepted]
    exact h.targets
  · rw [hk.protos]
    exact h.protos.imp_left fun hl => ⟨hk.accepted ▸ hl.initiatorName, hk.accepted ▸ hl.targetName⟩

theorem LoggedIn.mono (h : LoggedIn cfg s) (hsub : s.accepted ⊆ t.accepted) : LoggedIn cfg t :=
  ⟨h.initiatorName.imp fun _ hv => hv.imp_left (hsub ·),
    h.targetName.imp fun _ hv => hv.imp_left (hsub ·)⟩

theorem Checked.of_loggedIn (h : Checked cfg s) (hl : LoggedIn cfg s) (hi : t.initiator = s.initiator)
    (ha : t.accepted = s.accepted) : Checked cfg t := by
  refine ⟨?_, ?_, ?_, .inl (hl.mono (ha ▸ List.Subset.refl _))⟩
  · rw [ha, hi]
    exact h.initiator
  · rw [ha]
    exact h.names
  · rw [ha]
    exact h.targets

theorem Checked.handled {key value : String} (h : Checked cfg s)
    (hvalid : parsePair cfg (key, value) = some true)
    (ht : Handled key value s t) : Checked cfg t := by
  have hmem : ∀ {k v}, (k, v) ∈ t.accepted → (k, v) ∈ s.accepted ∨ k = key ∧ v = value := by
    intro k v hkv
    rw [ht.accepted, List.mem_append, List.mem_singleton, Prod.mk.injEq] at hkv
    exact hkv
  refine ⟨fun hkey => ?_, fun v hv => ?_, fun v hv => ?_, ?_⟩
  · obtain ⟨⟨k, v⟩, hkv, rfl⟩ := List.mem_map.mp hkey
    rcases hmem hkv with hold | ⟨rfl, -⟩
    · exact ht.isSome (.inr (h.initiator (List.mem_map_of_mem hold)))
    · exact ht.isSome (.inl rfl)
  · rcases hmem hv with hold | ⟨rfl, rfl⟩
    · exact h.names v hold
    · have hv := (show PairValidator.valid cfg v .initiatorName = some true from hvalid)
      simp only [PairValidator.valid, Option.some.injEq, Bool.and_eq_true] at hv
      exact hv.2
  · rcases hmem hv with hold | ⟨rfl, rfl⟩
    · exact h.targets v hold
    · have hv := (show PairValidator.valid cfg v .targetName = some true from hvalid)
      simp only [PairValidator.valid, Option.some.injEq, Bool.and_eq_true] at hv
      exact hv.2
  · rw [ht.protos]
    exact h.protos.imp_left fun hl => hl.mono (ht.accepted ▸ List.subset_append_left ..)

/-- All these keys were handled. -/
structure AllHandled (pairs rest : List (String × String)) (s t : LoginSession) : Prop where
  window : t.window = s.window
  accepted : s.accepted ⊆ t.accepted
  keys : ∀ key ∈ rest.map Prod.fst, (key, getPairValue pairs key) ∈ t.accepted

theorem checked_handlePairs (hvalid : ∀ p ∈ pairs, parsePair cfg p = some true) :
    ∀ (rest : List (String × String)) (s : LoginSession) (reply : List (String × String)), rest ⊆ pairs →
      Checked cfg s →
      (∀ before key v after, rest = before ++ (key, v) :: after → key ∈ initiatorKeys →
        "InitiatorName" ∈ s.accepted.map Prod.fst ∨ "InitiatorName" ∈ before.map Prod.fst) →
      Ends NotInitiator (Checked cfg) (fun p => Checked cfg p.1 ∧ AllHandled pairs rest s p.1)
        (handlePairs cfg pairs rest s reply)
  | [], s, _, _, h, _ => ⟨h, rfl, fun _ hp => hp, fun _ hk => absurd hk List.not_mem_nil⟩
  | (key, v) :: rest, s, reply, hsub, h, horder => by
    have hkey : parsePair cfg (key, getPairValue pairs key) = some true :=
      hvalid _ (getPairValue_mem (List.mem_map_of_mem (hsub List.mem_cons_self)))
    have hpair : Ends NotInitiator (Checked cfg) (fun p => Handled key (getPairValue pairs key) s p.1)
        (handlePair cfg pairs key s reply) := by
      refine .mono_null (ends_handlePair.mono (fun t ht => ht ▸ h) fun _ ht => ht) fun p hp => ?_
      rcases hp with rfl | ⟨rfl, hmem, hnone⟩
      · exact Pointer.noConfusion
      · have hname := (horder [] key v rest rfl hmem).resolve_right List.not_mem_nil
        exact absurd hnone (h.initiator hname)
    refine hpair.bind fun ⟨t, reply⟩ ht => ?_
    have hrest := checked_handlePairs hvalid rest t reply (fun p hp => hsub (List.mem_cons_of_mem _ hp))
      (h.handled hkey ht) fun before k v' after heq hmem => ?_
    · refine hrest.mono (fun _ h => h) fun p ⟨hc, hall⟩ => ?_
      have hsub' : s.accepted ⊆ t.accepted := ht.accepted ▸ List.subset_append_left ..
      refine ⟨hc, hall.window.trans ht.window, fun _ hp => hall.accepted (hsub' hp), fun k hk => ?_⟩
      rcases List.mem_cons.mp hk with rfl | hk
      · exact hall.accepted (ht.accepted ▸ List.mem_append_right _ (List.mem_singleton_self _))
      · exact hall.keys k hk
    · have hcase := horder ((key, v) :: before) k v' after (by rw [heq, List.cons_append]) hmem
      rw [ht.accepted, List.map_append, List.mem_append]
      rcases hcase with hold | hnew
      · exact .inl (.inl hold)
      · rw [List.map_cons, List.mem_cons] at hnew
        exact hnew.imp (fun hn => .inr (by rw [hn]; exact List.mem_singleton_self _)) id

theorem Gives.accepted {key : String} {P : String → Prop} (h : Gives s pairs key P)
    (hsub : s.accepted ⊆ t.accepted) (hall : ∀ key ∈ pairs.map Prod.fst,
      (key, getPairValue pairs key) ∈ t.accepted) :
    ∃ v, (key, v) ∈ t.accepted ∧ P v := by
  obtain ⟨v, hv, hp⟩ | ⟨hk, hp⟩ := h
  · exact ⟨v, hsub hv, hp⟩
  · exact ⟨_, hall key hk, hp⟩

theorem Checked.loggedIn {stage : UInt8} (ht : Checked cfg t) (h : ProperKeys cfg s stage pairs)
    (hsub : s.accepted ⊆ t.accepted) (hall : ∀ key ∈ pairs.map Prod.fst,
      (key, getPairValue pairs key) ∈ t.accepted)
    (hstage : stage = 3) (htype : firstType s pairs = .normal) :
    LoggedIn cfg t := by
  obtain ⟨hname, htarget⟩ := h.names hstage htype
  refine ⟨(hname.accepted hsub hall).imp fun v hv => ⟨hv.1, ht.names v hv.1⟩, ?_⟩
  obtain ⟨v, hv, hlen⟩ := htarget.accepted hsub hall
  refine ⟨v, hv, ?_⟩
  have hcmp := ht.targets v hv
  rw [← String.length_toList] at hcmp hlen
  rw [← String.length_toList] at hlen
  exact (strncasecmp_iff hlen).mp hcmp

theorem Checked.shift2Discovery (h : Checked cfg s) : Checked cfg s.shift2Discovery := by
  refine ⟨h.initiator, h.names, h.targets, h.protos.imp (fun hl => ⟨hl.1, hl.2⟩) fun hp op p hop => ?_⟩
  by_cases hlogout : op = opLogoutCmd
  · subst hlogout
    obtain rfl := Option.some.inj ((register_protos_self ..).symm.trans hop)
    exact ⟨by decide, nofun⟩
  by_cases htext : op = opTextCmd
  · subst htext
    rw [LoginSession.shift2Discovery, register_protos_of_ne hlogout, register_protos_self] at hop
    obtain rfl := Option.some.inj hop
    exact ⟨by decide, nofun⟩
  rw [LoginSession.shift2Discovery, register_protos_of_ne hlogout, register_protos_of_ne htext] at hop
  exact hp op p hop

theorem Checked.shift (h : Checked cfg s) (hnormal : s.window.type = .normal → LoggedIn cfg s) :
    Ends NotInitiator (Checked cfg) (Checked cfg) s.shift := by
  unfold LoginSession.shift
  cases htype : s.window.type with
  | login => exact h
  | discovery => exact h.shift2Discovery
  | normal =>
    have hl := hnormal htype
    show Ends _ _ _ s.shift2Normal
    unfold shift2Normal
    split
    · next hnone =>
      obtain ⟨v, hv, -⟩ := hl.initiatorName
      exact absurd hnone (h.initiator (List.mem_map_of_mem hv))
    · next initiator hsome =>
      exact h.of_loggedIn hl (registerNormal_initiator s initiator.maxRecvDataSegmentLength)
        (registerNormal_accepted s initiator.maxRecvDataSegmentLength)

theorem checked_handleLogin {w : Target} {id fd poolnum : Nat} {addr : SessionTask → Nat}
    {req : LoginRequest}
    (h : Checked cfg (w.ses id)) (hproper : Proper cfg w (.pdu id fd (.login poolnum addr req))) :
    Ends NotInitiator (OwnLogin l (Checked cfg) id w) (OwnLogin l (Checked cfg) id w)
      (w.handleLogin cfg l id fd poolnum addr req) := by
  refine ends_handleLogin (P := fun t => req.stage = 3 → t.window.type = .normal → LoggedIn cfg t)
    (fun _ hp => hp) (fun _ _ => Checked.kept) h (fun pairs s hvalid hparse hk => ⟨h.kept hk, ?_⟩)
    fun s t hstage hs hp hst => ?_
  · have hkeys := hproper hvalid pairs hparse
    have hpairs := checked_handlePairs (parsePair_of_mem hparse) pairs s []
      (List.Subset.refl _) (h.kept hk)
      fun before key v after heq hmem => ?_
    · refine hpairs.mono (fun _ h => h) fun p ⟨hc, hall⟩ => ⟨hc, fun hstage htype => ?_⟩
      refine hc.loggedIn hkeys (hk.accepted ▸ hall.accepted) hall.keys hstage ?_
      rw [← hk.type_eq, ← hall.window, htype]
    · have hgive := hkeys.order before key v after heq hmem
      rw [hk.accepted]
      exact hgive.imp (fun ⟨v, hv, _⟩ => List.mem_map_of_mem hv) fun hb => hb.1
  · refine (hs.kept hst).shift fun htype => ?_
    exact (hp hstage (hst.type_eq ▸ htype)).mono (hst.accepted ▸ List.Subset.refl _)

theorem Checked.new (fd : Nat) : Checked cfg (.new cfg.nums cfg.flags fd) := by
  refine ⟨fun h => absurd h List.not_mem_nil, fun _ h => absurd h List.not_mem_nil,
    fun _ h => absurd h List.not_mem_nil, .inr fun op h hop => ?_⟩
  obtain ⟨rfl, rfl⟩ := new_protos hop
  exact ⟨by decide, nofun⟩

theorem checked_act {w : Target} {e : TargetEvent} (h : ∀ id, Checked cfg (w.ses id))
    (hproper : Proper cfg w e)
    (id : Nat) : Ends NotInitiator (Next (Checked cfg) id w) (Next (Checked cfg) id w)
      (w.act cfg l e) := by
  refine ends_act (fun _ hp => hp) (fun _ _ => Checked.kept) (h id) (fun fd _ _ => Checked.new fd)
    (fun j op read write hproto => .inl ?_) fun j fd poolnum addr req he _ => ?_
  · rcases (h j).protos with hl | hp
    · obtain ⟨v, hv, -⟩ := hl.initiatorName
      exact (h j).initiator (List.mem_map_of_mem hv)
    · exact absurd rfl ((hp op _ hproto).2 read write)
  · subst he
    have hown : ∀ w', OwnLogin l (Checked cfg) j w w' → Next (Checked cfg) id w w' := fun w' hw => by
      refine ⟨?_, hw.accepted.ge⟩
      by_cases hid : id = j
      · exact hid ▸ hw.own
      · exact (h id).kept (hw.others id hid)
    exact (checked_handleLogin (h j) hproper).mono hown hown

theorem checked_of_reachable {w : Target} (h : Reachable start (step cfg l) (Proper cfg) w) :
    ∀ id, Checked cfg (w.ses id) := by
  refine h.invariant (fun w => ∀ id, Checked cfg (w.ses id)) (fun id => ?_)
    fun w e w' hw hok hstep id => ?_
  · exact ⟨fun h => absurd h List.not_mem_nil, fun _ h => absurd h List.not_mem_nil,
      fun _ h => absurd h List.not_mem_nil, .inr fun _ _ h => absurd h (Option.some_ne_none _).symm⟩
  · have hact := checked_act (l := l) hw hok id
    rw [act_of_step hstep] at hact
    exact hact.1

/-- A session has the handlers of SCSI commands only after both names were accepted,
and no initiator is used that is not there. -/
theorem login_required {w : Target} (h : Reachable start (step cfg l) (Proper cfg) w) :
    (∀ id, (w.ses id).protos opScsiCmd ≠ none → LoggedIn cfg (w.ses id)) ∧
      ∀ e, Proper cfg w e → w.act cfg l e ≠ .error (.null .initiator) := by
  have hw := checked_of_reachable h
  refine ⟨fun id hne => ?_, fun e he hnull => ?_⟩
  · obtain ⟨p, hp⟩ := Option.ne_none_iff_exists'.mp hne
    exact (hw id).protos.resolve_right fun hn => absurd rfl (hn _ p hp).1
  · have hact := checked_act (l := l) hw he 0
    rw [hnull] at hact
    exact hact rfl

/-- A configuration with one initiator, which has no volumes. -/
def oneInitiator : Config where
  nums _ := 65536
  flags _ := true
  initiators := [("iqn.client", some [])]
  globalTargetName := "iqn.target"
  digest _ := "None"
  lexicalCast _ str := str.toNat?

/-- The first connection, and its first Login request, for the full feature phase. -/
def firstLogin (data : List String) : TargetEvent :=
  .pdu 0 5 (.login 0 (fun _ => 0) { flags := 0x87, sid := 7, cid := 1, data })

theorem reachable_accept {cfg : Config} {ok : Target → TargetEvent → Prop} (h : ok start (.accept 5)) :
    Reachable start (step cfg ⟨0, 0⟩) ok (start.accept cfg 5) :=
  .step .start h (step_accept (by decide))

/-- A login with both names. -/
theorem login_required_both : ∃ w, step oneInitiator ⟨0, 0⟩ (start.accept oneInitiator 5)
    (firstLogin ["SessionType=Normal", "InitiatorName=iqn.client", "TargetName=IQN.target"]) = some w ∧
      (w.ses 0).protos opScsiCmd ≠ none ∧ LoggedIn oneInitiator (w.ses 0) := by
  have hstep : ((step oneInitiator ⟨0, 0⟩ (start.accept oneInitiator 5)
    (firstLogin ["SessionType=Normal",
      "InitiatorName=iqn.client", "TargetName=IQN.target"])).map fun w =>
        ((w.ses 0).protos opScsiCmd).isSome) = some true := by
    decide +kernel
  have hparse : (parsePairs oneInitiator ["SessionType=Normal", "InitiatorName=iqn.client",
      "TargetName=IQN.target"]).toOption = some [("SessionType", "Normal"), ("InitiatorName",
        "iqn.client"),
        ("TargetName", "IQN.target")] := by
    decide +kernel
  obtain ⟨w, hw, hsome⟩ := Option.map_eq_some_iff.mp hstep
  have hne : (w.ses 0).protos opScsiCmd ≠ none := Option.isSome_iff_ne_none.mp hsome
  refine ⟨w, hw, hne, (login_required (.step (reachable_accept trivial) ?_ hw)).1 0 hne⟩
  intro _ pairs hpairs
  rw [hpairs] at hparse
  obtain rfl := Option.some.inj hparse
  refine ⟨fun before key v after heq hmem => ?_, fun _ _ =>
    ⟨.inr ⟨by decide +kernel, trivial⟩, .inr ⟨by decide +kernel, by decide +kernel⟩⟩⟩
  have hkey : key ∈ ["SessionType", "InitiatorName", "TargetName"] := by
    have hmap : key ∈ (before ++ (key, v) :: after).map Prod.fst :=
      List.mem_map_of_mem (List.mem_append_right _ List.mem_cons_self)
    rw [← heq] at hmap
    exact hmap
  exact absurd hmem ((by decide +kernel : ∀ k ∈ ["SessionType", "InitiatorName", "TargetName"],
    k ∉ initiatorKeys) key hkey)

/-- A login without a TargetName ends in the full feature phase, and one with an
alias instead of the name uses the null pointer. -/
theorem not_login_required :
    (¬ ∀ w, Reachable start (step oneInitiator ⟨0, 0⟩) (fun _ _ => True) w →
      ∀ id, (w.ses id).protos opScsiCmd ≠ none → LoggedIn oneInitiator (w.ses id)) ∧
    ¬ ∀ w, Reachable start (step oneInitiator ⟨0, 0⟩) (fun _ _ => True) w →
      ∀ e, w.act oneInitiator ⟨0, 0⟩ e ≠ .error (.null .initiator) := by
  refine ⟨fun h => ?_, fun h => ?_⟩
  · have hstep : ((step oneInitiator ⟨0, 0⟩ (start.accept oneInitiator 5)
      (firstLogin ["SessionType=Normal",
        "InitiatorName=iqn.client"])).map fun w => (((w.ses 0).protos opScsiCmd).isSome,
          ((w.ses 0).accepted.map Prod.fst).contains "TargetName")) = some (true, false) := by
      decide +kernel
    obtain ⟨w, hw, hvals⟩ := Option.map_eq_some_iff.mp hstep
    obtain ⟨hsome, hnot⟩ := Prod.mk.inj hvals
    obtain ⟨v, hv, -⟩ := (h w (.step (reachable_accept trivial) trivial hw) 0
      (Option.isSome_iff_ne_none.mp hsome)).targetName
    rw [List.contains_eq_mem, decide_eq_false_iff_not] at hnot
    exact hnot (List.mem_map_of_mem hv)
  · have hnull : ((start.accept oneInitiator 5).act oneInitiator ⟨0, 0⟩
      (firstLogin ["SessionType=Normal",
        "InitiatorAlias=client"])).nullOf = some .initiator := by
      decide +kernel
    exact h _ (reachable_accept trivial) _ (eq_of_nullOf hnull)

end Sstoraged
