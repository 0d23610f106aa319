import Sstoraged.LoginRequired

namespace Sstoraged

open Outcome Runs LoginSession Target

/-- The session is in the full feature phase. -/
def FullFeature (s : LoginSession) : Prop := s.protos opLogoutCmd ≠ none

/-- What was decided at login still holds. -/
structure Fixed (l : LinearLimitter) (s t : LoginSession) : Prop where
  initiator : t.initiator = s.initiator
  type : t.window.type = s.window.type
  protos : t.protos = s.protos
  window : CommandWindow.Stepped l s.window t.window

/-- The condition: later Login requests of the session have no key that concerns the
initiator, and in a Normal session none asks for the full feature phase. -/
def Settled (cfg : Config) (id : Nat) (w : Target) : TargetEvent → Prop
  | .pdu j _ (.login _ _ req) =>
    j = id → req.valid = true → ∀ pairs, parsePairs cfg req.data = .ok pairs →
      (∀ key ∈ pairs.map Prod.fst, key ≠ "InitiatorName" ∧ key ∉ initiatorKeys) ∧
        (req.stage = 3 → (w.ses id).window.type ≠ .normal)
  | _ => True

/-- The handlers of a session in each phase. -/
structure Phase (s : LoginSession) : Prop where
  login : s.window.type = .login → s.protos opLogoutCmd = none
  discovery : s.window.type = .discovery → s.protos opLogoutCmd = none ∨
    s.shift2Discovery.protos = s.protos

variable {cfg : Config} {l : LinearLimitter} {s t : LoginSession} {w w' : Target} {id : Nat}

theorem shift2Discovery_protos (h : t.protos = s.protos) :
    t.shift2Discovery.protos = s.shift2Discovery.protos := by
  unfold LoginSession.shift2Discovery register
  rw [h]

theorem shift2Discovery_twice : s.shift2Discovery.shift2Discovery.protos = s.shift2Discovery.protos := by
  funext op
  by_cases hlogout : op = opLogoutCmd
  · subst hlogout
    exact (register_protos_self ..).trans (register_protos_self ..).symm
  by_cases htext : op = opTextCmd
  · subst htext
    exact ((register_protos_of_ne hlogout).trans (register_protos_self ..)).trans
      ((register_protos_of_ne hlogout).trans (register_protos_self ..)).symm
  · exact (register_protos_of_ne hlogout).trans (register_protos_of_ne htext)

theorem Phase.kept {type : SessionType} (h : Phase s) (hk : Kept l type s t)
    (htype : type = s.window.type ∨ s.window.type = .login) : Phase t := by
  refine ⟨fun ht => ?_, fun ht => ?_⟩
  · rw [hk.protos]
    rw [hk.type_eq] at ht
    exact h.login (htype.elim (fun he => he ▸ ht) id)
  · rw [hk.protos, shift2Discovery_protos hk.protos]
    rw [hk.type_eq] at ht
    exact htype.elim (fun he => h.discovery (he ▸ ht)) fun hl => .inl (h.login hl)

theorem Phase.of_eq (h : Phase s) (hw : t.window = s.window) (hp : t.protos = s.protos) : Phase t := by
  refine ⟨?_, ?_⟩
  · rw [hw, hp]
    exact h.login
  · rw [hw, shift2Discovery_protos hp, hp]
    exact h.discovery

theorem firstType_eq_or {pairs : List (String × String)} :
    firstType s pairs = s.window.type ∨ s.window.type = .login := by
  unfold firstType
  split
  · next h => exact .inr h
  · exact .inl rfl

theorem Phase.shift (h : Phase t) : Ends (fun _ => True) Phase Phase t.shift := by
  unfold LoginSession.shift
  cases htype : t.window.type with
  | login => exact h
  | discovery =>
    have hne : t.shift2Discovery.window.type ≠ .login := fun hl => nomatch htype.symm.trans hl
    exact ⟨fun hl => absurd hl hne, fun _ => .inr shift2Discovery_twice⟩
  | normal =>
    show Ends _ _ _ t.shift2Normal
    unfold LoginSession.shift2Normal
    split
    · exact trivial
    · have hnl : SessionType.normal ≠ .login := nofun
      have hnd : SessionType.normal ≠ .discovery := nofun
      exact ⟨fun hl => absurd (htype.symm.trans hl) hnl, fun hd => absurd (htype.symm.trans hd) hnd⟩

theorem next_of_own {Q : LoginSession → Prop} {j : Nat} (hQ : ∀ s t, Q s → Untouched l s t → Q t)
    (h : Q (w.ses id)) (hw : OwnLogin l (fun t => j = id → Q t) j w w') : Next Q id w w' := by
  refine ⟨?_, hw.accepted.ge⟩
  by_cases hid : j = id
  · exact hid ▸ hw.own hid
  · exact hQ _ _ h (hw.others id (Ne.symm hid))

theorem phase_act {e : TargetEvent} (h : ∀ id, Phase (w.ses id)) (id : Nat) :
    Ends (fun _ => True) (Next Phase id w) (Next Phase id w) (w.act cfg l e) := by
  have hkept : ∀ s t, Phase s → Untouched l s t → Phase t := fun s t h hk => h.kept hk (.inl rfl)
  refine ends_act (fun _ _ => trivial) hkept (h id) (fun fd _ _ => ⟨fun _ => rfl, fun _ => .inl rfl⟩)
    (fun _ _ _ _ _ => .inr trivial) fun j fd poolnum addr req _ _ => ?_
  have hlogin : Ends (fun _ => True) (OwnLogin l Phase j w) (OwnLogin l Phase j w)
      (w.handleLogin cfg l j fd poolnum addr req) := by
    refine ends_handleLogin (P := fun _ => True) (fun _ _ => trivial) hkept (h j)
      (fun pairs s _ _ hk => ?_) fun s t _ hs _ hst => (hkept s t hs hst).shift
    have hs : Phase s := (h j).kept hk firstType_eq_or
    exact ⟨hs, ((ends_handlePairs pairs s []).mono (fun t ht => hs.of_eq ht.window ht.protos)
      fun p hp => ⟨hs.of_eq hp.window hp.protos, trivial⟩).mono_null fun _ _ => trivial⟩
  have hnext : ∀ w', OwnLogin l Phase j w w' → Next Phase id w w' := fun w' hw =>
    next_of_own hkept (h id) ⟨fun _ => hw.own, hw.others, hw.accepted⟩
  exact hlogin.mono hnext hnext

variable {ok : Target → TargetEvent → Prop}

theorem phase_of_reachable (h : Reachable start (step cfg l) ok w) : ∀ id, Phase (w.ses id) := by
  refine h.invariant (fun w => ∀ id, Phase (w.ses id)) (fun id => ⟨fun _ => rfl, fun _ => .inl rfl⟩)
    fun w e w' hw _ hstep id => ?_
  have hact : Ends (fun _ => True) (Next Phase id w) (Next Phase id w) (w.act cfg l e) := phase_act hw id
  rw [act_of_step hstep] at hact
  exact hact.1

theorem ends_ownLogin {j fd poolnum : Nat} {addr : SessionTask → Nat} {req : LoginRequest} :
    Ends (fun _ => True) (OwnLogin l (fun _ => True) j w) (OwnLogin l (fun _ => True) j w)
      (w.handleLogin cfg l j fd poolnum addr req) :=
  ends_handleLogin (P := fun _ => True) (fun _ _ => trivial) (fun _ _ _ _ => trivial) trivial
    (fun _ _ _ _ _ => ⟨trivial, (ends_trivial _).mono (fun _ h => h) fun _ h => ⟨h, h⟩⟩)
    fun _ _ _ _ _ _ => ends_trivial _

theorem accepted_le {e : TargetEvent} (h : step cfg l w e = some w') : w.accepted ≤ w'.accepted := by
  have hact : Ends (fun _ => True) (Next (fun _ => True) 0 w) (Next (fun _ => True) 0 w)
    (w.act cfg l e) :=
    ends_act (fun _ _ => trivial) (fun _ _ _ _ => trivial) trivial (fun _ _ _ => trivial)
      (fun _ _ _ _ _ => .inr trivial) fun _ _ _ _ _ _ _ => ends_ownLogin.mono
        (fun _ hw => ⟨trivial, hw.accepted.ge⟩) fun _ hw => ⟨trivial, hw.accepted.ge⟩
  rw [act_of_step h] at hact
  exact hact.2

theorem protos_of_reachable (h : Reachable start (step cfg l) ok w) :
    ∀ id, w.accepted ≤ id → ∀ op, (w.ses id).protos op = none := by
  refine h.invariant (fun w => ∀ id, w.accepted ≤ id → ∀ op, (w.ses id).protos op = none)
    (fun _ _ _ => rfl)
    fun w e w' hw _ hstep id hle => ?_
  let Q : LoginSession → Prop := fun s => (∀ op, s.protos op = none) ∨ ∃ fd, e = .accept fd ∧
    id = w.accepted
  have hnone := hw id ((accepted_le hstep).trans hle)
  have hQ : ∀ s t, Q s → Untouched l s t → Q t := fun s t hs hk =>
    hs.imp_left fun hp op => by rw [hk.protos, hp op]
  have hact : Ends (fun _ => True) (Next Q id w) (Next Q id w) (w.act cfg l e) := by
    refine ends_act (fun _ _ => trivial) hQ (.inl hnone) (fun fd he hid => .inr ⟨fd, he, hid⟩)
      (fun _ _ _ _ _ => .inr trivial) fun j fd poolnum addr req _ hlogin => ?_
    have hnext : ∀ w', OwnLogin l (fun _ => True) j w w' → Next Q id w w' := fun w' hw =>
      next_of_own hQ (.inl hnone) ⟨fun hj => absurd (hnone _) (hj ▸ hlogin), hw.others, hw.accepted⟩
    exact ends_ownLogin.mono hnext hnext
  rw [act_of_step hstep] at hact
  rcases hact.1 with hp | ⟨fd, rfl, rfl⟩
  · exact hp
  · have hok := act_of_step hstep
    rw [act] at hok
    split at hok
    · obtain rfl := Except.ok.inj hok
      rw [accept_accepted] at hle
      exact absurd hle (Nat.not_succ_le_self _)
    · cases hok

theorem fixed_refl (s : LoginSession) : Fixed l s s := ⟨rfl, rfl, rfl, .refl⟩

theorem Fixed.kept {u : LoginSession} (h : Fixed l s t) (hk : Untouched l t u) : Fixed l s u :=
  ⟨hk.initiator.trans h.initiator, hk.type_eq.trans h.type, hk.protos.trans h.protos,
    h.window.trans hk.window⟩

/-- A session in the full feature phase is a Discovery session with its own handlers, or
a Normal session. -/
theorem Phase.full (h : Phase s) (hfull : FullFeature s) :
    s.window.type = .discovery ∧ s.shift2Discovery.protos = s.protos ∨ s.window.type = .normal := by
  cases htype : s.window.type with
  | login => exact absurd (h.login htype) hfull
  | discovery => exact .inl ⟨rfl, (h.discovery htype).resolve_left hfull⟩
  | normal => exact .inr rfl

theorem fixed_handleLogin {s₀ : LoginSession} {fd poolnum : Nat} {addr : SessionTask → Nat}
    {req : LoginRequest}
    (hphase : Phase s₀) (hfull : FullFeature s₀) (h : Fixed l s₀ (w.ses id))
    (hsettled : Settled cfg id w (.pdu id fd (.login poolnum addr req))) :
    Ends (fun _ => True) (OwnLogin l (Fixed l s₀) id w) (OwnLogin l (Fixed l s₀) id w)
      (w.handleLogin cfg l id fd poolnum addr req) := by
  have hne : s₀.window.type ≠ .login := by
    rcases hphase.full hfull with ⟨hd, -⟩ | hn
    · rw [hd]
      nofun
    · rw [hn]
      nofun
  refine ends_handleLogin (P := fun _ => req.stage = 3 → s₀.window.type ≠ .normal) (fun _ _ => trivial)
    (fun _ _ => Fixed.kept) h (fun pairs s hvalid hparse hk => ?_) fun s t hstage hs hp hst => ?_
  · obtain ⟨hkeys, hstage⟩ := hsettled rfl hvalid pairs hparse
    have htype : firstType (w.ses id) pairs = (w.ses id).window.type :=
      if_neg (h.type ▸ hne)
    rw [htype] at hk
    have hs := h.kept hk
    have hneg : ∀ t, Negotiating pairs s t → Fixed l s₀ t := fun t ht =>
      ⟨(ht.initiator hkeys).trans hs.initiator, ht.window ▸ hs.type, ht.protos.trans hs.protos,
        ht.window ▸ hs.window⟩
    exact ⟨hs, ((ends_handlePairs pairs s []).mono hneg fun p hp =>
      ⟨hneg _ hp, fun h3 => h.type ▸ hstage h3⟩).mono_null fun _ _ => trivial⟩
  · have ht := hs.kept hst
    obtain ⟨hd, hprotos⟩ := (hphase.full hfull).resolve_right (hp hstage)
    have hshift : t.shift = .ok t.shift2Discovery := by
      unfold LoginSession.shift
      rw [ht.type, hd]
    rw [hshift]
    exact ⟨ht.initiator, ht.type, (shift2Discovery_protos ht.protos).trans hprotos, ht.window⟩

theorem fixed_act {s₀ : LoginSession} {e : TargetEvent} (hphase : Phase s₀) (hfull : FullFeature s₀)
    (h : Fixed l s₀ (w.ses id)) (hlt : id < w.accepted) (hsettled : Settled cfg id w e) :
    Ends (fun _ => True) (Next (Fixed l s₀) id w) (Next (Fixed l s₀) id w) (w.act cfg l e) := by
  have hQ : ∀ s t, Fixed l s₀ s → Untouched l s t → Fixed l s₀ t := fun _ _ => Fixed.kept
  refine ends_act (fun _ _ => trivial) hQ h (fun _ _ hid => absurd hid (Nat.ne_of_lt hlt))
    (fun _ _ _ _ _ => .inr trivial) fun j fd poolnum addr req he _ => ?_
  subst he
  by_cases hj : j = id
  · subst hj
    have hnext : ∀ w', OwnLogin l (Fixed l s₀) j w w' → Next (Fixed l s₀) j w w' := fun w' hw =>
      ⟨hw.own, hw.accepted.ge⟩
    exact (fixed_handleLogin hphase hfull h hsettled).mono hnext hnext
  · have hnext : ∀ w', OwnLogin l (fun _ => True) j w w' → Next (Fixed l s₀) id w w' := fun w' hw =>
      next_of_own hQ h ⟨fun hid => absurd hid hj, hw.others, hw.accepted⟩
    exact ends_ownLogin.mono hnext hnext

/-- From a session in the full feature phase on, nothing that was decided at login
changes. -/
theorem fixed_of_reachable {w₀ : Target} (h₀ : Reachable start (step cfg l) (fun _ _ => True) w₀)
    (hfull : FullFeature (w₀.ses id)) (h : Reachable w₀ (step cfg l) (Settled cfg id) w) :
    Fixed l (w₀.ses id) (w.ses id) := by
  have hlt : id < w₀.accepted := Nat.lt_of_not_le fun hle => hfull (protos_of_reachable h₀ id hle _)
  have hphase := phase_of_reachable h₀ id
  refine (h.invariant (fun w => Fixed l (w₀.ses id) (w.ses id) ∧ id < w.accepted)
    ⟨fixed_refl _, hlt⟩ fun w e w' hw hok hstep => ?_).1
  have hact := fixed_act hphase hfull hw.1 hw.2 hok
  rw [act_of_step hstep] at hact
  exact ⟨hact.1, Nat.lt_of_lt_of_le hw.2 hact.2⟩

/-- A later Login request of the same connection, with the stages in its flags. -/
def laterLogin (flags : UInt8) (data : List String) : TargetEvent :=
  .pdu 0 5 (.login 0 (fun _ => 0) { flags, sid := 7, cid := 1, data })

/-- A session that logs in and negotiates again what does not concern the initiator. -/
theorem fixed_second_login : ∃ w₀ w, step oneInitiator ⟨0, 0⟩ (start.accept oneInitiator 5)
    (firstLogin ["SessionType=Normal", "InitiatorName=iqn.client"]) = some w₀ ∧
      step oneInitiator ⟨0, 0⟩ w₀ (laterLogin 0x81 ["HeaderDigest=None"]) = some w ∧
        FullFeature (w₀.ses 0) ∧ Fixed ⟨0, 0⟩ (w₀.ses 0) (w.ses 0) := by
  have hsteps : ((step oneInitiator ⟨0, 0⟩ (start.accept oneInitiator 5)
    (firstLogin ["SessionType=Normal",
      "InitiatorName=iqn.client"])).bind fun w₀ => (step oneInitiator ⟨0, 0⟩ w₀
        (laterLogin 0x81 ["HeaderDigest=None"])).map fun _ => ((w₀.ses 0).protos opLogoutCmd).isSome) =
          some true := by
    decide +kernel
  have hparse : (parsePairs oneInitiator ["HeaderDigest=None"]).toOption =
      some [("HeaderDigest", "None")] := by
    decide +kernel
  obtain ⟨w₀, hw₀, hmap⟩ := Option.bind_eq_some_iff.mp hsteps
  obtain ⟨w, hw, hsome⟩ := Option.map_eq_some_iff.mp hmap
  have hfull : FullFeature (w₀.ses 0) := Option.isSome_iff_ne_none.mp hsome
  refine ⟨w₀, w, hw₀, hw, hfull, fixed_of_reachable
    (.step (reachable_accept trivial) trivial hw₀) hfull (.step .start ?_ hw)⟩
  intro _ _ pairs hpairs
  rw [hpairs] at hparse
  obtain rfl := Option.some.inj hparse
  exact ⟨by decide +kernel, fun h => absurd h (by decide)⟩

/-- Of two initiators the second takes the session over after the first has logged in. -/
theorem not_fixed_other_name : ¬ ∀ cfg w₀ w, Reachable start (step cfg ⟨0, 0⟩) (fun _ _ => True) w₀ →
    FullFeature (w₀.ses 0) → Reachable w₀ (step cfg ⟨0, 0⟩) (fun _ _ => True) w →
      Fixed ⟨0, 0⟩ (w₀.ses 0) (w.ses 0) := by
  intro h
  let cfg : Config :=
    { oneInitiator with initiators := [("iqn.client", some []), ("iqn.other", some [])] }
  have hsteps : ((step cfg ⟨0, 0⟩ (start.accept cfg 5) (firstLogin ["SessionType=Normal",
      "InitiatorName=iqn.client"])).bind fun w₀ => (step cfg ⟨0, 0⟩ w₀
        (laterLogin 0x81 ["InitiatorName=iqn.other"])).map fun w =>
          (((w₀.ses 0).protos opLogoutCmd).isSome,
          (w₀.ses 0).initiator.map ISCSIInitiator.name, (w.ses 0).initiator.map ISCSIInitiator.name)) =
            some (true, some "iqn.client", some "iqn.other") := by
    decide +kernel
  obtain ⟨w₀, hw₀, hmap⟩ := Option.bind_eq_some_iff.mp hsteps
  obtain ⟨w, hw, hvals⟩ := Option.map_eq_some_iff.mp hmap
  obtain ⟨hsome, hnames⟩ := Prod.mk.inj hvals
  obtain ⟨hfirst, hsecond⟩ := Prod.mk.inj hnames
  have hfixed := h cfg w₀ w (.step (reachable_accept trivial) trivial hw₀)
    (Option.isSome_iff_ne_none.mp hsome) (.step .start trivial hw)
  rw [hfixed.initiator, hfirst] at hsecond
  exact absurd hsecond (by decide)

end Sstoraged
