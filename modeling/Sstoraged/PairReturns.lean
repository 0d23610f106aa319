import Sstoraged.KeySteps
import Sstoraged.LoginSteps
import Sstoraged.Negotiation
import Sstoraged.PairSegment
import Sstoraged.Text

namespace Sstoraged.PairReturns

open Outcome PairHandler

variable {cfg : Config} {type : SessionType} {pairs : List (String × String)} {key value : String}

section parse

/-- The value of a key that stands for a number is one. -/
def Convertible (cfg : Config) (p : String × String) : Prop :=
  ∀ min max, pairValidators.lookup p.1 = some (.rangeCast min max) →
    (cfg.lexicalCast 64 p.2).isSome = true

/-- Each text is one whose check returns, as long as those before it are accepted. -/
def Parsable (cfg : Config) (data : List String) : Prop :=
  ∀ before str behind, data = before ++ str :: behind →
    (∀ q ∈ before, parsePair cfg (getKeyValuePair q) = some true) → Convertible cfg (getKeyValuePair str)

theorem parsePair_isSome_iff (p : String × String) : (parsePair cfg p).isSome = true ↔
    Convertible cfg p := by
  rw [parsePair]
  unfold Convertible
  cases pairValidators.lookup p.1 with
  | none => exact ⟨fun _ _ _ h => (nomatch h), fun _ => rfl⟩
  | some v =>
    cases v with
    | rangeCast min max =>
      dsimp only [PairValidator.valid]
      rw [Option.isSome_map]
      exact ⟨fun h _ _ _ => h, fun h => h min max rfl⟩
    | _ => exact ⟨fun _ _ _ h => (nomatch h), fun _ => rfl⟩

theorem parsable_cons {str : String} {data : List String} : Parsable cfg (str :: data) ↔
    Convertible cfg (getKeyValuePair str) ∧
      (parsePair cfg (getKeyValuePair str) = some true → Parsable cfg data) := by
  refine ⟨fun h => ⟨h [] str data rfl nofun, fun htrue before str' behind heq hbefore => ?_⟩,
    fun h => ?_⟩
  · exact h (str :: before) str' behind (congrArg _ heq) (List.forall_mem_cons.mpr ⟨htrue, hbefore⟩)
  · rintro (_ | ⟨q, before⟩) str' behind heq hbefore
    · obtain ⟨rfl, -⟩ := List.cons.inj heq
      exact h.1
    · obtain ⟨rfl, rfl⟩ := List.cons.inj heq
      obtain ⟨htrue, hbefore⟩ := List.forall_mem_cons.mp hbefore
      exact h.2 htrue before str' behind rfl hbefore

theorem parsePairs_returns_iff (data : List String) : (parsePairs cfg data).Returns ↔
    Parsable cfg data := by
  induction data with
  | nil => exact ⟨fun _ before str behind heq => absurd heq (by simp), fun _ => trivial⟩
  | cons str data ih =>
    rw [parsable_cons, parsePairs, returns_bind, returns_ofOption, parsePair_isSome_iff]
    refine and_congr_right fun hconv => ?_
    obtain ⟨b, hb⟩ := Option.isSome_iff_exists.mp ((parsePair_isSome_iff _).mpr hconv)
    rw [hb]
    cases b with
    | false => exact ⟨nofun, fun _ a ha => Except.ok.inj ha ▸ trivial⟩
    | true =>
      rw [← ih]
      refine ⟨fun h _ => (returns_bind.mp (h true rfl)).1, fun h a ha => ?_⟩
      obtain rfl := Except.ok.inj ha
      exact returns_bind.mpr ⟨h rfl, fun _ _ => trivial⟩

theorem parsePairs_ok_iff (data : List String) : parsePairs cfg data = .ok pairs ↔
    pairs = data.map getKeyValuePair ∧ ∀ p ∈ pairs, parsePair cfg p = some true := by
  refine ⟨fun h => ⟨?_, parsePair_of_mem h⟩, ?_⟩
  · induction data generalizing pairs with
    | nil => exact (Except.ok.inj h).symm
    | cons str data ih =>
      obtain ⟨b, -, h⟩ := of_bind_ok h
      cases b with
      | false => exact absurd h nofun
      | true =>
        obtain ⟨rest, hrest, h⟩ := of_bind_ok h
        rw [← Except.ok.inj h, ih hrest]
        rfl
  · rintro ⟨rfl, hall⟩
    induction data with
    | nil => rfl
    | cons str data ih =>
      obtain ⟨htrue, hall⟩ := List.forall_mem_cons.mp hall
      rw [parsePairs, htrue, ih hall]
      rfl

end parse

section handlers

variable {s t : LoginSession} {reply reply' : List (String × String)} {h : PairHandler}

/-- A key handler returns: numbers are numbers of 32 bits, and the initiator is known where
it is used. -/
def HandlerSafe (cfg : Config) (type : SessionType) (known : Prop) (value : String) : PairHandler → Prop
  | .initiatorAlias => known
  | .authMethod => find value "CHAP" = true ∨ find value "None" = true → known
  | .maxRecvDataSegmentLength => (cfg.lexicalCast 32 value).isSome = true ∧ known
  | .negotiateMax _ | .negotiateMin _ => (cfg.lexicalCast 32 value).isSome = true
  | .normalMin _ => type = .normal → (cfg.lexicalCast 32 value).isSome = true
  | _ => True

/-- A key handler returns true, if it returns. -/
def HandlerPasses (cfg : Config) (type : SessionType) (value : String) : PairHandler → Prop
  | .initiatorName => ∃ lvs, cfg.initiators.lookup value = some (some lvs)
  | .normalMin _ | .normalOr _ | .normalAnd _ => type = .normal
  | _ => True

theorem getInitiator_returns : (getInitiator s).Returns ↔ s.initiator ≠ none := by
  unfold getInitiator
  cases s.initiator with
  | none => exact ⟨False.elim, fun h => h rfl⟩
  | some i => exact ⟨fun _ => Option.some_ne_none i, fun _ => trivial⟩

theorem negotiateNum_returns {f : Nat → Nat → Nat} {attr : String} :
    (negotiateNum cfg f attr value s reply).Returns ↔ (cfg.lexicalCast 32 value).isSome = true := by
  rw [negotiateNum, returns_bind, returns_ofOption]
  exact and_iff_left fun _ _ => trivial

theorem handle_returns_iff (h : PairHandler) : (h.handle cfg value s reply).Returns ↔
    HandlerSafe cfg s.window.type (s.initiator ≠ none) value h := by
  cases h with
  | initiatorName =>
    rw [PairHandler.handle]
    split <;> exact Iff.rfl
  | initiatorAlias =>
    rw [PairHandler.handle]
    rw [returns_bind, getInitiator_returns]
    exact and_iff_left fun _ _ => trivial
  | authMethod =>
    rw [PairHandler.handle]
    split
    · rename_i hmethod
      rw [returns_bind, getInitiator_returns]
      exact ⟨fun hs _ => hs.1, fun hs => ⟨hs hmethod, fun _ _ => trivial⟩⟩
    · rename_i hmethod
      exact ⟨fun _ hm => absurd hm hmethod, fun _ => trivial⟩
  | maxRecvDataSegmentLength =>
    rw [PairHandler.handle]
    rw [returns_bind, returns_ofOption]
    refine and_congr_right fun hsome => ?_
    obtain ⟨n, hn⟩ := Option.isSome_iff_exists.mp hsome
    rw [hn]
    refine ⟨fun hall => getInitiator_returns.mp (returns_bind.mp (hall n rfl)).1, fun hs _ _ => ?_⟩
    exact returns_bind.mpr ⟨getInitiator_returns.mpr hs, fun _ _ => trivial⟩
  | negotiateMax | negotiateMin => exact negotiateNum_returns
  | normalMin =>
    rw [PairHandler.handle, normalOnly]
    split
    · rename_i hnormal
      exact negotiateNum_returns.trans ⟨fun hs _ => hs, fun hs => hs hnormal⟩
    · rename_i hnormal
      exact ⟨fun _ hn => absurd hn hnormal, fun _ => trivial⟩
  | normalOr | normalAnd =>
    rw [PairHandler.handle, normalOnly]
    split <;> exact Iff.rfl
  | nothingTodo | targetAlias | digest | negotiateAnd => exact Iff.rfl

theorem getInitiator_some (hs : s.initiator ≠ none) : ∃ i, getInitiator s = .ok i := by
  obtain ⟨i, hi⟩ := Option.ne_none_iff_exists'.mp hs
  exact ⟨i, by rw [getInitiator, hi]⟩

/-- A result of a key handler: the type is kept, and an initiator is known if it was, or if
there is a name for it now. -/
structure Result (named : Prop) (s t : LoginSession) : Prop where
  type : t.window = s.window
  known : t.initiator ≠ none ↔ s.initiator ≠ none ∨ named

theorem result_of_eq {named : Prop} (hn : ¬ named) (hw : t.window = s.window)
    (hi : t.initiator = s.initiator) :
    Result named s t :=
  ⟨hw, by rw [hi]; exact (or_iff_left hn).symm⟩

theorem result_of_some {named : Prop} (hw : t.window = s.window) (ht : t.initiator ≠ none)
    (hs : s.initiator ≠ none ∨ named) : Result named s t :=
  ⟨hw, ⟨fun _ => hs, fun _ => ht⟩⟩

theorem getInitiator_ok {i : ISCSIInitiator} (hi : getInitiator s = .ok i) : s.initiator ≠ none := by
  apply getInitiator_returns.mp
  rw [hi]
  trivial

theorem handle_result (h : PairHandler) (hok : h.handle cfg value s reply = .ok (t, reply')) :
    Result (h = .initiatorName) s t := by
  have hends : Negotiated h s t := by
    have hends := @ends_handle cfg value s reply h
    rwa [hok] at hends
  cases h with
  | initiatorName => exact result_of_some hends.window (hends.isSome (.inl rfl)) (.inr rfl)
  | initiatorAlias =>
    obtain ⟨i, hi, hok⟩ := of_bind_ok hok
    obtain ⟨rfl, -⟩ := Prod.mk.inj (Except.ok.inj hok)
    exact result_of_some rfl (Option.some_ne_none _) (.inl (getInitiator_ok hi))
  | authMethod =>
    rw [PairHandler.handle] at hok
    split at hok
    · obtain ⟨i, hi, hok⟩ := of_bind_ok hok
      obtain ⟨rfl, -⟩ := Prod.mk.inj (Except.ok.inj hok)
      exact result_of_some rfl (Option.some_ne_none _) (.inl (getInitiator_ok hi))
    · obtain ⟨rfl, -⟩ := Prod.mk.inj (Except.ok.inj hok)
      exact result_of_eq (by simp) rfl rfl
  | maxRecvDataSegmentLength =>
    obtain ⟨n, -, hok⟩ := of_bind_ok hok
    obtain ⟨i, hi, hok⟩ := of_bind_ok hok
    obtain ⟨rfl, -⟩ := Prod.mk.inj (Except.ok.inj hok)
    exact result_of_some rfl (Option.some_ne_none _) (.inl (getInitiator_ok hi))
  | _ => exact result_of_eq (by simp) hends.window (hends.initiator (by simp) rfl)

theorem negotiateNum_ok {f : Nat → Nat → Nat} {attr : String}
    (hn : (cfg.lexicalCast 32 value).isSome = true) :
    ∃ x, negotiateNum cfg f attr value s reply = .ok x := by
  obtain ⟨n, hn⟩ := Option.isSome_iff_exists.mp hn
  rw [negotiateNum, hn]
  exact ⟨_, rfl⟩

theorem normalOnly_ok_iff {r : Outcome Pointer LoginSession (LoginSession × Pairs)}
    (hr : s.window.type = .normal → ∃ x, r = .ok x) :
    (∃ x, normalOnly s r = .ok x) ↔ s.window.type = .normal := by
  rw [normalOnly]
  split
  · rename_i hnormal
    exact iff_of_true (hr hnormal) hnormal
  · rename_i hnormal
    exact iff_of_false (fun ⟨_, hx⟩ => nomatch hx) hnormal

theorem handle_ok_iff (h : PairHandler)
    (hsafe : HandlerSafe cfg s.window.type (s.initiator ≠ none) value h) :
    (∃ x, h.handle cfg value s reply = .ok x) ↔ HandlerPasses cfg s.window.type value h := by
  cases h with
  | initiatorName =>
    rw [PairHandler.handle]
    unfold HandlerPasses
    split
    · rename_i lvs hlookup
      exact iff_of_true ⟨_, rfl⟩ ⟨lvs, hlookup⟩
    · rename_i hlookup
      apply iff_of_false
      · rintro ⟨_, hx⟩
        cases hx
      · rintro ⟨lvs, hlvs⟩
        exact hlookup lvs hlvs
  | initiatorAlias =>
    obtain ⟨i, hi⟩ := getInitiator_some hsafe
    rw [PairHandler.handle, hi]
    exact iff_of_true ⟨_, rfl⟩ trivial
  | authMethod =>
    rw [PairHandler.handle]
    split
    · rename_i hmethod
      obtain ⟨i, hi⟩ := getInitiator_some (hsafe hmethod)
      rw [hi]
      exact iff_of_true ⟨_, rfl⟩ trivial
    · exact iff_of_true ⟨_, rfl⟩ trivial
  | maxRecvDataSegmentLength =>
    obtain ⟨n, hn⟩ := Option.isSome_iff_exists.mp hsafe.1
    obtain ⟨i, hi⟩ := getInitiator_some hsafe.2
    rw [PairHandler.handle, hn, hi]
    exact iff_of_true ⟨_, rfl⟩ trivial
  | negotiateMax | negotiateMin => exact iff_of_true (negotiateNum_ok hsafe) trivial
  | normalMin => exact normalOnly_ok_iff fun hnormal => negotiateNum_ok (hsafe hnormal)
  | normalOr | normalAnd => exact normalOnly_ok_iff fun _ => ⟨_, rfl⟩
  | nothingTodo | targetAlias | digest | negotiateAnd => exact iff_of_true ⟨_, rfl⟩ trivial

end handlers

section keys

variable {s t : LoginSession} {reply reply' : List (String × String)}

def KeySafe (cfg : Config) (type : SessionType) (known : Prop) (pairs : List (String × String))
    (key : String) :
    Prop := ∀ h, pairHandlers.lookup key = some h → HandlerSafe cfg type known (getPairValue pairs key) h

def KeyPasses (cfg : Config) (type : SessionType) (pairs : List (String × String))
    (key : String) : Prop :=
  ∀ h, pairHandlers.lookup key = some h → HandlerPasses cfg type (getPairValue pairs key) h

/-- Every key is safe, as long as those before it pass. -/
def KeysSafe (cfg : Config) (type : SessionType) (known : Prop)
    (pairs rest : List (String × String)) : Prop :=
  ∀ before p behind, rest = before ++ p :: behind → (∀ q ∈ before, KeyPasses cfg type pairs q.1) →
    KeySafe cfg type (known ∨ "InitiatorName" ∈ before.map Prod.fst) pairs p.1

theorem handlePair_returns_iff {h : PairHandler} (hl : pairHandlers.lookup key = some h) :
    (handlePair cfg pairs key s reply).Returns ↔ KeySafe cfg s.window.type
      (s.initiator ≠ none) pairs key := by
  rw [handlePair, hl]
  dsimp only
  rw [returns_bind, handle_returns_iff]
  refine ⟨fun hr h' hl' => ?_, fun hs => ⟨hs h hl, fun _ _ => trivial⟩⟩
  obtain rfl := Option.some.inj (hl.symm.trans hl')
  exact hr.1

theorem handlePair_ok_iff {h : PairHandler} (hl : pairHandlers.lookup key = some h)
    (hsafe : KeySafe cfg s.window.type (s.initiator ≠ none) pairs key) :
    (∃ x, handlePair cfg pairs key s reply = .ok x) ↔ KeyPasses cfg s.window.type pairs key := by
  rw [handlePair, hl]
  dsimp only
  refine ⟨fun ⟨x, hx⟩ h' hl' => ?_, fun hp => ?_⟩
  · obtain rfl := Option.some.inj (hl.symm.trans hl')
    obtain ⟨y, hy, -⟩ := of_bind_ok hx
    exact (handle_ok_iff h (hsafe h hl)).mp ⟨y, hy⟩
  · obtain ⟨y, hy⟩ := (handle_ok_iff h (hsafe h hl)).mpr (hp h hl)
    rw [hy]
    exact ⟨_, rfl⟩

theorem handlePair_result (hok : handlePair cfg pairs key s reply = .ok (t, reply')) :
    Result (key = "InitiatorName") s t := by
  rw [handlePair] at hok
  split at hok
  · cases hok
  rename_i h hl
  obtain ⟨⟨t', r⟩, ht', hok⟩ := of_bind_ok hok
  obtain ⟨rfl, -⟩ := Prod.mk.inj (Except.ok.inj hok)
  have hres := handle_result h ht'
  have hname : h = .initiatorName ↔ key = "InitiatorName" := by
    refine ⟨fun hh => eq_initiatorName (hh ▸ hl), ?_⟩
    rintro rfl
    exact Option.some.inj (hl.symm.trans lookup_initiatorName)
  exact ⟨hres.type, hres.known.trans (or_congr_right hname)⟩

theorem keysSafe_nil (known : Prop) : KeysSafe cfg type known pairs [] :=
  fun before p behind heq => absurd heq (by simp)

theorem keysSafe_cons {known : Prop} {p : String × String} {rest : List (String × String)} :
    KeysSafe cfg type known pairs (p :: rest) ↔ KeySafe cfg type known pairs p.1 ∧
      (KeyPasses cfg type pairs p.1 → KeysSafe cfg type (known ∨ p.1 = "InitiatorName") pairs rest) := by
  have hknown : ∀ before : List (String × String),
    (known ∨ "InitiatorName" ∈ (p :: before).map Prod.fst) =
      ((known ∨ p.1 = "InitiatorName") ∨ "InitiatorName" ∈ before.map Prod.fst) := by
    intro before
    rw [List.map_cons, List.mem_cons, @eq_comm _ "InitiatorName", or_assoc]
  refine ⟨fun h => ⟨?_, fun hp before q behind heq hbefore => ?_⟩, fun h => ?_⟩
  · have hfirst := h [] p rest rfl nofun
    simpa using hfirst
  · have hq := h (p :: before) q behind (congrArg _ heq) (List.forall_mem_cons.mpr ⟨hp, hbefore⟩)
    rwa [hknown] at hq
  · rintro (_ | ⟨q, before⟩) p' behind heq hbefore
    · obtain ⟨rfl, -⟩ := List.cons.inj heq
      simpa using h.1
    · obtain ⟨rfl, rfl⟩ := List.cons.inj heq
      obtain ⟨hp, hbefore⟩ := List.forall_mem_cons.mp hbefore
      rw [hknown]
      exact h.2 hp before p' behind rfl hbefore

theorem handlePairs_returns_iff {rest : List (String × String)}
    (hkeys : ∀ p ∈ rest, ∃ h, pairHandlers.lookup p.1 = some h) (s : LoginSession)
    (reply : List (String × String)) :
    (handlePairs cfg pairs rest s reply).Returns ↔
      KeysSafe cfg s.window.type (s.initiator ≠ none) pairs rest := by
  induction rest generalizing s reply with
  | nil => exact iff_of_true trivial (keysSafe_nil _)
  | cons p rest ih =>
    obtain ⟨⟨h, hl⟩, hrest⟩ := List.forall_mem_cons.mp hkeys
    rw [keysSafe_cons, handlePairs, returns_bind, handlePair_returns_iff hl]
    refine and_congr_right fun hsafe => ?_
    have hnext : ∀ t r, handlePair cfg pairs p.1 s reply = .ok (t, r) →
        ((handlePairs cfg pairs rest t r).Returns ↔
          KeysSafe cfg s.window.type (s.initiator ≠ none ∨ p.1 = "InitiatorName") pairs rest) := by
      intro t r hok
      have hres := handlePair_result hok
      rw [ih hrest t r, hres.type, propext hres.known]
    refine ⟨fun hall hp => ?_, fun hs x hok => (hnext x.1 x.2 hok).mpr (hs ?_)⟩
    · obtain ⟨⟨t, r⟩, hok⟩ := (handlePair_ok_iff hl hsafe).mpr hp
      exact (hnext t r hok).mp (hall _ hok)
    · exact (handlePair_ok_iff hl hsafe).mp ⟨x, hok⟩

theorem handlePairs_ok_iff {rest : List (String × String)}
    (hkeys : ∀ p ∈ rest, ∃ h, pairHandlers.lookup p.1 = some h) (s : LoginSession)
    (reply : List (String × String))
    (hsafe : KeysSafe cfg s.window.type (s.initiator ≠ none) pairs rest) :
    (∃ x, handlePairs cfg pairs rest s reply = .ok x) ↔
      ∀ p ∈ rest, KeyPasses cfg s.window.type pairs p.1 := by
  induction rest generalizing s reply with
  | nil => exact iff_of_true ⟨_, rfl⟩ nofun
  | cons p rest ih =>
    obtain ⟨⟨h, hl⟩, hrest⟩ := List.forall_mem_cons.mp hkeys
    rw [keysSafe_cons] at hsafe
    have hnext : ∀ t r, handlePair cfg pairs p.1 s reply = .ok (t, r) →
      KeyPasses cfg s.window.type pairs p.1 →
        ((∃ x, handlePairs cfg pairs rest t r = .ok x) ↔
          ∀ q ∈ rest, KeyPasses cfg s.window.type pairs q.1) := by
      intro t r hok hp
      have hres := handlePair_result hok
      have hrec := hsafe.2 hp
      rw [← propext hres.known, ← hres.type] at hrec
      rw [ih hrest t r hrec, hres.type]
    rw [List.forall_mem_cons, handlePairs]
    refine ⟨fun ⟨x, hx⟩ => ?_, fun ⟨hp, hall⟩ => ?_⟩
    · obtain ⟨⟨t, r⟩, hok, hx⟩ := of_bind_ok hx
      have hp := (handlePair_ok_iff hl hsafe.1).mp ⟨_, hok⟩
      exact ⟨hp, (hnext t r hok hp).mp ⟨x, hx⟩⟩
    · obtain ⟨⟨t, r⟩, hok⟩ := (handlePair_ok_iff hl hsafe.1).mpr hp
      rw [hok]
      exact (hnext t r hok hp).mpr hall

theorem handlePairs_result {rest : List (String × String)}
    (hok : handlePairs cfg pairs rest s reply = .ok (t, reply')) :
    Result ("InitiatorName" ∈ rest.map Prod.fst) s t := by
  induction rest generalizing s reply with
  | nil =>
    obtain ⟨rfl, -⟩ := Prod.mk.inj (Except.ok.inj hok)
    exact result_of_eq List.not_mem_nil rfl rfl
  | cons p rest ih =>
    obtain ⟨⟨u, r⟩, hu, hok⟩ := of_bind_ok hok
    have hfirst := handlePair_result hu
    have hrest := ih hok
    refine ⟨hrest.type.trans hfirst.type, ?_⟩
    rw [hrest.known, hfirst.known, or_assoc, List.map_cons, List.mem_cons, @eq_comm _ "InitiatorName"]

theorem handler_of_parsePair {p : String × String} (h : parsePair cfg p = some true) :
    ∃ h, pairHandlers.lookup p.1 = some h := by
  rw [parsePair] at h
  split at h
  · cases h
  rename_i v hv
  have hall : ∀ q ∈ pairValidators, (pairHandlers.lookup q.1).isSome = true := by decide +kernel
  exact Option.isSome_iff_exists.mp (hall _ (lookup_mem hv))

end keys

section login

open Target

variable {l : LinearLimitter} {w w' w'' : Target} {id fd r : Nat} {req : LoginRequest}

/-- What the checks of a first request leave alone: the window and the initiator of the
session, and that it has its connection. -/
structure Prepared (id fd : Nat) (w w' : Target) : Prop where
  window : (w'.ses id).window = (w.ses id).window
  initiator : (w'.ses id).initiator = (w.ses id).initiator
  connection : fd ∈ (w.ses id).connection → fd ∈ (w'.ses id).connection

theorem Prepared.trans (h : Prepared id fd w w') (h' : Prepared id fd w' w'') : Prepared id fd w w'' :=
  ⟨h'.window.trans h.window, h'.initiator.trans h.initiator, h'.connection ∘ h.connection⟩

theorem prepared_of_eq (h : w'.ses id = w.ses id) : Prepared id fd w w' :=
  ⟨by rw [h], by rw [h], by rw [h]; exact fun hfd => hfd⟩

theorem prepared_setSid {sid cid : Nat} : Prepared id fd w (w.setSid id fd sid cid) := by
  have hses : (w.setSid id fd sid cid).ses id = { w.ses id with sid } := setSes_ses_self ..
  exact ⟨by rw [hses], by rw [hses], by rw [hses]; exact fun hfd => hfd⟩

theorem mem_addConnection (w : Target) (id fd : Nat) :
    fd ∈ ((w.addConnection id fd).ses id).connection := by
  unfold addConnection
  split
  · assumption
  · rw [setSes_ses_self]
    exact List.mem_append_right _ List.mem_cons_self

/-- The session that is joined may be the session itself, which then gets its connection
back. -/
theorem prepared_addConnection {old : Nat} (hw : (w'.ses id).window = (w.ses id).window)
    (hi : (w'.ses id).initiator = (w.ses id).initiator)
    (hc : id ≠ old → (w'.ses id).connection = (w.ses id).connection) :
    Prepared id fd w (w'.addConnection old fd) := by
  by_cases hold : id = old
  · subst hold
    refine ⟨?_, ?_, fun _ => mem_addConnection w' id fd⟩
    all_goals
      unfold addConnection
      split
      · assumption
      · rw [setSes_ses_self]
        assumption
  · have hses : (w'.addConnection old fd).ses id = w'.ses id := by
      unfold addConnection
      split
      · rfl
      · exact setSes_ses_of_ne hold
    exact ⟨by rw [hses, hw], by rw [hses, hi], by rw [hses, hc hold]; exact fun hfd => hfd⟩

theorem delConnection_window (w : Target) (id old c : Nat) :
    ((w.delConnection old c).ses id).window = (w.ses id).window := by
  by_cases hold : id = old
  · subst hold
    rw [delConnection, setSes_ses_self]
  · rw [delConnection, setSes_ses_of_ne hold]

theorem delConnection_initiator (w : Target) (id old c : Nat) :
    ((w.delConnection old c).ses id).initiator = (w.ses id).initiator := by
  by_cases hold : id = old
  · subst hold
    rw [delConnection, setSes_ses_self]
  · rw [delConnection, setSes_ses_of_ne hold]

theorem findConnection_ok (hfd : fd ∈ (w.ses id).connection) : w.findConnection id fd = .ok () :=
  if_pos hfd

/-- The post-condition of the checks. -/
def Checked (id fd : Nat) (w : Target) (x : Outcome Pointer Target (Target × List SessionTask)) : Prop :=
  x.Returns ∧ ∀ w' tasks, x = .ok (w', tasks) → Prepared id fd w w'

theorem checked_failed : Checked id fd w (.error (.failed w')) := ⟨trivial, nofun⟩

theorem checked_ok {tasks : List SessionTask} (h : Prepared id fd w w') :
    Checked id fd w (.ok (w', tasks)) :=
  ⟨trivial, fun _ _ heq => (Prod.mk.inj (Except.ok.inj heq)).1 ▸ h⟩

theorem checked_joinSession (hfd : fd ∈ (w.ses id).connection) {sid cid : Nat}
    {tasks : List SessionTask} :
    Checked id fd w (w.joinSession id fd r req >>= fun w => .ok (w.setSid id fd sid cid, tasks)) := by
  unfold joinSession
  dsimp only
  split
  · split
    · exact checked_failed
    · rw [findConnection_ok hfd]
      refine checked_ok (Prepared.trans (prepared_addConnection ?_ ?_ fun hne => ?_) prepared_setSid)
      · rw [changeListener_ses]
        exact delConnection_window _ _ _ _
      · rw [changeListener_ses]
        exact delConnection_initiator _ _ _ _
      · rw [changeListener_ses, delConnection, setSes_ses_of_ne hne]
        rfl
  · rw [findConnection_ok hfd]
    refine checked_ok (Prepared.trans (prepared_addConnection ?_ ?_ fun _ => ?_) prepared_setSid)
    all_goals rw [changeListener_ses]

theorem checked_handle1stRequest (hfd : fd ∈ (w.ses id).connection) :
    Checked id fd w (w.handle1stRequest id fd req) := by
  unfold handle1stRequest
  split
  · unfold handle1stDiscoveryRequest
    split
    · exact checked_failed
    · rw [findConnection_ok hfd]
      exact checked_ok prepared_setSid
  · unfold handle1stNormalRequest
    split
    · split
      · exact checked_failed
      · rw [findConnection_ok hfd]
        exact checked_ok prepared_setSid
    · dsimp only
      split
      · rw [findConnection_ok hfd]
        exact checked_ok prepared_setSid
      · split
        · exact checked_failed
        · exact checked_joinSession hfd
  · exact checked_failed

theorem checked_beginSession (hfd : fd ∈ (w.ses id).connection) :
    Checked id fd (w.setType id (firstType (w.ses id) pairs)) (w.beginSession id fd req pairs) := by
  unfold beginSession
  split
  · apply checked_handle1stRequest
    rw [setType, setSes_ses_self]
    exact hfd
  · rename_i htype
    refine checked_ok (prepared_of_eq ?_)
    rw [firstType, if_neg htype, setType, setSes_ses_self]

theorem shiftStage_returns_iff (nsg : UInt8) : (w.shiftStage id nsg).Returns ↔
    (nsg = 3 → (w.ses id).window.type = .normal → (w.ses id).initiator ≠ none) := by
  unfold shiftStage
  split
  · rename_i hnsg
    refine iff_of_true trivial ?_
    rintro rfl
    exact absurd hnsg (by decide)
  split
  · rename_i hnsg
    have hses : ((w.setTSIH id).ses id).window = (w.ses id).window ∧
        ((w.setTSIH id).ses id).initiator = (w.ses id).initiator := by
      unfold setTSIH
      split
      · rw [setSes_ses_self]
        exact ⟨rfl, rfl⟩
      · exact ⟨rfl, rfl⟩
    rw [returns_bind, returns_mapStop, LoginSession.shift, hses.1]
    cases htype : (w.ses id).window.type with
    | discovery | login => exact iff_of_true ⟨trivial, fun _ _ => trivial⟩ nofun
    | normal =>
      rw [LoginSession.shift2Normal, hses.2]
      cases (w.ses id).initiator with
      | none => exact iff_of_false And.left fun h => h hnsg rfl rfl
      | some i => exact iff_of_true ⟨trivial, fun _ _ => trivial⟩ fun _ _ => Option.some_ne_none i
  · rename_i hnsg
    exact iff_of_true trivial fun h => absurd h hnsg

theorem negotiate_returns_iff (hkeys : ∀ p ∈ pairs, ∃ h, pairHandlers.lookup p.1 = some h) :
    (w.negotiate cfg id pairs).Returns ↔
      KeysSafe cfg (w.ses id).window.type ((w.ses id).initiator ≠ none) pairs pairs := by
  rw [negotiate, returns_bind, returns_mapStop, handlePairs_returns_iff hkeys]
  exact and_iff_left fun _ _ => trivial

theorem negotiate_ok_iff (hkeys : ∀ p ∈ pairs, ∃ h, pairHandlers.lookup p.1 = some h)
    (hsafe : KeysSafe cfg (w.ses id).window.type ((w.ses id).initiator ≠ none) pairs pairs) :
    (∃ x, w.negotiate cfg id pairs = .ok x) ↔ ∀ p ∈ pairs, KeyPasses cfg
      (w.ses id).window.type pairs p.1 := by
  rw [← handlePairs_ok_iff hkeys (w.ses id) [] hsafe, negotiate]
  refine ⟨fun ⟨x, hx⟩ => ?_, fun ⟨x, hx⟩ => ?_⟩
  · obtain ⟨y, hy, -⟩ := of_bind_ok hx
    exact ⟨y, of_mapError_ok hy⟩
  · rw [hx]
    exact ⟨_, rfl⟩

theorem negotiate_result {reply : List (String × String)}
    (hok : w.negotiate cfg id pairs = .ok (w', reply)) :
    Result ("InitiatorName" ∈ pairs.map Prod.fst) (w.ses id) (w'.ses id) := by
  obtain ⟨⟨s, r⟩, hs, hok⟩ := of_bind_ok hok
  obtain ⟨rfl, -⟩ := Prod.mk.inj (Except.ok.inj hok)
  rw [setSes_ses_self]
  exact handlePairs_result (of_mapError_ok hs)

theorem answer_returns_iff (hkeys : ∀ p ∈ pairs, ∃ h, pairHandlers.lookup p.1 = some h) (nsg : UInt8)
    (f : Target → List (String × String) → Target) :
    (w.negotiate cfg id pairs >>= fun (w, reply) =>
      w.shiftStage id nsg >>= fun w => (pure (f w reply) : Outcome Pointer Target Target)).Returns ↔
      KeysSafe cfg (w.ses id).window.type ((w.ses id).initiator ≠ none) pairs pairs ∧
        ((∀ p ∈ pairs, KeyPasses cfg (w.ses id).window.type pairs p.1) → nsg = 3 →
          (w.ses id).window.type = .normal →
          (w.ses id).initiator ≠ none ∨ "InitiatorName" ∈ pairs.map Prod.fst) := by
  rw [returns_bind, negotiate_returns_iff hkeys]
  refine and_congr_right fun hsafe => ?_
  have hshift : ∀ w' reply, w.negotiate cfg id pairs = .ok (w', reply) →
    ((w'.shiftStage id nsg).Returns ↔
      (nsg = 3 → (w.ses id).window.type = .normal →
        (w.ses id).initiator ≠ none ∨ "InitiatorName" ∈ pairs.map Prod.fst)) := by
    intro w' reply hok
    have hres := negotiate_result hok
    rw [shiftStage_returns_iff, hres.type, hres.known]
  refine ⟨fun h hpass => ?_, fun h x hok => ?_⟩
  · obtain ⟨⟨w', reply⟩, hok⟩ := (negotiate_ok_iff hkeys hsafe).mpr hpass
    exact (hshift w' reply hok).mp (returns_bind.mp (h _ hok)).1
  · refine returns_bind.mpr ⟨(hshift x.1 x.2 hok).mpr (h ?_), fun _ _ => trivial⟩
    exact (negotiate_ok_iff hkeys hsafe).mp ⟨x, hok⟩

/-- A first request of this type is one that the checks let pass. -/
def Admitted (w : Target) (req : LoginRequest) : SessionType → Prop
  | .login => False
  | .discovery => w.findSession req.sid = false
  | .normal =>
    match w.findReactor req.sid with
    | none => req.tsih = 0
    | some r =>
      let old := w.ses (w.reactor r).session
      req.tsih = 0 ∨ req.tsih = old.tsih ∧
        (req.cid ∈ old.connection → req.expstatsn = (w.conn req.cid).statsn)

/-- The request is not a first one, or one of a type with which the checks let it pass. -/
def Begins (w : Target) (id : Nat) (req : LoginRequest) : Prop :=
  let type := firstType (w.ses id) (req.data.map getKeyValuePair)
  (w.ses id).window.type = .login → Admitted (w.setType id type) req type

theorem joinSession_ok_iff (hfd : fd ∈ (w.ses id).connection) :
    (∃ x, w.joinSession id fd r req = .ok x) ↔
    (req.cid ∈ (w.ses (w.reactor r).session).connection → req.expstatsn = (w.conn req.cid).statsn) := by
  unfold joinSession
  dsimp only
  rw [findConnection_ok hfd]
  split
  · rename_i hcid
    rw [imp_iff_right hcid]
    split
    · rename_i hne
      exact iff_of_false (fun ⟨_, h⟩ => nomatch h) hne
    · rename_i heq
      exact iff_of_true ⟨_, rfl⟩ (Classical.not_not.mp heq)
  · rename_i hcid
    exact iff_of_true ⟨_, rfl⟩ fun h => absurd h hcid

theorem handle1stRequest_ok_iff (hfd : fd ∈ (w.ses id).connection) :
    (∃ x, w.handle1stRequest id fd req = .ok x) ↔ Admitted w req (w.ses id).window.type := by
  unfold handle1stRequest
  cases (w.ses id).window.type with
  | login => exact iff_of_false (fun ⟨_, h⟩ => nomatch h) False.elim
  | discovery =>
    unfold handle1stDiscoveryRequest Admitted
    rw [findConnection_ok hfd]
    cases w.findSession req.sid with
    | true => exact iff_of_false (fun ⟨_, h⟩ => nomatch h) Bool.noConfusion
    | false => exact iff_of_true ⟨_, rfl⟩ rfl
  | normal =>
    unfold handle1stNormalRequest Admitted
    rw [findConnection_ok hfd]
    cases w.findReactor req.sid with
    | none =>
      dsimp only
      by_cases htsih : req.tsih = 0
      · rw [if_neg (Classical.not_not.mpr htsih)]
        exact iff_of_true ⟨_, rfl⟩ htsih
      · rw [if_pos htsih]
        exact iff_of_false (fun ⟨_, h⟩ => nomatch h) htsih
    | some r =>
      dsimp only
      by_cases htsih : req.tsih = 0
      · rw [if_pos htsih]
        exact iff_of_true ⟨_, rfl⟩ (.inl htsih)
      · rw [if_neg htsih, or_iff_right htsih]
        by_cases hold : req.tsih = (w.ses (w.reactor r).session).tsih
        · rw [if_neg (Classical.not_not.mpr hold), and_iff_right hold, ← joinSession_ok_iff hfd]
          refine ⟨fun ⟨_, h⟩ => ?_, fun ⟨w', h⟩ => ?_⟩
          · obtain ⟨w', hw', -⟩ := of_bind_ok h
            exact ⟨w', hw'⟩
          · rw [h]
            exact ⟨_, rfl⟩
        · rw [if_pos hold]
          exact iff_of_false (fun ⟨_, h⟩ => nomatch h) fun h => hold h.1

theorem begins_iff (hfd : fd ∈ (w.ses id).connection) :
    Begins w id req ↔ ∃ x, w.beginSession id fd req (req.data.map getKeyValuePair) = .ok x := by
  unfold Begins beginSession
  by_cases htype : (w.ses id).window.type = .login
  · rw [if_pos htype, handle1stRequest_ok_iff]
    · rw [setType, setSes_ses_self]
      exact imp_iff_right htype
    · rw [setType, setSes_ses_self]
      exact hfd
  · rw [if_neg htype]
    exact iff_of_true (fun h => absurd h htype) ⟨_, rfl⟩

/-- The texts can be checked; if they are accepted, the window can be stepped, the keys can
be handled, and a Normal session that enters the full feature phase knows its initiator. -/
def LoginSafe (cfg : Config) (l : LinearLimitter) (w : Target) (id poolnum : Nat)
    (req : LoginRequest) : Prop :=
  let s := w.ses id
  let pairs := req.data.map getKeyValuePair
  let type := firstType s pairs
  Parsable cfg req.data ∧
    ((∀ p ∈ pairs, parsePair cfg p = some true) → Begins w id req →
      (req.immediate = false → CommandWindow.CanStep l poolnum type) ∧
        KeysSafe cfg type (s.initiator ≠ none) pairs pairs ∧
          ((∀ p ∈ pairs, KeyPasses cfg type pairs p.1) → req.stage = 3 → type = .normal →
            s.initiator ≠ none ∨ "InitiatorName" ∈ pairs.map Prod.fst))

theorem not_ok_of_stopped {A B N S : Type} {x : Outcome N S A} {f : A → Outcome N S B}
    (h : ¬ ∃ a, x = .ok a) :
    (x >>= f).Returns ↔ x.Returns := by
  rw [returns_bind]
  exact and_iff_left fun a ha => absurd ⟨a, ha⟩ h

theorem rest_returns_iff {poolnum : Nat} {immediate : Bool} (hmax : (w.ses id).window.maxcmdsn < 2 ^ 32)
    (hfd : fd ∈ (w.ses id).connection)
    (hkeys : ∀ p ∈ pairs, ∃ h, pairHandlers.lookup p.1 = some h) (nsg : UInt8)
    (f : LoginSession → Nat → Target → List (String × String) → Target) :
    (ofOption ((w.ses id).advanceCMDSNs l poolnum immediate) >>= fun s =>
      (w.setSes id s).findConnection id fd >>= fun _ =>
        ((w.setSes id s).advanceSTATSN fd).negotiate cfg id pairs >>= fun (w', reply) =>
          w'.shiftStage id nsg >>= fun w'' => (pure (f s (((w.setSes id s).conn fd).statsn) w'' reply) :
            Outcome Pointer Target Target)).Returns ↔
      (immediate = false → CommandWindow.CanStep l poolnum (w.ses id).window.type) ∧
        KeysSafe cfg (w.ses id).window.type ((w.ses id).initiator ≠ none) pairs pairs ∧
          ((∀ p ∈ pairs, KeyPasses cfg (w.ses id).window.type pairs p.1) → nsg = 3 →
            (w.ses id).window.type = .normal →
              (w.ses id).initiator ≠ none ∨ "InitiatorName" ∈ pairs.map Prod.fst) := by
  rw [returns_bind, returns_ofOption, LoginSession.advanceCMDSNs, Option.isSome_map,
    ← CommandWindow.update_isSome_iff hmax]
  refine and_congr_right fun hsome => ?_
  obtain ⟨window, hwindow⟩ := Option.isSome_iff_exists.mp hsome
  have hadvance : (w.ses id).advanceCMDSNs l poolnum immediate = some { w.ses id with window } := by
    rw [LoginSession.advanceCMDSNs, hwindow, Option.map_some]
  have htype := (LoginSession.untouched_advance hadvance).type_eq
  have hfind : (w.setSes id { w.ses id with window }).findConnection id fd = .ok () := by
    apply findConnection_ok
    rw [setSes_ses_self]
    exact hfd
  have hses : ((w.setSes id { w.ses id with window }).advanceSTATSN fd).ses id =
    { w.ses id with window } :=
    setSes_ses_self ..
  have hanswer := @answer_returns_iff cfg pairs
    ((w.setSes id { w.ses id with window }).advanceSTATSN fd) id hkeys
    nsg (f { w.ses id with window } (((w.setSes id { w.ses id with window }).conn fd).statsn))
  rw [hses] at hanswer
  dsimp only at htype hanswer
  rw [htype] at hanswer
  rw [hwindow, Option.map_some, ← hanswer]
  refine ⟨fun h => ?_, fun h s hs => ?_⟩
  · have hnext := h _ rfl
    rwa [hfind] at hnext
  · obtain rfl := Option.some.inj (of_ofOption_ok hs)
    rw [hfind]
    exact h

theorem handleLogin_returns_iff {poolnum : Nat} {addr : SessionTask → Nat}
    (hmax : (w.ses id).window.maxcmdsn < 2 ^ 32) (hfd : fd ∈ (w.ses id).connection) :
    (w.handleLogin cfg l id fd poolnum addr req).Returns ↔
      (req.valid = true → LoginSafe cfg l w id poolnum req) := by
  unfold handleLogin
  cases hvalid : req.valid with
  | false => exact iff_of_true trivial nofun
  | true =>
    have hparse := @parsePairs_returns_iff cfg req.data
    refine Iff.trans ?_ (imp_iff_right rfl).symm
    rw [Bool.not_true, if_neg Bool.false_ne_true, LoginSafe, ← hparse]
    dsimp only
    by_cases hall : ∀ p ∈ req.data.map getKeyValuePair, parsePair cfg p = some true
    · have hok := (parsePairs_ok_iff req.data).mpr ⟨rfl, hall⟩
      have hkeys : ∀ p ∈ req.data.map getKeyValuePair, ∃ h, pairHandlers.lookup p.1 = some h :=
        fun p hp =>
        handler_of_parsePair (hall p hp)
      have hcheck := @checked_beginSession (req.data.map getKeyValuePair) w id fd req hfd
      rw [hok, imp_iff_right hall]
      refine Iff.trans ?_ (and_iff_right trivial).symm
      by_cases hbegins : Begins w id req
      · rw [imp_iff_right hbegins]
        obtain ⟨⟨w', tasks⟩, hbegin⟩ := (begins_iff hfd).mp hbegins
        have hprep := hcheck.2 w' tasks hbegin
        have hwindow : (w'.ses id).window =
            { (w.ses id).window with type := firstType (w.ses id) (req.data.map getKeyValuePair) } := by
          rw [hprep.window, setType, setSes_ses_self]
        have hinit : (w'.ses id).initiator = (w.ses id).initiator := by
          rw [hprep.initiator, setType, setSes_ses_self]
        have hconn : fd ∈ (w'.ses id).connection := by
          apply hprep.connection
          rw [setType, setSes_ses_self]
          exact hfd
        have hrest := @rest_returns_iff cfg _ l w' id fd poolnum req.immediate
          (by rwa [hwindow]) hconn hkeys req.stage
          fun s statsn w reply => w.pushTasks id addr (.sendLogin fd
            { flags := LoginRequest.flagTransit ||| (req.currentStage <<< 2 ||| req.stage),
              itt := req.itt, statsn
              expcmdsn := s.window.expcmdsn, maxcmdsn := s.window.maxcmdsn
              sid := s.sid, pairs := reply } :: tasks)
        rw [hwindow, hinit] at hrest
        refine Iff.trans ?_ hrest
        have hbind : ∀ f : Target × List SessionTask → Outcome Pointer Target Target,
            (w.beginSession id fd req (req.data.map getKeyValuePair) >>= f).Returns ↔
              (f (w', tasks)).Returns := by
          intro f
          rw [hbegin]
          exact Iff.rfl
        exact hbind _
      · have hbind : ∀ f : Target × List SessionTask → Outcome Pointer Target Target,
            (w.beginSession id fd req (req.data.map getKeyValuePair) >>= f).Returns := by
          intro f
          exact (not_ok_of_stopped fun h => hbegins ((begins_iff hfd).mpr h)).mpr hcheck.1
        exact iff_of_true (hbind _) fun h => absurd h hbegins
    · have hstop : ¬ ∃ pairs, (parsePairs cfg req.data).mapError (Stop.map fun _ => w) = .ok pairs := by
        rintro ⟨pairs, hpairs⟩
        obtain ⟨rfl, htrue⟩ := (parsePairs_ok_iff req.data).mp (of_mapError_ok hpairs)
        exact hall htrue
      rw [not_ok_of_stopped hstop, returns_mapStop]
      exact (and_iff_left fun htrue => absurd htrue hall).symm

end login

section text

variable {l : LinearLimitter} {w : Target} {id fd poolnum : Nat} {targets : List (String × String)}
  {req : TextRequest}

/-- If the texts are accepted, the window can be stepped, and there is one. -/
def TextSafe (l : LinearLimitter) (w : Target) (id poolnum : Nat) (req : TextRequest) : Prop :=
  (∀ str ∈ req.data, TextRequest.parsePair (getKeyValuePair str) = true) →
    (req.immediate = false → CommandWindow.CanStep l poolnum (w.ses id).window.type) ∧ req.data ≠ []

theorem text_parsePairs (data : List String) : TextRequest.parsePairs data =
    if ∀ str ∈ data, TextRequest.parsePair (getKeyValuePair str) = true then .ok
      (data.map getKeyValuePair)
    else .error (.failed ()) := by
  induction data with
  | nil => exact (if_pos nofun).symm
  | cons str data ih =>
    rw [TextRequest.parsePairs, ih]
    simp only [List.forall_mem_cons]
    by_cases hstr : TextRequest.parsePair (getKeyValuePair str) = true
    · rw [if_pos hstr]
      simp only [hstr, true_and]
      split <;> rfl
    · rw [if_neg hstr, if_neg fun h => hstr h.1]

theorem handleText_returns_iff (hmax : (w.ses id).window.maxcmdsn < 2 ^ 32)
    (hfd : fd ∈ (w.ses id).connection) :
    (Target.handleText l w id fd poolnum targets req).Returns ↔
      (req.valid = true → TextSafe l w id poolnum req) := by
  unfold Target.handleText
  cases hvalid : req.valid with
  | false => exact iff_of_true trivial nofun
  | true =>
    refine Iff.trans ?_ (imp_iff_right rfl).symm
    rw [Bool.not_true, if_neg Bool.false_ne_true, text_parsePairs, TextSafe]
    by_cases hall : ∀ str ∈ req.data, TextRequest.parsePair (getKeyValuePair str) = true
    · have hupdate := @CommandWindow.update_isSome_iff l (w.ses id).window poolnum req.immediate hmax
      rw [if_pos hall, imp_iff_right hall, ← hupdate]
      refine (@returns_bind _ _ _ _ (ofOption ((w.ses id).advanceCMDSNs l poolnum req.immediate))
        _).trans ?_
      rw [returns_ofOption, LoginSession.advanceCMDSNs, Option.isSome_map]
      refine and_congr_right fun hsome => ?_
      obtain ⟨window, hwindow⟩ := Option.isSome_iff_exists.mp hsome
      rw [hwindow]
      have hconn : ¬ fd ∉ ({ w.ses id with window } : LoginSession).connection := not_not_intro hfd
      refine ⟨fun h => ?_, fun h s hs => ?_⟩
      · intro hnil
        have hnext := h _ rfl
        rw [if_neg hconn, hnil] at hnext
        exact hnext
      · obtain rfl := Option.some.inj (of_ofOption_ok hs)
        obtain ⟨str, data, hdata⟩ := List.exists_cons_of_ne_nil h
        rw [if_neg hconn, hdata, List.map_cons]
        dsimp only
        split <;> trivial
    · rw [if_neg hall]
      exact iff_of_true trivial fun h => absurd h hall

end text

section segment

variable {N S : Type}

/-- The loop of the handlers over a data segment: a pair is parsed before the next string
is looked for. No NUL in the memory is no result. -/
def parseSegment (parse : String × String → Outcome N S Bool) (s : S) (dlength : Nat)
    (mem : List UInt8) :
    Outcome N S (List (String × String)) :=
  if dlength = 0 then .ok []
  else match cString mem with
    | none => .error .aborted
    | some (str, rest) => do
      let apair := getKeyValuePair (ofBytes str)
      if ← parse apair then
        return apair :: (← parseSegment parse s (dlength - (str.length + 1)) rest)
      else .error (.failed s)
termination_by dlength

theorem parseSegment_eq {parse : String × String → Outcome N S Bool} {s : S}
    {loop : List String → Outcome N S (List (String × String))} (hnil : loop [] = .ok [])
    (hcons : ∀ str data, loop (str :: data) = parse (getKeyValuePair str) >>= fun b =>
      if b then loop data >>= fun pairs => .ok (getKeyValuePair str :: pairs) else .error (.failed s))
    {strs : List (List UInt8)} {dlength : Nat} {mem : List UInt8}
    (h : dataStrings dlength mem = some strs) :
    parseSegment parse s dlength mem = loop (strs.map ofBytes) := by
  induction strs generalizing dlength mem with
  | nil =>
    rw [dataStrings] at h
    split at h
    · rename_i hzero
      rw [parseSegment, if_pos hzero, List.map_nil, hnil]
    · obtain ⟨_, -, h⟩ := Option.bind_eq_some_iff.mp h
      obtain ⟨_, -, h⟩ := Option.map_eq_some_iff.mp h
      cases h
  | cons str strs ih =>
    rw [dataStrings] at h
    split at h
    · cases h
    · rename_i hpos
      obtain ⟨⟨str', rest⟩, hstr, h⟩ := Option.bind_eq_some_iff.mp h
      obtain ⟨strs', hstrs, h⟩ := Option.map_eq_some_iff.mp h
      obtain ⟨rfl, rfl⟩ := List.cons.inj h
      rw [parseSegment, if_neg hpos, hstr, List.map_cons, hcons, ← ih hstrs]
      rfl

theorem parseSegment_login {strs : List (List UInt8)} {dlength : Nat} {mem : List UInt8}
    (h : dataStrings dlength mem = some strs) :
    parseSegment (fun p => ofOption (parsePair cfg p)) () dlength mem = parsePairs cfg
      (strs.map ofBytes) :=
  parseSegment_eq rfl (fun _ _ => rfl) h

theorem parseSegment_text {strs : List (List UInt8)} {dlength : Nat} {mem : List UInt8}
    (h : dataStrings dlength mem = some strs) :
    parseSegment (fun p => .ok (TextRequest.parsePair p)) () dlength mem =
      TextRequest.parsePairs (strs.map ofBytes) :=
  parseSegment_eq rfl (fun _ _ => rfl) h

end segment

/-- The requests that carry pairs. -/
inductive PairRequest
  | login (req : LoginRequest)
  | text (req : TextRequest)

namespace PairRequest

variable (cfg : Config) (l : LinearLimitter) (w : Target) (id fd poolnum : Nat)
  (addr : SessionTask → Nat)
  (targets : List (String × String))

/-- The handler of the request returns, true or false. -/
def Handled : PairRequest → Prop
  | login req => (w.handleLogin cfg l id fd poolnum addr req).Returns
  | text req => (Target.handleText l w id fd poolnum targets req).Returns

/-- If the header is valid, the texts can be checked, and what is done with them can be
done. -/
def Safe : PairRequest → Prop
  | login req => req.valid = true → LoginSafe cfg l w id poolnum req
  | text req => req.valid = true → TextSafe l w id poolnum req

end PairRequest

section requests

variable {l : LinearLimitter} {w : Target} {id fd poolnum : Nat} {addr : SessionTask → Nat}
  {targets : List (String × String)}

/-- For the connection of a session, the handlers return just for the requests that are
safe. -/
theorem handled_iff_safe (hmax : (w.ses id).window.maxcmdsn < 2 ^ 32) (hfd : fd ∈ (w.ses id).connection)
    (req : PairRequest) :
    req.Handled cfg l w id fd poolnum addr targets ↔ req.Safe cfg l w id poolnum := by
  cases req with
  | login req => exact handleLogin_returns_iff hmax hfd
  | text req => exact handleText_returns_iff hmax hfd

end requests

/-- A connection has been accepted, and asks for the targets. -/
theorem handled_sendTargets :
    (PairRequest.text { immediate := false, flags := 0x80, data := ["SendTargets=All"] }).Handled
      Negotiation.sampleConfig ⟨0, 0⟩ (Target.start.accept Negotiation.sampleConfig 5) 0 5 1
        (fun _ => 0) [] := by
  refine (handled_iff_safe (by decide +kernel) (by decide +kernel) _).mpr fun _ _ => ⟨fun _ => ?_, nofun⟩
  exact .inr ⟨1, by decide, by decide⟩

/-- A number of a Login request that is none, and a Text request without a text. -/
theorem not_handled :
    (¬ ∀ (w : Target) (id fd poolnum : Nat) (addr : SessionTask → Nat) (req : LoginRequest),
      (w.ses id).window.maxcmdsn < 2 ^ 32 → fd ∈ (w.ses id).connection →
        (PairRequest.login req).Handled Negotiation.sampleConfig ⟨0, 0⟩ w id fd poolnum addr []) ∧
    ¬ ∀ (w : Target) (id fd poolnum : Nat) (addr : SessionTask → Nat) (req : TextRequest),
      (w.ses id).window.maxcmdsn < 2 ^ 32 → fd ∈ (w.ses id).connection →
        (PairRequest.text req).Handled Negotiation.sampleConfig ⟨0, 0⟩ w id fd poolnum addr [] := by
  have hmax : ((Target.start.accept Negotiation.sampleConfig 5).ses 0).window.maxcmdsn < 2 ^ 32 :=
    by decide +kernel
  have hfd : 5 ∈ ((Target.start.accept Negotiation.sampleConfig 5).ses 0).connection := by decide +kernel
  have hlookup : pairValidators.lookup (getKeyValuePair "MaxBurstLength=abc").1 =
      some (.rangeCast 512 16777215) := rfl
  refine ⟨fun hall => ?_, fun hall => ?_⟩
  · have hreturns := hall _ 0 5 1 (fun _ => 0)
      { flags := 0x87, sid := 0, cid := 0, data := ["MaxBurstLength=abc"] } hmax hfd
    rw [PairRequest.Handled, handleLogin_returns_iff hmax hfd] at hreturns
    have hconv := (hreturns (by decide)).1 [] "MaxBurstLength=abc" [] rfl nofun _ _ hlookup
    exact absurd hconv (by decide +kernel)
  · have hreturns := hall _ 0 5 1 (fun _ => 0) { flags := 0x80, data := [] } hmax hfd
    rw [PairRequest.Handled, handleText_returns_iff hmax hfd] at hreturns
    exact (hreturns (by decide) nofun).2 rfl

end Sstoraged.PairReturns
