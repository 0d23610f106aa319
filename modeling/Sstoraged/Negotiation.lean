import Sstoraged.LoginFixed
import Sstoraged.SelectiveFold

namespace Sstoraged

/-- The numbers and flags of the configuration, each as it is set or its default. -/
structure Configurator where
  nums : String → UInt32
  flags : String → Bool

namespace Configurator

/-- The numbers that have a default. The configuration may not have others. -/
def numAttrs : List String :=
  ["PoolSoftLimit", "PoolHardLimit", "MaxConnections", "MaxRecvDataSegmentLength", "MaxBurstLength",
    "FirstBurstLength", "DefaultTime2Wait", "DefaultTime2Retain", "MaxOutstandingR2T",
      "ErrorRecoveryLevel",
    "NopOutInterval", "NopOutTimeout"]

def flagAttrs : List String :=
  ["Debug", "InitialR2T", "ImmediateData", "DataPDUInOrder", "DataSequenceInOrder",
    "IFMarker", "OFMarker"]

def getNum (c : Configurator) (attr : String) : Option Nat :=
  if attr ∈ numAttrs then some (c.nums attr).toNat else none

def getFlag (c : Configurator) (attr : String) : Option Bool :=
  if attr ∈ flagAttrs then some (c.flags attr) else none

/-- The attributes of a session, each loaded into the same variable, which keeps its
value where the name is not there. -/
def load {A : Type} (getAttr : String → Option A) (var : A) :
    List (String × String) → (String → A) → String → A
  | [], attrs => attrs
  | (name, attr) :: rest, attrs =>
    let var := (getAttr name).getD var
    load getAttr var rest (Function.update attrs attr var)

def sessionNums (c : Configurator) : String → Nat :=
  load c.getNum 0
    [("DefaultTime2Wait", "DefaultTime2Wait"), ("DefaultTime2Retain", "DefaultTime2Retain"),
      ("MaxBurstLength", "MaxBurstLength"), ("FirstBurstLength", "FirstBurstLength"),
      ("MaxConnections", "MaxConnections"), ("MaxOutStandingR2T", "MaxOutstandingR2T"),
      ("ErrorRecoveryLevel", "ErrorRecoveryLevel"),
        ("MaxRecvDataSegmentLength", "MaxRecvDataSegmentLength")]
    fun _ => 0

def sessionFlags (c : Configurator) : String → Bool :=
  load c.getFlag false
    [("InitialR2T", "InitialR2T"), ("ImmediateData", "ImmediateData"), ("IFMarker", "IFMarker"),
      ("OFMarker", "OFMarker"), ("DataPDUInOrder", "DataPDUInOrder"),
      ("DataSequenceInOrder", "DataSequenceInOrder")]
    fun _ => false

/-- A target with this configuration. -/
def config (c : Configurator) (cfg : Config) : Config :=
  { cfg with nums := c.sessionNums, flags := c.sessionFlags }

end Configurator

namespace Negotiation

open Outcome Runs LoginSession Target

inductive NumOp
  | min
  | max
  deriving DecidableEq

inductive FlagOp
  | or
  | and
  deriving DecidableEq

def NumOp.eval : NumOp → Nat → Nat → Nat
  | min => Min.min
  | max => Max.max

def FlagOp.eval : FlagOp → Bool → Bool → Bool
  | or => Bool.or
  | and => Bool.and

theorem NumOp.selective (op : NumOp) : Selective op.eval := by
  cases op with
  | min => exact .min
  | max => exact .max

theorem FlagOp.selective (op : FlagOp) : Selective op.eval := by
  cases op with
  | or => exact .or
  | and => exact .and

/-- The keys with numbers, and their result functions. -/
def numKeys : List (String × NumOp) :=
  [("MaxBurstLength", .min), ("FirstBurstLength", .min), ("MaxConnections", .min),
    ("MaxOutstandingR2T", .min),
    ("ErrorRecoveryLevel", .min), ("DefaultTime2Wait", .max), ("DefaultTime2Retain", .min)]

def flagKeys : List (String × FlagOp) :=
  [("InitialR2T", .or), ("ImmediateData", .and), ("DataPDUInOrder", .or), ("DataSequenceInOrder", .or)]

/-- A negotiated key: what the session holds for it, what a text means, and the text of
the answer. -/
structure Parameter (A : Type) where
  key : String
  op : A → A → A
  held : LoginSession → A
  read : String → Option A
  text : A → String

def numParameter (cfg : Config) (p : String × NumOp) : Parameter Nat :=
  ⟨p.1, p.2.eval, fun s => s.nums p.1, cfg.lexicalCast 32, toString⟩

def flagParameter (p : String × FlagOp) : Parameter Bool :=
  ⟨p.1, p.2.eval, fun s => s.flags p.1, fun value => some (value == "Yes"), fun b => if b then "Yes"
    else "No"⟩

abbrev Pairs := List (String × String)

namespace Parameter

variable {A : Type} (p : Parameter A)

/-- The values of the key in a list of pairs. -/
def values (l : Pairs) : List A := l.filterMap fun pair => if pair.1 = p.key then p.read pair.2 else none

/-- The last text for the key in a list of pairs. -/
def last (l : Pairs) : Option String := l.reverse.lookup p.key

end Parameter

/-- For each pair the first value that the request has for its key. -/
def firstValues (pairs : Pairs) : Pairs := pairs.map fun p => (p.1, getPairValue pairs p.1)

/-- The pairs that a session was offered in its logins so far, and those it answered. -/
structure LoginLog where
  offered : List Pairs
  announced : Pairs
  deriving DecidableEq

namespace LoginLog

def all (g : LoginLog) : Pairs := g.offered.flatten

def firsts (g : LoginLog) : Pairs := g.offered.flatMap firstValues

end LoginLog

/-- A target with the logs of its sessions. A session of which a login failed has none:
its connection is closed. -/
structure LoggedTarget where
  target : Target
  log : Nat → Option LoginLog

/-- The pairs of a login and those of its reply. -/
def loginPairs (cfg : Config) (l : LinearLimitter) (w : Target) (id fd poolnum : Nat)
    (req : LoginRequest) :
    Outcome Pointer Target (Pairs × Pairs) := do
  let pairs ← (parsePairs cfg req.data).mapError (Stop.map fun _ => w)
  let (w, _) ← w.beginSession id fd req pairs
  let s ← .ofOption ((w.ses id).advanceCMDSNs l poolnum req.immediate)
  let (_, reply) ← ((w.setSes id s).advanceSTATSN fd).negotiate cfg id pairs
  return (pairs, reply)

namespace LoggedTarget

def start : LoggedTarget := ⟨Target.start, fun _ => none⟩

def record (cfg : Config) (l : LinearLimitter) (w : LoggedTarget) : TargetEvent → Nat → Option LoginLog
  | .accept _ => Function.update w.log w.target.accepted (some ⟨[], []⟩)
  | .pdu id fd (.login poolnum addr req) => Function.update w.log id <|
    match w.target.handlePdu cfg l id fd (.login poolnum addr req),
      loginPairs cfg l w.target id fd poolnum req with
    | .ok _, .ok (pairs, reply) => (w.log id).map fun g => ⟨g.offered ++ [pairs], g.announced ++ reply⟩
    | _, _ => none
  | _ => w.log

def step (cfg : Config) (l : LinearLimitter) (w : LoggedTarget) (e : TargetEvent) :
    Option LoggedTarget :=
  (Target.step cfg l w.target e).map fun target => ⟨target, w.record cfg l e⟩

end LoggedTarget

/-- The result of the negotiation of a key: what the session holds is the result function
of the configured value and of every value offered, and the last one announced. -/
structure Result {A : Type} (p : Parameter A) (configured : A) (g : LoginLog) (s : LoginSession) :
    Prop where
  held : p.held s = (p.values g.all).foldl p.op configured
  announced : p.key ∈ g.all.map Prod.fst → p.last g.announced = some (p.text (p.held s))

/-- What holds when a Normal session comes to the full feature phase. -/
structure Negotiated (cfg : Config) (c : Configurator) (g : LoginLog) (s : LoginSession) : Prop where
  nums : ∀ p ∈ numKeys, Result (numParameter cfg p) (c.nums p.1).toNat g s
  flags : ∀ p ∈ flagKeys, Result (flagParameter p) (c.flags p.1) g s
  write : ∃ read mrds, s.protos opScsiCmd = some (.command read ⟨mrds, s.nums "FirstBurstLength",
    s.nums "MaxBurstLength", s.flags "ImmediateData", s.flags "InitialR2T"⟩)
  bursts : s.nums "FirstBurstLength" ≤ s.nums "MaxBurstLength"

/-- The values that are first in their requests, with the one that was loaded, are enough:
none of the others goes further, and the loaded one does not go further than these. -/
def Enough {A : Type} (p : Parameter A) (loaded configured : A) (g : LoginLog) : Prop :=
  (∀ v ∈ configured :: p.values g.all, ∃ u ∈ loaded :: p.values g.firsts, p.op u v = u) ∧
    ∃ v ∈ configured :: p.values g.all, p.op v loaded = v

instance {A : Type} [DecidableEq A] (p : Parameter A) (loaded configured : A) (g : LoginLog) :
    Decidable (Enough p loaded configured g) := inferInstanceAs (Decidable (_ ∧ _))

/-- MaxOutstandingR2T is loaded under a name that is not there, behind MaxConnections. -/
def loadedFrom (key : String) : String := if key = "MaxOutstandingR2T" then "MaxConnections" else key

structure Agreed (cfg : Config) (c : Configurator) (g : LoginLog) : Prop where
  nums : ∀ p ∈ numKeys, Enough (numParameter cfg p) (c.nums (loadedFrom p.1)).toNat (c.nums p.1).toNat g
  flags : ∀ p ∈ flagKeys, Enough (flagParameter p) (c.flags p.1) (c.flags p.1) g
  bursts : ∃ u ∈ (c.nums "FirstBurstLength").toNat ::
    (numParameter cfg ("FirstBurstLength", .min)).values g.all,
    ∀ v ∈ (c.nums "MaxBurstLength").toNat :: (numParameter cfg ("MaxBurstLength", .min)).values
      g.all, u ≤ v

section keys

variable {cfg : Config} {key value : String} {s t : LoginSession} {reply reply' : Pairs}
  {h : PairHandler}

/-- The number that a handler negotiates. -/
def num : PairHandler → Option (String × NumOp)
  | .negotiateMax attr => some (attr, .max)
  | .negotiateMin attr | .normalMin attr => some (attr, .min)
  | _ => none

def flag : PairHandler → Option (String × FlagOp)
  | .normalOr attr => some (attr, .or)
  | .normalAnd attr | .negotiateAnd attr => some (attr, .and)
  | _ => none

/-- The keys that the other handlers answer. -/
def answers : PairHandler → List String
  | .initiatorName => ["TargetPortalGroupTag"]
  | .authMethod => ["AuthMethod"]
  | .digest attr => [attr]
  | .maxRecvDataSegmentLength => ["MaxRecvDataSegmentLength"]
  | _ => []

/-- What a handler does to the numbers and the flags, and its answer. -/
structure Effect (cfg : Config) (h : PairHandler) (value : String) (s t : LoginSession)
    (extra : Pairs) : Prop where
  num : ∀ attr op, num h = some (attr, op) → ∃ n, cfg.lexicalCast 32 value = some n ∧
    t.nums = Function.update s.nums attr (op.eval (s.nums attr) n) ∧
      extra = [(attr, toString (op.eval (s.nums attr) n))]
  flag : ∀ attr op, flag h = some (attr, op) →
    t.flags = Function.update s.flags attr (op.eval (s.flags attr) (value == "Yes")) ∧
      extra = [(attr, if op.eval (s.flags attr) (value == "Yes") then "Yes" else "No")]
  nums : Negotiation.num h = none → t.nums = s.nums
  flags : Negotiation.flag h = none → t.flags = s.flags
  others : Negotiation.num h = none → Negotiation.flag h = none → ∀ q ∈ extra, q.1 ∈ answers h

theorem effect_num {attr : String} (op : NumOp) (hnum : num h = some (attr, op)) (hflag : flag h = none)
    (hok : PairHandler.negotiateNum cfg op.eval attr value s reply = .ok (t, reply')) :
    ∃ extra, reply' = reply ++ extra ∧ Effect cfg h value s t extra := by
  obtain ⟨n, hn, hok⟩ := of_bind_ok hok
  obtain ⟨rfl, rfl⟩ := Prod.mk.inj (Except.ok.inj hok)
  refine ⟨_, rfl, fun attr' op' h' => ?_, fun attr' op' h' => ?_, fun hnone => ?_, fun _ => rfl,
    fun hnone => ?_⟩
  · obtain ⟨rfl, rfl⟩ := Prod.mk.inj (Option.some.inj (hnum.symm.trans h'))
    exact ⟨n, of_ofOption_ok hn, rfl, rfl⟩
  · exact absurd (hflag.symm.trans h') nofun
  · exact absurd (hnum.symm.trans hnone) nofun
  · exact absurd (hnum.symm.trans hnone) nofun

theorem effect_flag {attr : String} (op : FlagOp) (hnum : num h = none)
    (hflag : flag h = some (attr, op))
    (hok : PairHandler.negotiateFlag op.eval attr value s reply = .ok (t, reply')) :
    ∃ extra, reply' = reply ++ extra ∧ Effect cfg h value s t extra := by
  obtain ⟨rfl, rfl⟩ := Prod.mk.inj (Except.ok.inj hok)
  refine ⟨_, rfl, fun attr' op' h' => ?_, fun attr' op' h' => ?_, fun _ => rfl, fun hnone => ?_,
    fun _ hnone => ?_⟩
  · exact absurd (hnum.symm.trans h') nofun
  · obtain ⟨rfl, rfl⟩ := Prod.mk.inj (Option.some.inj (hflag.symm.trans h'))
    exact ⟨rfl, rfl⟩
  · exact absurd (hflag.symm.trans hnone) nofun
  · exact absurd (hflag.symm.trans hnone) nofun

theorem effect_other {extra : Pairs} (hnum : num h = none) (hflag : flag h = none)
    (hnums : t.nums = s.nums)
    (hflags : t.flags = s.flags) (hextra : ∀ q ∈ extra, q.1 ∈ answers h) :
    Effect cfg h value s t extra :=
  ⟨fun _ _ h' => absurd (hnum.symm.trans h') nofun, fun _ _ h' => absurd (hflag.symm.trans h') nofun,
    fun _ => hnums, fun _ => hflags, fun _ _ => hextra⟩

theorem of_normalOnly {r : Outcome Pointer LoginSession (LoginSession × Pairs)}
    {x : LoginSession × Pairs}
    (hok : PairHandler.normalOnly s r = .ok x) : r = .ok x := by
  unfold PairHandler.normalOnly at hok
  split at hok
  · exact hok
  · exact absurd hok nofun

theorem effect_handle (hok : h.handle cfg value s reply = .ok (t, reply')) :
    ∃ extra, reply' = reply ++ extra ∧ Effect cfg h value s t extra := by
  cases h with
  | negotiateMax attr => exact effect_num .max rfl rfl hok
  | negotiateMin attr => exact effect_num .min rfl rfl hok
  | normalMin attr => exact effect_num .min rfl rfl (of_normalOnly hok)
  | normalOr attr => exact effect_flag .or rfl rfl (of_normalOnly hok)
  | normalAnd attr => exact effect_flag .and rfl rfl (of_normalOnly hok)
  | negotiateAnd attr => exact effect_flag .and rfl rfl hok
  | nothingTodo | targetAlias =>
    obtain ⟨rfl, rfl⟩ := Prod.mk.inj (Except.ok.inj hok)
    exact ⟨[], (List.append_nil _).symm, effect_other rfl rfl rfl rfl (List.forall_mem_nil _)⟩
  | digest attr =>
    obtain ⟨rfl, rfl⟩ := Prod.mk.inj (Except.ok.inj hok)
    exact ⟨_, rfl, effect_other rfl rfl rfl rfl fun q hq =>
      by rw [List.mem_singleton.mp hq]; exact List.mem_cons_self⟩
  | initiatorAlias =>
    obtain ⟨i, -, hok⟩ := of_bind_ok hok
    obtain ⟨rfl, rfl⟩ := Prod.mk.inj (Except.ok.inj hok)
    exact ⟨[], (List.append_nil _).symm, effect_other rfl rfl rfl rfl (List.forall_mem_nil _)⟩
  | maxRecvDataSegmentLength =>
    obtain ⟨n, -, hok⟩ := of_bind_ok hok
    obtain ⟨i, -, hok⟩ := of_bind_ok hok
    obtain ⟨rfl, rfl⟩ := Prod.mk.inj (Except.ok.inj hok)
    exact ⟨_, rfl, effect_other rfl rfl rfl rfl fun q hq =>
      by rw [List.mem_singleton.mp hq]; exact List.mem_cons_self⟩
  | initiatorName =>
    rw [PairHandler.handle] at hok
    split at hok
    · obtain ⟨rfl, rfl⟩ := Prod.mk.inj (Except.ok.inj hok)
      exact ⟨_, rfl, effect_other rfl rfl rfl rfl fun q hq => by
        rw [List.mem_singleton.mp hq]; exact List.mem_cons_self⟩
    · cases hok
  | authMethod =>
    rw [PairHandler.handle] at hok
    split at hok
    · obtain ⟨i, -, hok⟩ := of_bind_ok hok
      obtain ⟨rfl, rfl⟩ := Prod.mk.inj (Except.ok.inj hok)
      exact ⟨_, rfl, effect_other rfl rfl rfl rfl fun q hq => by
        rw [List.mem_singleton.mp hq]; exact List.mem_cons_self⟩
    · obtain ⟨rfl, rfl⟩ := Prod.mk.inj (Except.ok.inj hok)
      exact ⟨_, rfl, effect_other rfl rfl rfl rfl fun q hq => by
        rw [List.mem_singleton.mp hq]; exact List.mem_cons_self⟩

theorem num_key : ∀ q ∈ pairHandlers, (num q.2).all fun p => p.1 == q.1 := by decide +kernel

theorem flag_key : ∀ q ∈ pairHandlers, (flag q.2).all fun p => p.1 == q.1 := by decide +kernel

theorem answers_key : ∀ q ∈ pairHandlers, ∀ a ∈ answers q.2,
    a ∉ numKeys.map Prod.fst ++ flagKeys.map Prod.fst := by
  decide +kernel

theorem lookup_num : ∀ p ∈ numKeys, (pairHandlers.lookup p.1).bind num = some p := by decide +kernel

theorem lookup_flag : ∀ p ∈ flagKeys, (pairHandlers.lookup p.1).bind flag = some p := by decide +kernel

end keys

/-- The handler of a parameter's key negotiates it, and the others leave it alone. -/
structure Tracks {A : Type} (cfg : Config) (p : Parameter A) : Prop where
  held : ∀ s t : LoginSession, t.nums = s.nums → t.flags = s.flags → p.held t = p.held s
  own : ∀ h value s t extra, pairHandlers.lookup p.key = some h → Effect cfg h value s t extra →
    ∃ a, p.read value = some a ∧ p.held t = p.op (p.held s) a ∧ extra = [(p.key, p.text (p.held t))]
  other : ∀ key h value s t extra, key ≠ p.key → pairHandlers.lookup key = some h →
    Effect cfg h value s t extra →
    p.held t = p.held s ∧ ∀ q ∈ extra, q.1 ≠ p.key

section tracks

variable {cfg : Config} {key value : String} {s t : LoginSession} {extra : Pairs} {h : PairHandler}

theorem num_attr {q : String × NumOp} (hl : pairHandlers.lookup key = some h)
    (hq : num h = some q) : q.1 = key := by
  have hall := num_key _ (lookup_mem hl)
  rw [hq] at hall
  exact eq_of_beq hall

theorem flag_attr {q : String × FlagOp} (hl : pairHandlers.lookup key = some h) (hq : flag h = some q) :
    q.1 = key := by
  have hall := flag_key _ (lookup_mem hl)
  rw [hq] at hall
  exact eq_of_beq hall

theorem extra_key (he : Effect cfg h value s t extra) (hl : pairHandlers.lookup key = some h)
    {attr : String}
    (hattr : attr ∈ numKeys.map Prod.fst ++ flagKeys.map Prod.fst) (hne : key ≠ attr) :
    ∀ r ∈ extra, r.1 ≠ attr := by
  intro r hr
  cases hnum : num h with
  | some q =>
    obtain ⟨n, -, -, rfl⟩ := he.num q.1 q.2 hnum
    rw [List.mem_singleton.mp hr, num_attr hl hnum]
    exact hne
  | none =>
    cases hflag : flag h with
    | some q =>
      obtain ⟨-, rfl⟩ := he.flag q.1 q.2 hflag
      rw [List.mem_singleton.mp hr, flag_attr hl hflag]
      exact hne
    | none =>
      rintro rfl
      exact answers_key _ (lookup_mem hl) _ (he.others hnum hflag r hr) hattr

theorem tracks_num (cfg : Config) {p : String × NumOp} (hp : p ∈ numKeys) :
    Tracks cfg (numParameter cfg p) := by
  refine ⟨fun s t hnums _ => congrFun hnums p.1, fun h value s t extra hl he => ?_,
    fun key h value s t extra hkey hl he =>
      ⟨?_, extra_key he hl (List.mem_append_left _ (List.mem_map_of_mem hp)) hkey⟩⟩
  · have hnum := lookup_num p hp
    replace hl : pairHandlers.lookup p.1 = some h := hl
    rw [hl] at hnum
    obtain ⟨n, hn, hnums, rfl⟩ := he.num p.1 p.2 hnum
    have hheld : t.nums p.1 = p.2.eval (s.nums p.1) n := by rw [hnums, Function.update_self]
    refine ⟨n, hn, hheld, ?_⟩
    rw [← hheld]
    rfl
  · cases hnum : num h with
    | some q =>
      obtain ⟨n, -, hnums, -⟩ := he.num q.1 q.2 hnum
      have hne : p.1 ≠ q.1 := fun heq => hkey ((num_attr hl hnum).symm.trans heq.symm)
      exact (congrFun hnums p.1).trans (Function.update_of_ne hne ..)
    | none => exact congrFun (he.nums hnum) p.1

theorem tracks_flag (cfg : Config) {p : String × FlagOp} (hp : p ∈ flagKeys) :
    Tracks cfg (flagParameter p) := by
  refine ⟨fun s t _ hflags => congrFun hflags p.1, fun h value s t extra hl he => ?_,
    fun key h value s t extra hkey hl he =>
      ⟨?_, extra_key he hl (List.mem_append_right _ (List.mem_map_of_mem hp)) hkey⟩⟩
  · have hflag := lookup_flag p hp
    replace hl : pairHandlers.lookup p.1 = some h := hl
    rw [hl] at hflag
    obtain ⟨hflags, rfl⟩ := he.flag p.1 p.2 hflag
    have hheld : t.flags p.1 = p.2.eval (s.flags p.1) (value == "Yes") := by
      rw [hflags, Function.update_self]
    refine ⟨_, rfl, hheld, ?_⟩
    rw [← hheld]
    rfl
  · cases hflag : flag h with
    | some q =>
      obtain ⟨hflags, -⟩ := he.flag q.1 q.2 hflag
      have hne : p.1 ≠ q.1 := fun heq => hkey ((flag_attr hl hflag).symm.trans heq.symm)
      exact (congrFun hflags p.1).trans (Function.update_of_ne hne ..)
    | none => exact congrFun (he.flags hflag) p.1

end tracks

section requests

variable {A : Type} {cfg : Config} {p : Parameter A} {pairs reply reply' : Pairs} {key : String}
  {s t : LoginSession}

theorem Parameter.last_append (p : Parameter A) (l l' : Pairs) : p.last (l ++ l') = (p.last l').or
    (p.last l) := by
  unfold Parameter.last
  rw [List.reverse_append, List.lookup_append]

theorem Parameter.last_none {l : Pairs} (h : ∀ q ∈ l, q.1 ≠ p.key) : p.last l = none := by
  unfold Parameter.last
  rw [List.lookup_eq_none_iff]
  intro q hq
  exact bne_iff_ne.mpr fun heq => h q (List.mem_reverse.mp hq) heq.symm

theorem Parameter.last_singleton (p : Parameter A) (text : String) :
    p.last [(p.key, text)] = some text := by
  unfold Parameter.last
  rw [List.reverse_singleton, List.lookup_cons_self]

/-- What the keys of a request from one on do to a parameter. -/
structure Ran (p : Parameter A) (pairs rest : Pairs) (s t : LoginSession) (extra : Pairs) : Prop where
  held : p.held t = (p.values (rest.map fun q => (q.1, getPairValue pairs q.1))).foldl p.op (p.held s)
  last : p.key ∈ rest.map Prod.fst → p.last extra = some (p.text (p.held t))
  silent : p.key ∉ rest.map Prod.fst → p.last extra = none ∧ p.held t = p.held s

theorem ran_handlePairs (hp : Tracks cfg p) : ∀ (rest : Pairs) {s : LoginSession} {reply : Pairs},
    handlePairs cfg pairs rest s reply = .ok (t, reply') →
      ∃ extra, reply' = reply ++ extra ∧ Ran p pairs rest s t extra
  | [], s, reply, h => by
    obtain ⟨rfl, rfl⟩ := Prod.mk.inj (Except.ok.inj h)
    exact ⟨[], (List.append_nil _).symm, rfl, nofun, fun _ => ⟨rfl, rfl⟩⟩
  | (key, v) :: rest, s, reply, h => by
    obtain ⟨⟨s₂, reply₂⟩, hpair, hrest⟩ := of_bind_ok h
    obtain ⟨extra', rfl, hran⟩ := ran_handlePairs hp rest hrest
    unfold handlePair at hpair
    split at hpair
    · exact absurd hpair nofun
    next handler hl =>
    obtain ⟨⟨s₁, reply₁⟩, hok, hpair⟩ := of_bind_ok hpair
    obtain ⟨rfl, rfl⟩ := Prod.mk.inj (Except.ok.inj hpair)
    obtain ⟨extra, rfl, he⟩ := effect_handle hok
    refine ⟨extra ++ extra', List.append_assoc .., ?_⟩
    have hheld : p.held { s₁ with accepted := s₁.accepted ++ [(key, getPairValue pairs key)] } =
      p.held s₁ :=
      hp.held _ _ rfl rfl
    by_cases hkey : key = p.key
    · subst hkey
      obtain ⟨a, ha, hs₁, hextra⟩ := hp.own handler _ s s₁ extra hl he
      refine ⟨?_, fun _ => ?_, fun hnot => absurd List.mem_cons_self hnot⟩
      · rw [hran.held, hheld, hs₁]
        unfold Parameter.values
        rw [List.map_cons, List.filterMap_cons_some (by rw [if_pos rfl]; exact ha), List.foldl_cons]
      · rw [Parameter.last_append]
        by_cases hmem : p.key ∈ rest.map Prod.fst
        · rw [hran.last hmem]
          rfl
        · obtain ⟨hlast, hsame⟩ := hran.silent hmem
          rw [hlast, hsame, hheld, hextra, Parameter.last_singleton]
          rfl
    · obtain ⟨hs₁, hextra⟩ := hp.other key handler _ s s₁ extra hkey hl he
      have hnone := Parameter.last_none hextra
      have hmem : p.key ∈ ((key, v) :: rest).map Prod.fst ↔ p.key ∈ rest.map Prod.fst := by
        rw [List.map_cons, List.mem_cons]
        exact or_iff_right fun heq => hkey heq.symm
      refine ⟨?_, fun hin => ?_, fun hnot => ?_⟩
      · rw [hran.held, hheld, hs₁]
        unfold Parameter.values
        rw [List.map_cons, List.filterMap_cons_none (by rw [if_neg hkey])]
      · rw [Parameter.last_append, hran.last (hmem.mp hin)]
        rfl
      · obtain ⟨hlast, hsame⟩ := hran.silent fun hin => hnot (hmem.mpr hin)
        rw [Parameter.last_append, hlast, hnone, hsame, hheld, hs₁]
        exact ⟨rfl, rfl⟩

end requests

section logins

variable {A : Type} {cfg : Config} {l : LinearLimitter} {p : Parameter A} {w w' : Target}
  {id fd poolnum : Nat}
  {addr : SessionTask → Nat} {req : LoginRequest}

theorem shiftStage_ok {nsg : UInt8} (h : w.shiftStage id nsg = .ok w') :
    nsg = 3 ∧ (∃ t t', Untouched l (w.ses id) t ∧ t.shift = .ok t' ∧ w'.ses id = t') ∨
      nsg ≠ 3 ∧ w'.ses id = w.ses id := by
  unfold shiftStage at h
  split at h
  next hnsg =>
    obtain rfl := Except.ok.inj h
    refine .inr ⟨?_, rfl⟩
    obtain rfl | rfl := hnsg
    · decide
    · decide
  split at h
  next hnsg =>
    obtain ⟨t', hshift, h⟩ := of_bind_ok h
    obtain rfl := Except.ok.inj h
    have htsih : SameSessions l w (w.setTSIH id) := by
      unfold setTSIH
      split
      · have hnext : SameSessions l w w.getNextTSIH.2 := sameSessions_of_eq rfl rfl
        exact hnext.trans (sameSessions_setSes ⟨rfl, rfl, rfl, rfl, rfl, .refl⟩)
      · exact sameSessions_of_eq rfl rfl
    exact .inl ⟨hnsg, _, t', htsih.sessions id, of_mapError_ok hshift, setSes_ses_self ..⟩
  · exact absurd h nofun

theorem handleLogin_ok (h : w.handleLogin cfg l id fd poolnum addr req = .ok w') :
    ∃ pairs reply s₁ s₂, loginPairs cfg l w id fd poolnum req = .ok (pairs, reply) ∧
      Kept l (firstType (w.ses id) pairs) (w.ses id) s₁ ∧
      handlePairs cfg pairs pairs s₁ [] = .ok (s₂, reply) ∧
        (req.stage = 3 ∧ (∃ t t', Untouched l s₂ t ∧ t.shift = .ok t' ∧ Untouched l t' (w'.ses id)) ∨
          req.stage ≠ 3 ∧ Untouched l s₂ (w'.ses id)) ∧
        ∃ w₃ r tasks, r.pairs = reply ∧ w' = pushTasks w₃ id addr (.sendLogin fd r :: tasks) := by
  unfold handleLogin at h
  split at h
  · exact absurd h nofun
  obtain ⟨pairs, hparse, h⟩ := of_bind_ok h
  obtain ⟨⟨w₁, tasks⟩, hbegin, h⟩ := of_bind_ok h
  obtain ⟨s₁, hs₁, h⟩ := of_bind_ok h
  obtain ⟨_, -, h⟩ := of_bind_ok h
  obtain ⟨⟨w₂, reply⟩, hneg, h⟩ := of_bind_ok h
  obtain ⟨w₃, hshift, h⟩ := of_bind_ok h
  obtain rfl := Except.ok.inj h
  have hbegun : Begun l (firstType (w.ses id) pairs) id w w₁ := by
    have hends := @ends_beginSession l w id fd req pairs
    rw [hbegin] at hends
    exact hends
  have hadvance := untouched_advance (of_ofOption_ok hs₁)
  have hpairs := hneg
  obtain ⟨⟨s₂, reply₂⟩, hrun, hneg⟩ := of_bind_ok hneg
  obtain ⟨rfl, rfl⟩ := Prod.mk.inj (Except.ok.inj hneg)
  have hses : (((w₁.setSes id s₁).advanceSTATSN fd).ses id) = s₁ := setSes_ses_self ..
  have hrun := of_mapError_ok hrun
  rw [hses] at hrun
  have hpush : ∀ tasks, Untouched l (w₃.ses id) ((w₃.pushTasks id addr tasks).ses id) :=
    fun tasks => sameSessions_setTasks.sessions id
  refine ⟨pairs, reply₂, s₁, s₂, ?_, hbegun.own.trans hadvance, hrun, ?_, w₃, _, _, rfl, rfl⟩
  · unfold loginPairs
    rw [hparse]
    show (w.beginSession id fd req pairs >>= _) = _
    rw [hbegin]
    show (ofOption ((w₁.ses id).advanceCMDSNs l poolnum req.immediate) >>= _) = _
    rw [hs₁]
    show (((w₁.setSes id s₁).advanceSTATSN fd).negotiate cfg id pairs >>= _) = _
    rw [hpairs]
    rfl
  · obtain ⟨hstage, t, t', ht, ht', hw₃⟩ | ⟨hstage, hw₃⟩ := @shiftStage_ok l _ _ _ _ hshift
    · rw [setSes_ses_self] at ht
      rw [← hw₃] at ht'
      exact .inl ⟨hstage, t, _, ht, ht', hpush _⟩
    · rw [setSes_ses_self] at hw₃
      refine .inr ⟨hstage, ?_⟩
      rw [← hw₃]
      exact hpush _

/-- A parameter of a session with this log. -/
structure Logged (p : Parameter A) (loaded : A) (g : LoginLog) (s : LoginSession) : Prop where
  held : p.held s = (p.values g.firsts).foldl p.op loaded
  announced : p.key ∈ g.all.map Prod.fst → p.last g.announced = some (p.text (p.held s))

theorem Logged.of_held {loaded : A} {g : LoginLog} {s t : LoginSession} (h : Logged p loaded g s)
    (hst : p.held t = p.held s) : Logged p loaded g t :=
  ⟨hst.trans h.held, fun hkey => (h.announced hkey).trans (by rw [hst])⟩

theorem Logged.ran {loaded : A} {g : LoginLog} {s t : LoginSession} {pairs reply : Pairs}
    (h : Logged p loaded g s)
    (hran : Ran p pairs pairs s t reply) : Logged p loaded
      ⟨g.offered ++ [pairs], g.announced ++ reply⟩ t := by
  have hfirsts : LoginLog.firsts ⟨g.offered ++ [pairs], g.announced ++ reply⟩ = g.firsts ++
      firstValues pairs := by
    unfold LoginLog.firsts
    rw [List.flatMap_append, List.flatMap_singleton]
  have hall : LoginLog.all ⟨g.offered ++ [pairs], g.announced ++ reply⟩ = g.all ++ pairs := by
    unfold LoginLog.all
    rw [List.flatten_append, List.flatten_singleton]
  refine ⟨?_, fun hkey => ?_⟩
  · rw [hran.held, h.held, hfirsts]
    unfold Parameter.values firstValues
    rw [List.filterMap_append, List.foldl_append]
  · rw [hall, List.map_append, List.mem_append] at hkey
    dsimp only
    rw [Parameter.last_append]
    by_cases hmem : p.key ∈ pairs.map Prod.fst
    · rw [hran.last hmem]
      rfl
    · obtain ⟨hlast, hsame⟩ := hran.silent hmem
      rw [hlast, hsame, h.announced (hkey.resolve_right hmem)]
      rfl

theorem shift_held (hp : Tracks cfg p) {t t' : LoginSession} (h : t.shift = .ok t') :
    p.held t' = p.held t := by
  unfold LoginSession.shift at h
  split at h
  · obtain rfl := Except.ok.inj h
    exact hp.held _ _ rfl rfl
  · unfold LoginSession.shift2Normal at h
    split at h
    · exact absurd h nofun
    · obtain rfl := Except.ok.inj h
      exact hp.held _ _ rfl rfl
  · exact absurd h nofun

theorem held_of_kept (hp : Tracks cfg p) {type : SessionType} {s t : LoginSession}
    (h : Kept l type s t) :
    p.held t = p.held s := hp.held _ _ h.nums h.flags

theorem logged_handleLogin (hp : Tracks cfg p) {loaded : A} {g : LoginLog}
    (hg : Logged p loaded g (w.ses id))
    (h : w.handleLogin cfg l id fd poolnum addr req = .ok w') {pairs reply : Pairs}
    (hpairs : loginPairs cfg l w id fd poolnum req = .ok (pairs, reply)) :
    Logged p loaded ⟨g.offered ++ [pairs], g.announced ++ reply⟩ (w'.ses id) := by
  obtain ⟨pairs', reply', s₁, s₂, hpairs', hs₁, hrun, hshift, -⟩ := handleLogin_ok h
  obtain ⟨rfl, rfl⟩ := Prod.mk.inj (Except.ok.inj (hpairs'.symm.trans hpairs))
  obtain ⟨extra, hextra, hran⟩ := ran_handlePairs hp pairs' hrun
  rw [List.nil_append] at hextra
  obtain rfl := hextra
  have hnext := (hg.of_held (held_of_kept hp hs₁)).ran hran
  obtain ⟨-, t, t', ht, ht', hw'⟩ | ⟨-, hw'⟩ := hshift
  · refine hnext.of_held ?_
    rw [held_of_kept hp hw', shift_held hp ht', held_of_kept hp ht]
  · exact hnext.of_held (held_of_kept hp hw')

end logins

section runs

variable {A : Type} {cfg : Config} {l : LinearLimitter} {p : Parameter A} {w w' : LoggedTarget}
  {id fd poolnum : Nat}
  {addr : SessionTask → Nat} {req : LoginRequest} {loaded : A}

theorem act_of_logged {e : TargetEvent} (h : LoggedTarget.step cfg l w e = some w') :
    w.target.act cfg l e = .ok w'.target ∧ w'.log = w.record cfg l e := by
  obtain ⟨target, hstep, rfl⟩ := Option.map_eq_some_iff.mp h
  exact ⟨act_of_step hstep, rfl⟩

theorem logged_other (hp : Tracks cfg p) {g : LoginLog} {e : TargetEvent} {w w' : Target}
    (hg : Logged p loaded g (w.ses id)) (haccept : ∀ fd, e = .accept fd → id ≠ w.accepted)
    (hlogin : ∀ fd poolnum addr req, e ≠ .pdu id fd (.login poolnum addr req))
    (h : w.act cfg l e = .ok w') :
    Logged p loaded g (w'.ses id) := by
  have hQ : ∀ s t, Logged p loaded g s → Untouched l s t → Logged p loaded g t :=
    fun s t hs hk => hs.of_held (held_of_kept hp hk)
  have hact : Ends (fun _ => True) (Next (Logged p loaded g) id w) (Next (Logged p loaded g) id w)
      (w.act cfg l e) := by
    refine ends_act (fun _ _ => trivial) hQ hg (fun fd he hid => absurd hid (haccept fd he))
      (fun _ _ _ _ _ => .inr trivial) fun j fd poolnum addr req he _ => ?_
    have hj : j ≠ id := fun hj => hlogin fd poolnum addr req (hj ▸ he)
    have hnext : ∀ w', OwnLogin l (fun _ => True) j w w' → Next (Logged p loaded g) id w w' :=
      fun w' hw =>
      next_of_own hQ hg ⟨fun hid => absurd hid hj, hw.others, hw.accepted⟩
    exact ends_ownLogin.mono hnext hnext
  rw [h] at hact
  exact hact.1

theorem record_login {g : LoginLog}
    (h : w.record cfg l (.pdu id fd (.login poolnum addr req)) id = some g) :
    ∃ g₀ target pairs reply, w.log id = some g₀ ∧
      w.target.handleLogin cfg l id fd poolnum addr req = .ok target ∧
      w.target.handlePdu cfg l id fd (.login poolnum addr req) = .ok target ∧
        loginPairs cfg l w.target id fd poolnum req = .ok (pairs, reply) ∧
          g = ⟨g₀.offered ++ [pairs], g₀.announced ++ reply⟩ := by
  unfold LoggedTarget.record at h
  dsimp only at h
  rw [Function.update_self] at h
  split at h
  next target pairs reply hok hpairs =>
    obtain ⟨g₀, hg₀, rfl⟩ := Option.map_eq_some_iff.mp h
    refine ⟨g₀, target, pairs, reply, hg₀, ?_, hok, hpairs, rfl⟩
    unfold Target.handlePdu at hok
    dsimp only at hok
    split at hok
    · exact absurd hok nofun
    · exact hok
  · exact absurd h nofun

theorem receive_ok {pdu : Pdu} {w target : Target} (h : w.handlePdu cfg l id fd pdu = .ok target) :
    w.receive cfg l id fd pdu = .ok target := by
  unfold Target.receive
  rw [h]

theorem act_login {w target w' : Target}
    (h : w.act cfg l (.pdu id fd (.login poolnum addr req)) = .ok w')
    (hok : w.handlePdu cfg l id fd (.login poolnum addr req) = .ok target) : w' = target := by
  unfold Target.act at h
  dsimp only at h
  split at h
  · exact Except.ok.inj (h.symm.trans (receive_ok hok))
  · exact absurd h nofun

theorem logged_step (hp : Tracks cfg p) {e : TargetEvent}
    (hloaded : ∀ fd, loaded = p.held (.new cfg.nums cfg.flags fd))
    (hw : ∀ id g, w.log id = some g → Logged p loaded g (w.target.ses id))
    (h : LoggedTarget.step cfg l w e = some w') : ∀ id g, w'.log id = some g →
      Logged p loaded g (w'.target.ses id) := by
  obtain ⟨hact, hlog⟩ := act_of_logged h
  intro id g hg
  rw [hlog] at hg
  by_cases hlogin : ∃ fd poolnum addr req, e = .pdu id fd (.login poolnum addr req)
  · obtain ⟨fd, poolnum, addr, req, rfl⟩ := hlogin
    obtain ⟨g₀, target, pairs, reply, hg₀, hok, hpdu, hpairs, rfl⟩ := record_login hg
    rw [act_login hact hpdu]
    exact logged_handleLogin hp (hw id g₀ hg₀) hok hpairs
  by_cases haccept : ∃ fd, e = .accept fd ∧ id = w.target.accepted
  · obtain ⟨fd, rfl, rfl⟩ := haccept
    unfold LoggedTarget.record at hg
    dsimp only at hg
    rw [Function.update_self] at hg
    obtain rfl := Option.some.inj hg
    unfold Target.act at hact
    dsimp only at hact
    split at hact
    · obtain hacc := Except.ok.inj hact
      rw [← hacc, accept_ses, Function.update_self]
      exact ⟨(hloaded fd).symm, nofun⟩
    · exact absurd hact nofun
  · have hsame : w.log id = some g := by
      unfold LoggedTarget.record at hg
      split at hg
      · rwa [Function.update_of_ne fun hid => haccept ⟨_, rfl, hid⟩] at hg
      · rwa [Function.update_of_ne fun hid => hlogin ⟨_, _, _, _, by rw [hid]⟩] at hg
      · exact hg
    refine logged_other hp (hw id g hsame) (fun fd he hid => haccept ⟨fd, he, hid⟩)
      (fun fd poolnum addr req he => hlogin ⟨fd, poolnum, addr, req, he⟩) hact

theorem logged_of_reachable (hp : Tracks cfg p)
    (hloaded : ∀ fd, loaded = p.held (.new cfg.nums cfg.flags fd))
    (h : Reachable LoggedTarget.start (LoggedTarget.step cfg l) (fun _ _ => True) w) :
    ∀ id g, w.log id = some g → Logged p loaded g (w.target.ses id) :=
  h.invariant (fun w => ∀ id g, w.log id = some g → Logged p loaded g (w.target.ses id))
    (fun _ _ hg => (Option.some_ne_none _ hg.symm).elim) fun _ _ _ hw _ hs =>
      logged_step hp hloaded hw hs

theorem shift_write {t t' : LoginSession} (h : t.shift = .ok t') (hnormal : t'.window.type = .normal) :
    ∃ read mrds, t'.protos opScsiCmd = some (.command read ⟨mrds, t'.nums "FirstBurstLength",
      t'.nums "MaxBurstLength", t'.flags "ImmediateData", t'.flags "InitialR2T"⟩) := by
  unfold LoginSession.shift at h
  split at h
  next htype =>
    obtain rfl := Except.ok.inj h
    exact absurd (htype.symm.trans hnormal) nofun
  · unfold LoginSession.shift2Normal at h
    split at h
    · exact absurd h nofun
    next initiator _ =>
      obtain rfl := Except.ok.inj h
      refine ⟨⟨initiator.maxRecvDataSegmentLength⟩, initiator.maxRecvDataSegmentLength, ?_⟩
      unfold registerNormal
      dsimp only
      rw [register_protos_of_ne (by decide), register_protos_of_ne (by decide),
        register_protos_of_ne (by decide),
        register_protos_of_ne (by decide), register_protos_of_ne (by decide), register_protos_self]
      rfl
  · exact absurd h nofun

theorem login_of_entry {e : TargetEvent} {w w' : Target} (h : w.act cfg l e = .ok w')
    (hbefore : ¬ FullFeature (w.ses id)) (hafter : FullFeature (w'.ses id)) :
    ∃ fd poolnum addr req, e = .pdu id fd (.login poolnum addr req) := by
  by_contra hlogin
  have hQ : ∀ s t, ¬ FullFeature s → Untouched l s t → ¬ FullFeature t := by
    intro s t hs hk hfull
    unfold FullFeature at hs hfull
    rw [hk.protos] at hfull
    exact hs hfull
  have hact : Ends (fun _ => True) (Next (fun s => ¬ FullFeature s) id w)
    (Next (fun s => ¬ FullFeature s) id w)
      (w.act cfg l e) := by
    refine ends_act (fun _ _ => trivial) hQ hbefore (fun fd _ _ hfull => hfull rfl)
      (fun _ _ _ _ _ => .inr trivial)
      fun j fd poolnum addr req he _ => ?_
    have hj : j ≠ id := fun hj => hlogin ⟨fd, poolnum, addr, req, hj ▸ he⟩
    have hnext : ∀ w', OwnLogin l (fun _ => True) j w w' →
        Next (fun s => ¬ FullFeature s) id w w' := fun w' hw =>
      next_of_own hQ hbefore ⟨fun hid => absurd hid hj, hw.others, hw.accepted⟩
    exact ends_ownLogin.mono hnext hnext
  rw [h] at hact
  exact hact.1 hafter

theorem write_of_entry {w target : Target}
    (hok : w.handleLogin cfg l id fd poolnum addr req = .ok target)
    (hbefore : ¬ FullFeature (w.ses id)) (hafter : FullFeature (target.ses id))
    (hnormal : (target.ses id).window.type = .normal) :
    ∃ read mrds, (target.ses id).protos opScsiCmd = some
      (.command read ⟨mrds, (target.ses id).nums "FirstBurstLength",
      (target.ses id).nums "MaxBurstLength", (target.ses id).flags "ImmediateData",
      (target.ses id).flags "InitialR2T"⟩) := by
  obtain ⟨pairs, reply, s₁, s₂, -, hs₁, hrun, ⟨-, t, t', ht, ht', hw'⟩ | ⟨-, hw'⟩, -⟩ :=
    handleLogin_ok hok
  · obtain ⟨read, mrds, hproto⟩ := shift_write ht' (hw'.type_eq.symm.trans hnormal)
    refine ⟨read, mrds, ?_⟩
    rw [hw'.protos, hw'.nums, hw'.flags]
    exact hproto
  · have hkeys : Ends (fun p => p = .pairHandler ∨ p = .initiator) (Negotiating pairs s₁)
        (fun p => Negotiating pairs s₁ p.1) (handlePairs cfg pairs pairs s₁ []) :=
      ends_handlePairs pairs s₁ []
    rw [hrun] at hkeys
    have hprotos : (target.ses id).protos = (w.ses id).protos :=
      hw'.protos.trans (hkeys.protos.trans hs₁.protos)
    unfold FullFeature at hbefore hafter
    rw [hprotos] at hafter
    exact absurd hafter hbefore

theorem Parameter.values_subset (p : Parameter A) (g : LoginLog) :
    p.values g.firsts ⊆ p.values g.all := by
  intro v hv
  obtain ⟨q, hq, hread⟩ := List.mem_filterMap.mp hv
  obtain ⟨pairs, hpairs, hq⟩ := List.mem_flatMap.mp hq
  obtain ⟨r, hr, rfl⟩ := List.mem_map.mp hq
  refine List.mem_filterMap.mpr ⟨_, List.mem_flatten.mpr ⟨pairs, hpairs, ?_⟩, hread⟩
  exact getPairValue_mem (List.mem_map_of_mem hr)

theorem result_iff_enough (hop : Selective p.op) {configured : A} {g : LoginLog} {s : LoginSession}
    (h : Logged p loaded g s) : Result p configured g s ↔ Enough p loaded configured g := by
  unfold Enough
  rw [← hop.foldl_eq_iff (p.values_subset g), ← h.held]
  exact ⟨fun hr => hr.held, fun heq => ⟨heq, h.announced⟩⟩

end runs

section configuration

variable (c : Configurator) (cfg : Config)

theorem sessionNums_key : ∀ p ∈ numKeys, c.sessionNums p.1 = (c.nums (loadedFrom p.1)).toNat := by
  intro p hp
  simp only [numKeys, List.mem_cons, List.not_mem_nil, or_false] at hp
  obtain rfl | rfl | rfl | rfl | rfl | rfl | rfl := hp
  · rfl
  · rfl
  · rfl
  · rfl
  · rfl
  · rfl
  · rfl

theorem sessionFlags_key : ∀ p ∈ flagKeys, c.sessionFlags p.1 = c.flags p.1 := by
  intro p hp
  simp only [flagKeys, List.mem_cons, List.not_mem_nil, or_false] at hp
  obtain rfl | rfl | rfl | rfl := hp
  · rfl
  · rfl
  · rfl
  · rfl

end configuration

/-- In every run, when a Normal session comes to the full feature phase, its parameters
are the results of the negotiation if and only if no value that is not the first of its
request goes beyond the others, the number of outstanding R2Ts is not changed by its
loading, and the first burst is bounded by the maximal one in what was configured and
offered. -/
theorem negotiated_iff_agreed (c : Configurator) (cfg : Config) (l : LinearLimitter)
    {w w' : LoggedTarget}
    (h : Reachable LoggedTarget.start (LoggedTarget.step (c.config cfg) l) (fun _ _ => True) w)
    {e : TargetEvent}
    (hs : LoggedTarget.step (c.config cfg) l w e = some w') {id : Nat} {g : LoginLog}
    (hlog : w'.log id = some g)
    (hbefore : ¬ FullFeature (w.target.ses id)) (hafter : FullFeature (w'.target.ses id))
    (hnormal : (w'.target.ses id).window.type = .normal) :
    Negotiated (c.config cfg) c g (w'.target.ses id) ↔ Agreed (c.config cfg) c g := by
  have hreach := h.step trivial hs
  have hnum : ∀ p ∈ numKeys, Logged (numParameter (c.config cfg) p) (c.nums (loadedFrom p.1)).toNat g
      (w'.target.ses id) := fun p hp =>
    logged_of_reachable (tracks_num _ hp) (fun _ => (sessionNums_key c p hp).symm) hreach id g hlog
  have hflag : ∀ p ∈ flagKeys, Logged (flagParameter p) (c.flags p.1) g (w'.target.ses id) := fun p hp =>
    logged_of_reachable (tracks_flag (c.config cfg) hp)
      (fun _ => (sessionFlags_key c p hp).symm) hreach id g hlog
  have hnumIff : ∀ p ∈ numKeys, Result (numParameter (c.config cfg) p) (c.nums p.1).toNat g
    (w'.target.ses id) ↔
      Enough (numParameter (c.config cfg) p) (c.nums (loadedFrom p.1)).toNat (c.nums p.1).toNat g :=
        fun p hp =>
    result_iff_enough p.2.selective (hnum p hp)
  have hflagIff : ∀ p ∈ flagKeys, Result (flagParameter p) (c.flags p.1) g (w'.target.ses id) ↔
      Enough (flagParameter p) (c.flags p.1) (c.flags p.1) g := fun p hp =>
    result_iff_enough p.2.selective (hflag p hp)
  obtain ⟨hact, hrecord⟩ := act_of_logged hs
  obtain ⟨fd, poolnum, addr, req, rfl⟩ := login_of_entry hact hbefore hafter
  rw [hrecord] at hlog
  obtain ⟨g₀, target, pairs, reply, -, hok, hpdu, -, -⟩ := record_login hlog
  obtain rfl := (act_login hact hpdu).symm
  have hwrite := write_of_entry hok hbefore hafter hnormal
  -- the two burst lengths, by what was configured and offered
  have hbursts : (∀ p ∈ numKeys, Result (numParameter (c.config cfg) p) (c.nums p.1).toNat g
    (w'.target.ses id)) →
      ((w'.target.ses id).nums "FirstBurstLength" ≤ (w'.target.ses id).nums "MaxBurstLength" ↔
        ∃ u ∈ (c.nums "FirstBurstLength").toNat ::
            (numParameter (c.config cfg) ("FirstBurstLength", .min)).values g.all,
          ∀ v ∈ (c.nums "MaxBurstLength").toNat ::
            (numParameter (c.config cfg) ("MaxBurstLength", .min)).values g.all, u ≤ v) := by
    intro hnums
    have hfirst := (hnums ("FirstBurstLength", .min) (by decide)).held
    have hmax := (hnums ("MaxBurstLength", .min) (by decide)).held
    rw [← Selective.foldl_le_foldl_iff]
    exact hfirst ▸ hmax ▸ Iff.rfl
  constructor
  · intro hn
    exact ⟨fun p hp => (hnumIff p hp).mp (hn.nums p hp), fun p hp => (hflagIff p hp).mp (hn.flags p hp),
      (hbursts hn.nums).mp hn.bursts⟩
  · intro ha
    have hnums := fun p hp => (hnumIff p hp).mpr (ha.nums p hp)
    exact ⟨hnums, fun p hp => (hflagIff p hp).mpr (ha.flags p hp), hwrite, (hbursts hnums).mpr ha.bursts⟩

section Sample

/-- One connection, and a number of outstanding R2Ts. -/
def sampleConfigurator (r2ts : UInt32) : Configurator where
  nums key :=
    if key = "MaxOutstandingR2T" then r2ts
    else if key = "MaxConnections" then 1
    else if key ∈ ["DefaultTime2Wait", "DefaultTime2Retain", "ErrorRecoveryLevel"] then 0
    else 65536
  flags _ := true

/-- Texts of decimal digits. -/
def sampleConfig : Config :=
  { oneInitiator with
    lexicalCast := fun _ str =>
      if str.toList.all (·.isDigit) then
        some (str.toList.foldl (fun n d => 10 * n + (d.toNat - 48)) 0)
      else none }

def sampleLogin : TargetEvent :=
  firstLogin ["SessionType=Normal", "InitiatorName=iqn.client", "MaxBurstLength=131072",
    "FirstBurstLength=4096"]

def samplePairs : Pairs :=
  [("SessionType", "Normal"), ("InitiatorName", "iqn.client"), ("MaxBurstLength", "131072"),
    ("FirstBurstLength", "4096")]

def sampleReply : Pairs :=
  [("TargetPortalGroupTag", "1"), ("MaxBurstLength", "65536"), ("FirstBurstLength", "4096")]

def sampleAccepted (r2ts : UInt32) : LoggedTarget :=
  let cfg := (sampleConfigurator r2ts).config sampleConfig
  ⟨Target.start.accept cfg 5, LoggedTarget.record cfg ⟨0, 0⟩ .start (.accept 5)⟩

theorem reachable_sampleAccepted (r2ts : UInt32) :
    Reachable LoggedTarget.start (LoggedTarget.step ((sampleConfigurator r2ts).config sampleConfig)
      ⟨0, 0⟩)
      (fun _ _ => True) (sampleAccepted r2ts) := by
  apply Reachable.step .start trivial
  unfold LoggedTarget.step
  rw [@step_accept _ _ LoggedTarget.start.target 5 (by decide)]
  rfl

/-- A login with both burst lengths, the smaller of each being the result. -/
theorem negotiated_bursts : ∃ w, LoggedTarget.step ((sampleConfigurator 1).config sampleConfig) ⟨0, 0⟩
    (sampleAccepted 1) sampleLogin = some w ∧
      Negotiated ((sampleConfigurator 1).config sampleConfig)
        (sampleConfigurator 1) ⟨[samplePairs], sampleReply⟩
        (w.target.ses 0) := by
  have hstep : (LoggedTarget.step ((sampleConfigurator 1).config sampleConfig) ⟨0, 0⟩ (sampleAccepted 1)
      sampleLogin).map (fun w => (w.log 0, ((w.target.ses 0).protos opLogoutCmd).isSome,
        (w.target.ses 0).window.type)) = some (some ⟨[samplePairs], sampleReply⟩, true, .normal) := by
    decide +kernel
  obtain ⟨w, hw, hvals⟩ := Option.map_eq_some_iff.mp hstep
  obtain ⟨hlog, hvals⟩ := Prod.mk.inj hvals
  obtain ⟨hfull, hnormal⟩ := Prod.mk.inj hvals
  refine ⟨w, hw, (negotiated_iff_agreed (sampleConfigurator 1) sampleConfig ⟨0, 0⟩
    (reachable_sampleAccepted 1) hw hlog
    (fun h => h rfl) (Option.isSome_iff_ne_none.mp hfull) hnormal).mpr ⟨?_, ?_, ?_⟩⟩
  · decide +kernel
  · decide +kernel
  · decide +kernel

/-- The configured number of outstanding R2Ts is not loaded. -/
theorem not_negotiated_outstanding : ¬ ∀ w w' e id g,
    Reachable LoggedTarget.start (LoggedTarget.step ((sampleConfigurator 4).config sampleConfig) ⟨0, 0⟩)
      (fun _ _ => True) w →
    LoggedTarget.step ((sampleConfigurator 4).config sampleConfig) ⟨0, 0⟩ w e = some w' →
      w'.log id = some g →
    ¬ FullFeature (w.target.ses id) → FullFeature (w'.target.ses id) →
      (w'.target.ses id).window.type = .normal →
      Negotiated ((sampleConfigurator 4).config sampleConfig) (sampleConfigurator 4) g
        (w'.target.ses id) := by
  intro hall
  have hstep : (LoggedTarget.step ((sampleConfigurator 4).config sampleConfig) ⟨0, 0⟩ (sampleAccepted 4)
      sampleLogin).map (fun w => (w.log 0, ((w.target.ses 0).protos opLogoutCmd).isSome,
        (w.target.ses 0).window.type, (w.target.ses 0).nums "MaxOutstandingR2T")) =
          some (some ⟨[samplePairs], sampleReply⟩, true, .normal, 1) := by
    decide +kernel
  obtain ⟨w, hw, hvals⟩ := Option.map_eq_some_iff.mp hstep
  obtain ⟨hlog, hvals⟩ := Prod.mk.inj hvals
  obtain ⟨hfull, hvals⟩ := Prod.mk.inj hvals
  obtain ⟨hnormal, hheld⟩ := Prod.mk.inj hvals
  have hn := hall _ _ _ _ _ (reachable_sampleAccepted 4) hw hlog (fun h => h rfl)
    (Option.isSome_iff_ne_none.mp hfull) hnormal
  have hresult := (hn.nums ("MaxOutstandingR2T", .min) (by decide)).held
  have hfour : ((numParameter ((sampleConfigurator 4).config sampleConfig)
    ("MaxOutstandingR2T", .min)).values
      (LoginLog.all ⟨[samplePairs], sampleReply⟩)).foldl NumOp.min.eval
        ((sampleConfigurator 4).nums "MaxOutstandingR2T").toNat = 4 := by decide +kernel
  exact absurd (hheld.symm.trans (hresult.trans hfour)) (by decide)

end Sample

end Negotiation

end Sstoraged
