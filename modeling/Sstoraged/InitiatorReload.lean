import Mathlib.Data.List.Nodup
import Mathlib.Tactic.Tauto
import Sstoraged.PeerAuth

namespace Sstoraged.InitiatorReload

open Json InitiatorInfo

section shape

variable {value : Members Attr} {stage : Stage} {role : Role}

/-- What the methods of a stage amount to. -/
structure StageAuth where
  none : Bool
  initiator : Option (String × String)
  target : Option (String × String)

def chapEntry (stage : Stage) (p : String × String) : AuthInfoiSCSI := ⟨"CHAP", stage.name, p.1, p.2⟩

namespace StageAuth

def noneEntries (a : StageAuth) (stage : Stage) : List AuthInfoiSCSI :=
  if a.none then [⟨"None", stage.name, "", ""⟩] else []

def peers (a : StageAuth) (stage : Stage) : List AuthInfoiSCSI :=
  a.noneEntries stage ++ a.initiator.toList.map (chapEntry stage)

def myowns (a : StageAuth) (stage : Stage) : List AuthInfoiSCSI :=
  a.noneEntries stage ++ a.target.toList.map (chapEntry stage)

end StageAuth

theorem readChap_ok {method : String} {entries : List AuthInfoiSCSI}
    (h : readChap value method stage role = .ok entries) :
    ∃ chap : Option (String × String), entries = chap.toList.map (chapEntry stage) := by
  unfold readChap at h
  split at h
  · obtain ⟨name, -, h⟩ := of_bind_ok h
    obtain ⟨password, -, h⟩ := of_bind_ok h
    exact ⟨some (name, password), (Except.ok.inj h).symm⟩
  · exact ⟨none, (Except.ok.inj h).symm⟩

theorem readStage_ok {lists : List AuthInfoiSCSI × List AuthInfoiSCSI}
    (h : readStage value stage = .ok lists) :
    ∃ a : StageAuth, lists = (a.peers stage, a.myowns stage) := by
  unfold readStage at h
  split at h
  · obtain ⟨method, -, h⟩ := of_bind_ok h
    obtain ⟨peers, hpeers, h⟩ := of_bind_ok h
    obtain ⟨myowns, hmyowns, h⟩ := of_bind_ok h
    obtain ⟨initiator, rfl⟩ := readChap_ok hpeers
    obtain ⟨target, rfl⟩ := readChap_ok hmyowns
    exact ⟨⟨contains method "None", initiator, target⟩, (Except.ok.inj h).symm⟩
  · exact ⟨⟨false, none, none⟩, (Except.ok.inj h).symm⟩

/-- The entries of an initiator that was read. -/
structure Read {Addr : Type} (info : InitiatorInfo Addr) (d s : StageAuth) : Prop where
  peers : info.peers = d.peers .discovery ++ s.peers .session
  myowns : info.myowns = d.myowns .discovery ++ s.myowns .session

theorem read_new {inet : InetUtil} {info : InitiatorInfo inet.Addr} (h : new inet value = .ok info) :
    ∃ d s : StageAuth, Read info d s := by
  unfold new at h
  obtain ⟨_, -, h⟩ := of_bind_ok h
  obtain ⟨_, -, h⟩ := of_bind_ok h
  obtain ⟨_, -, h⟩ := of_bind_ok h
  obtain ⟨discovery, hd, h⟩ := of_bind_ok h
  obtain ⟨session, hs, h⟩ := of_bind_ok h
  obtain ⟨d, rfl⟩ := readStage_ok hd
  obtain ⟨s, rfl⟩ := readStage_ok hs
  obtain rfl := Except.ok.inj h
  exact ⟨d, s, rfl, rfl⟩

end shape

section once

variable {tmp tmp' : Members Attr} {entry : AuthInfoiSCSI} {stage : Stage} {entries : List AuthInfoiSCSI}
  {put : Members Attr → AuthInfoiSCSI → Except (Failure String) (Members Attr)}

/-- A method has been stored for the stage. -/
def Stored (tmp : Members Attr) (stage : Stage) : Prop :=
  ∃ method, method ≠ "" ∧ tmp.lookup (.authMethod stage) = some (.string method)

/-- Nothing is stored for a stage that has a method. -/
def PutsOnce (put : Members Attr → AuthInfoiSCSI → Except (Failure String) (Members Attr)) : Prop :=
  ∀ tmp tmp' entry stage, Stage.ofState entry.state = some stage → entry.method ≠ "" →
    put tmp entry = .ok tmp' →
    ¬ Stored tmp stage ∧ Stored tmp' stage ∧ ∀ stage', Stored tmp stage' → Stored tmp' stage'

theorem putMethod_ok {method : String} (h : putMethod tmp stage method = .ok tmp') :
    ¬ Stored tmp stage ∧ tmp' = tmp.set (.authMethod stage) (.string method) := by
  unfold putMethod at h
  cases hold : tmp.get (.authMethod stage) with
  | array vs =>
    rw [hold] at h
    cases h
  | null =>
    rw [hold] at h
    refine ⟨?_, (Except.ok.inj h).symm⟩
    rintro ⟨old, -, hlookup⟩
    rw [Members.get, hlookup] at hold
    cases hold
  | string old =>
    rw [hold] at h
    obtain ⟨text, htext, h⟩ := of_bind_ok h
    obtain rfl := Except.ok.inj htext
    by_cases hpos : 0 < old.length
    · rw [if_pos hpos] at h
      obtain ⟨_, happend, -⟩ := of_bind_ok h
      cases happend
    · rw [if_neg hpos] at h
      refine ⟨?_, (Except.ok.inj h).symm⟩
      rintro ⟨old', hne, hlookup⟩
      rw [Members.get, hlookup] at hold
      obtain rfl := Value.string.inj hold
      exact hne (String.length_eq_zero_iff.mp (Nat.eq_zero_of_not_pos hpos))

theorem stored_set_of_ne {key : Attr} {v : Value} (h : .authMethod stage ≠ key) :
    Stored (tmp.set key v) stage ↔ Stored tmp stage := by
  unfold Stored
  rw [Members.lookup_set_of_ne h]

theorem stored_putNames {role : Role} {stage' : Stage} :
    Stored (putNames tmp stage' role entry) stage ↔ Stored tmp stage := by
  have husername : Attr.authMethod stage ≠ .username stage' role := nofun
  have hpassword : Attr.authMethod stage ≠ .password stage' role := nofun
  rw [putNames, stored_set_of_ne hpassword, stored_set_of_ne husername]

theorem stored_set {method : String} (hmethod : method ≠ "") {stage' : Stage}
    (h : stage' = stage ∨ Stored tmp stage') :
    Stored (tmp.set (.authMethod stage) (.string method)) stage' := by
  by_cases hstage : stage' = stage
  · subst hstage
    exact ⟨method, hmethod, Members.lookup_set_self ..⟩
  · have hne : Attr.authMethod stage' ≠ .authMethod stage := fun heq => hstage (Attr.authMethod.inj heq)
    exact (stored_set_of_ne hne).mpr (h.resolve_left hstage)

theorem putsOnce_putPeer : PutsOnce putPeer := by
  intro tmp tmp' entry stage hstate hmethod h
  unfold putPeer at h
  rw [hstate] at h
  obtain ⟨tmp₁, hput, h⟩ := of_bind_ok h
  obtain ⟨hfree, rfl⟩ := putMethod_ok hput
  obtain rfl := Except.ok.inj h
  exact ⟨hfree, stored_putNames.mpr (stored_set hmethod (.inl rfl)),
    fun stage' h => stored_putNames.mpr (stored_set hmethod (.inr h))⟩

theorem putsOnce_putMyown : PutsOnce putMyown := by
  intro tmp tmp' entry stage hstate hmethod h
  unfold putMyown at h
  rw [hstate] at h
  obtain ⟨tmp₁, hput, h⟩ := of_bind_ok h
  obtain ⟨hfree, rfl⟩ := putMethod_ok hput
  obtain rfl := Except.ok.inj h
  exact ⟨hfree, stored_putNames.mpr (stored_set hmethod (.inl rfl)),
    fun stage' h => stored_putNames.mpr (stored_set hmethod (.inr (stored_set hmethod (.inr h))))⟩

/-- An entry that the constructor makes has a method, and a stage. -/
def Proper (entry : AuthInfoiSCSI) : Prop :=
  entry.method ≠ "" ∧ ∃ stage, Stage.ofState entry.state = some stage

theorem foldlM_ok (hput : PutsOnce put) (hproper : ∀ entry ∈ entries, Proper entry)
    (h : entries.foldlM put tmp = .ok tmp') :
    (entries.map (·.state)).Nodup ∧
      (∀ stage, Stored tmp stage → Stored tmp' stage ∧
        ∀ entry ∈ entries, Stage.ofState entry.state ≠ some stage) ∧
      ∀ entry ∈ entries, ∀ stage, Stage.ofState entry.state = some stage → Stored tmp' stage := by
  induction entries generalizing tmp with
  | nil =>
    obtain rfl := Except.ok.inj h
    exact ⟨List.nodup_nil, fun stage hs => ⟨hs, nofun⟩, nofun⟩
  | cons entry entries ih =>
    obtain ⟨⟨hmethod, stage, hstage⟩, hrest⟩ := List.forall_mem_cons.mp hproper
    obtain ⟨tmp₁, hfirst, h⟩ := of_bind_ok h
    obtain ⟨hfree, hstored, hkept⟩ := hput _ _ _ _ hstage hmethod hfirst
    obtain ⟨hnodup, hold, hnew⟩ := ih hrest h
    refine ⟨List.nodup_cons.mpr ⟨fun hmem => ?_, hnodup⟩,
      fun stage' hs => ⟨(hold stage' (hkept _ hs)).1, ?_⟩, ?_⟩
    · obtain ⟨entry', hmem', hstate⟩ := List.mem_map.mp hmem
      exact (hold stage hstored).2 entry' hmem' (by rw [hstate, hstage])
    · refine List.forall_mem_cons.mpr ⟨fun heq => ?_, (hold stage' (hkept _ hs)).2⟩
      obtain rfl := Option.some.inj (hstage.symm.trans heq)
      exact hfree hs
    · refine List.forall_mem_cons.mpr ⟨fun stage' heq => ?_, hnew⟩
      obtain rfl := Option.some.inj (hstage.symm.trans heq)
      exact (hold stage hstored).1

end once

section serialize

variable {inet : InetUtil} {early : Bool} {info : InitiatorInfo inet.Addr} {root : Members Attr}
  {d s : StageAuth}

theorem proper_of_read (h : Read info d s) : ∀ entry ∈ info.peers ++ info.myowns, Proper entry := by
  have hentries : ∀ (a : StageAuth) (stage : Stage), ∀ entry ∈ a.peers stage ++ a.myowns stage,
      Proper entry := by
    intro a stage entry hmem
    have hstage : entry.state = stage.name ∧ (entry.method = "None" ∨ entry.method = "CHAP") := by
      simp only [StageAuth.peers, StageAuth.myowns, StageAuth.noneEntries, chapEntry, List.mem_append,
        List.mem_map] at hmem
      split at hmem <;> grind
    refine ⟨?_, stage, by rw [hstage.1, Stage.ofState_name]⟩
    obtain hm | hm := hstage.2 <;> rw [hm] <;> decide
  rw [h.peers, h.myowns]
  intro entry hmem
  have hd := hentries d .discovery entry
  have hs := hentries s .session entry
  simp only [List.mem_append] at hmem hd hs
  tauto

theorem nodup_of_serialize (hproper : ∀ entry ∈ info.peers ++ info.myowns, Proper entry)
    (h : info.serialize inet early = .ok root) : ((info.peers ++ info.myowns).map (·.state)).Nodup := by
  obtain ⟨tmp, hpeers, hmyowns⟩ := of_bind_ok h
  obtain ⟨hpeerProper, hmyownProper⟩ := List.forall_mem_append.mp hproper
  obtain ⟨hnodup, -, hstored⟩ := foldlM_ok putsOnce_putPeer hpeerProper hpeers
  obtain ⟨hnodup', hold, -⟩ := foldlM_ok putsOnce_putMyown hmyownProper hmyowns
  rw [List.map_append]
  refine List.Nodup.append hnodup hnodup' fun state hpeer hmyown => ?_
  obtain ⟨peer, hmem, rfl⟩ := List.mem_map.mp hpeer
  obtain ⟨myown, hmem', hstate⟩ := List.mem_map.mp hmyown
  obtain ⟨-, stage, hstage⟩ := hpeerProper peer hmem
  exact (hold stage (hstored peer hmem stage hstage)).2 myown hmem' (by rw [hstate, hstage])

/-- One entry at most in the two lists of the stage. -/
inductive StageAuth.Single : StageAuth → Prop
  | empty : Single ⟨false, .none, .none⟩
  | initiator (p : String × String) : Single ⟨false, some p, .none⟩
  | target (p : String × String) : Single ⟨false, .none, some p⟩

theorem single_of_nodup {a : StageAuth} {stage : Stage}
    (h : ((a.peers stage ++ a.myowns stage).map (·.state)).Nodup) : a.Single := by
  obtain ⟨none, initiator, target⟩ := a
  cases none with
  | true => simp [StageAuth.peers, StageAuth.myowns, StageAuth.noneEntries] at h
  | false =>
    match initiator, target with
    | .none, .none => exact .empty
    | some p, .none => exact .initiator p
    | .none, some p => exact .target p
    | some p, some q => simp [StageAuth.peers, StageAuth.myowns, StageAuth.noneEntries, chapEntry] at h

theorem single_of_read (h : Read info d s) (hnodup : ((info.peers ++ info.myowns).map (·.state)).Nodup) :
    d.Single ∧ s.Single := by
  rw [h.peers, h.myowns] at hnodup
  have hleft := List.Sublist.append (List.sublist_append_left (d.peers .discovery) (s.peers .session))
    (List.sublist_append_left (d.myowns .discovery) (s.myowns .session))
  have hright := List.Sublist.append (List.sublist_append_right (d.peers .discovery) (s.peers .session))
    (List.sublist_append_right (d.myowns .discovery) (s.myowns .session))
  exact ⟨single_of_nodup (hnodup.sublist (hleft.map _)), single_of_nodup (hnodup.sublist (hright.map _))⟩

/-- The members that stand for the credentials of a role. -/
def chapMembers (stage : Stage) (role : Role) : Option (String × String) → Members Attr
  | none => []
  | some (name, password) =>
    [(.authMethod stage, .string "CHAP"), (.username stage role, .string name),
      (.password stage role, .string password)]

def addressMembers (inet : InetUtil) (early : Bool) (address : inet.Addr) : Members Attr :=
  match inet.getAddrPortStr address with
  | some str => [(.initiatorAddress, .string str)]
  | none => if early then [(.initiatorAddress, .null)] else []

theorem addressMembers_eq (inet : InetUtil) (early : Bool) (address : inet.Addr) :
    addressMembers inet early address = [] ∨ ∃ v, addressMembers inet early address =
      [(.initiatorAddress, v)] := by
  unfold addressMembers
  cases inet.getAddrPortStr address with
  | some str => exact .inr ⟨_, rfl⟩
  | none =>
    cases early with
    | true => exact .inr ⟨_, rfl⟩
    | false => exact .inl rfl

def nameMembers (info : InitiatorInfo inet.Addr) : Members Attr :=
  [(.initiatorName, .string info.getName), (.initiatorAlias, .string info.getAlias)]

theorem putAddress_eq (address : inet.Addr) : putAddress inet early (nameMembers info) address =
    nameMembers info ++ addressMembers inet early address := by
  unfold putAddress addressMembers
  cases inet.getAddrPortStr address with
  | some str => rfl
  | none => cases early <;> rfl

/-- The object that is written. -/
def written (inet : InetUtil) (early : Bool) (info : InitiatorInfo inet.Addr) (d s : StageAuth) :
    Members Attr :=
  nameMembers info ++ addressMembers inet early info.address ++
    (chapMembers .discovery .initiator d.initiator ++ (chapMembers .session .initiator s.initiator ++
      (chapMembers .discovery .target d.target ++ chapMembers .session .target s.target)))

/-- There is nothing for a role at a stage yet. -/
structure Fresh (tmp : Members Attr) (stage : Stage) (role : Role) : Prop where
  authMethod : .authMethod stage ∉ tmp.map Prod.fst
  username : .username stage role ∉ tmp.map Prod.fst
  password : .password stage role ∉ tmp.map Prod.fst

theorem fresh_nil (stage : Stage) (role : Role) : Fresh [] stage role :=
  ⟨List.not_mem_nil, List.not_mem_nil, List.not_mem_nil⟩

theorem Fresh.append {tmp tmp' : Members Attr} {stage : Stage} {role : Role} (h : Fresh tmp stage role)
    (h' : Fresh tmp' stage role) : Fresh (tmp ++ tmp') stage role := by
  have happend : ∀ {key : Attr}, key ∉ tmp.map Prod.fst → key ∉ tmp'.map Prod.fst →
      key ∉ (tmp ++ tmp').map Prod.fst := by
    intro key hkey hkey'
    rw [List.map_append, List.mem_append]
    exact not_or.mpr ⟨hkey, hkey'⟩
  exact ⟨happend h.authMethod h'.authMethod, happend h.username h'.username,
    happend h.password h'.password⟩

theorem fresh_chapMembers {stage stage' : Stage} (hne : stage ≠ stage') (role role' : Role)
    (chap : Option (String × String)) : Fresh (chapMembers stage' role' chap) stage role := by
  cases chap with
  | none => exact fresh_nil stage role
  | some p => constructor <;> simp [chapMembers, hne]

theorem StageAuth.Single.fresh {a : StageAuth} (h : a.Single) (ht : a.target ≠ .none) (stage : Stage) :
    Fresh (chapMembers stage .initiator a.initiator) stage .target := by
  cases h with
  | empty | initiator => exact absurd rfl ht
  | target => exact fresh_nil stage .target

theorem putMethod_eq {tmp : Members Attr} {stage : Stage} (h : .authMethod stage ∉ tmp.map Prod.fst)
    (method : String) :
    putMethod tmp stage method = .ok (tmp ++ [(.authMethod stage, .string method)]) := by
  unfold putMethod
  rw [Members.get_of_not_mem h, ← Members.set_of_not_mem h]
  rfl

theorem putNames_eq {tmp : Members Attr} {stage : Stage} {role : Role} (h : Fresh tmp stage role)
    (p : String × String) :
    putNames (tmp ++ [(.authMethod stage, .string "CHAP")]) stage role (chapEntry stage p) =
      tmp ++ chapMembers stage role (some p) := by
  rw [putNames, Members.set_append_of_not_mem h.username, Members.set_append_of_not_mem h.password]
  rfl

theorem foldlM_putPeer {tmp : Members Attr} {stage : Stage} (chap : Option (String × String))
    (hfresh : chap ≠ none → Fresh tmp stage .initiator) :
    (chap.toList.map (chapEntry stage)).foldlM putPeer tmp = .ok
      (tmp ++ chapMembers stage .initiator chap) := by
  cases chap with
  | none => exact congrArg Except.ok (List.append_nil tmp).symm
  | some p =>
    have h := hfresh (Option.some_ne_none p)
    have hput : putPeer tmp (chapEntry stage p) =
        .ok (tmp ++ chapMembers stage .initiator (some p)) := by
      rw [putPeer, chapEntry, Stage.ofState_name]
      dsimp only
      rw [putMethod_eq h.authMethod, ← putNames_eq h]
      rfl
    rw [Option.toList_some, List.map_singleton, List.foldlM_cons, hput]
    rfl

theorem foldlM_putMyown {tmp : Members Attr} {stage : Stage} (chap : Option (String × String))
    (hfresh : chap ≠ none → Fresh tmp stage .target) :
    (chap.toList.map (chapEntry stage)).foldlM putMyown tmp = .ok
      (tmp ++ chapMembers stage .target chap) := by
  cases chap with
  | none => exact congrArg Except.ok (List.append_nil tmp).symm
  | some p =>
    have h := hfresh (Option.some_ne_none p)
    have hput : putMyown tmp (chapEntry stage p) = .ok (tmp ++ chapMembers stage .target (some p)) := by
      have hset : (tmp ++ [(Attr.authMethod stage, Value.string "CHAP")]).set (.authMethod stage)
        (.string "CHAP") =
          tmp ++ [(.authMethod stage, .string "CHAP")] := by
        rw [Members.set_append_of_not_mem h.authMethod, Members.set, if_pos rfl]
      rw [putMyown, chapEntry, Stage.ofState_name]
      dsimp only
      rw [putMethod_eq h.authMethod]
      refine congrArg Except.ok (Eq.trans ?_ (putNames_eq h p))
      exact congrArg (fun tmp => putNames tmp stage .target (chapEntry stage p)) hset
    rw [Option.toList_some, List.map_singleton, List.foldlM_cons, hput]
    rfl

theorem foldlM_append_ok {f : Members Attr → AuthInfoiSCSI → Except (Failure String) (Members Attr)}
    {entries entries' : List AuthInfoiSCSI} {tmp tmp' tmp'' : Members Attr}
    (h : entries.foldlM f tmp = .ok tmp')
    (h' : entries'.foldlM f tmp' = .ok tmp'') : (entries ++ entries').foldlM f tmp = .ok tmp'' := by
  rw [List.foldlM_append, h]
  exact h'

theorem StageAuth.Single.peers_eq {a : StageAuth} (h : a.Single) (stage : Stage) :
    a.peers stage = a.initiator.toList.map (chapEntry stage) := by cases h <;> rfl

theorem StageAuth.Single.myowns_eq {a : StageAuth} (h : a.Single) (stage : Stage) :
    a.myowns stage = a.target.toList.map (chapEntry stage) := by cases h <;> rfl

theorem not_mem_addressMembers {key : Attr} (h : key ≠ .initiatorAddress) (address : inet.Addr) :
    key ∉ (addressMembers inet early address).map Prod.fst := by
  obtain heq | ⟨v, heq⟩ := addressMembers_eq inet early address
  · rw [heq]
    exact List.not_mem_nil
  · rw [heq]
    exact fun hmem => h (List.mem_singleton.mp hmem)

theorem fresh_names (stage : Stage) (role : Role) :
    Fresh (nameMembers info ++ addressMembers inet early info.address) stage role := by
  refine Fresh.append (by constructor <;> simp [nameMembers]) ?_
  constructor <;> exact not_mem_addressMembers (by nofun) _

theorem serialize_eq (h : Read info d s) (hd : d.Single) (hs : s.Single) :
    info.serialize inet early = .ok (written inet early info d s) := by
  have hbase := @fresh_names inet early info
  have hserialize : info.serialize inet early =
      (info.peers.foldlM putPeer (putAddress inet early (nameMembers info) info.address) >>=
        fun tmp => info.myowns.foldlM putMyown tmp) := rfl
  rw [hserialize, putAddress_eq, h.peers, h.myowns, hd.peers_eq, hs.peers_eq, hd.myowns_eq,
    hs.myowns_eq, written]
  generalize nameMembers info ++ addressMembers inet early info.address = base at hbase
  have hdiscovery := fun role role' chap => fresh_chapMembers
    (nofun : Stage.discovery ≠ .session) role role' chap
  have hsession := fun role role' chap => fresh_chapMembers
    (nofun : Stage.session ≠ .discovery) role role' chap
  have hpeers := foldlM_append_ok (foldlM_putPeer d.initiator fun _ => hbase .discovery .initiator)
    (foldlM_putPeer s.initiator fun _ => (hbase .session .initiator).append (hsession _ _ _))
  have hmyowns := foldlM_append_ok
    (foldlM_putMyown d.target fun ht =>
      ((hbase .discovery .target).append (hd.fresh ht _)).append (hdiscovery _ _ s.initiator))
    (foldlM_putMyown s.target fun ht =>
      (((hbase .session .target).append (hsession _ _ d.initiator)).append (hs.fresh ht _)).append
        (hsession _ _ _))
  rw [hpeers]
  refine Eq.trans hmyowns ?_
  rw [List.append_assoc, List.append_assoc, List.append_assoc]

end serialize

section valid

variable {inet : InetUtil} {early : Bool} {info : InitiatorInfo inet.Addr} {root : Members Attr}
  {d s : StageAuth}

/-- The member is a text that its validator accepts. -/
def MemberValid (inet : InetUtil) (m : Attr × Value) : Prop :=
  ∃ value, m.2 = .string value ∧ (validator inet m.1).any (· value) = true

theorem complaint_eq_none_iff {m : Attr × Value} (hlookup : root.lookup m.1 = some m.2) :
    complaint inet root m.1 = none ↔ MemberValid inet m := by
  have hget : root.get m.1 = m.2 := by rw [Members.get, hlookup, Option.getD_some]
  unfold complaint MemberValid
  rw [hget]
  cases m.2 with
  | null | array =>
    apply iff_of_false
    · intro h
      cases h
    · rintro ⟨_, h, _⟩
      cases h
  | string value =>
    dsimp only
    by_cases hvalid : (validator inet m.1).any (· value) = true
    · rw [if_pos hvalid]
      exact iff_of_true rfl ⟨value, rfl, hvalid⟩
    · rw [if_neg hvalid]
      refine iff_of_false (Option.some_ne_none _) ?_
      rintro ⟨value', heq, h⟩
      obtain rfl := Value.string.inj heq
      exact hvalid h

theorem validAttrs_iff (hnodup : (root.map Prod.fst).Nodup) :
    validAttrs inet root = .ok true ↔ ∀ m ∈ root, MemberValid inet m := by
  have hnil : validAttrs inet root = .ok true ↔
      (root.getMemberNames Attr.name).filterMap (complaint inet root) = [] := by
    unfold validAttrs
    cases (root.getMemberNames Attr.name).filterMap (complaint inet root) with
    | nil => exact iff_of_true rfl rfl
    | cons => exact iff_of_false nofun nofun
  rw [hnil, List.filterMap_eq_nil_iff]
  refine ⟨fun h m hm => ?_, fun h attr hattr => ?_⟩
  · rw [← complaint_eq_none_iff (Members.lookup_of_mem hnodup hm)]
    exact h m.1 (Members.mem_getMemberNames.mpr (List.mem_map.mpr ⟨m, hm, rfl⟩))
  · obtain ⟨m, hm, rfl⟩ := List.mem_map.mp (Members.mem_getMemberNames.mp hattr)
    exact (complaint_eq_none_iff (Members.lookup_of_mem hnodup hm)).mpr (h m hm)

theorem attrsSatisfied_ok (hknown : ∀ m ∈ root, (validator inet m.1).isNone = false)
    (hrequired : ∀ attr ∈ required, attr ∈ root.map Prod.fst) : attrsSatisfied inet root = .ok true := by
  have hnames : ((root.getMemberNames Attr.name).find? fun attr => (validator inet attr).isNone) =
      none := by
    refine List.find?_eq_none.mpr fun attr hattr => ?_
    obtain ⟨m, hm, rfl⟩ := List.mem_map.mp (Members.mem_getMemberNames.mp hattr)
    rw [hknown m hm]
    exact Bool.false_ne_true
  have hfound : (required.find? fun attr => attr ∉ root.getMemberNames Attr.name) = none := by
    refine List.find?_eq_none.mpr fun attr hattr => ?_
    rw [decide_eq_true_iff, Classical.not_not]
    exact Members.mem_getMemberNames.mpr (hrequired attr hattr)
  unfold attrsSatisfied
  rw [hnames]
  dsimp only
  rw [hfound]

theorem forall_mem_chapMembers {P : Attr × Value → Prop} {stage : Stage} {role : Role}
    {chap : Option (String × String)} : (∀ m ∈ chapMembers stage role chap, P m) ↔
      ∀ p ∈ chap, P (.authMethod stage, .string "CHAP") ∧ P (.username stage role, .string p.1) ∧
        P (.password stage role, .string p.2) := by
  cases chap with
  | none => exact iff_of_true nofun nofun
  | some p => simp [chapMembers]

theorem written_known : ∀ m ∈ written inet early info d s, (validator inet m.1).isNone = false := by
  have hchap : ∀ stage role chap, ∀ m ∈ chapMembers stage role chap,
      (validator inet m.1).isNone = false := by
    intro stage role chap
    exact forall_mem_chapMembers.mpr fun p _ => ⟨rfl, rfl, rfl⟩
  have haddress : ∀ m ∈ addressMembers inet early info.address, (validator inet m.1).isNone = false := by
    obtain heq | ⟨v, heq⟩ := addressMembers_eq inet early info.address
    · rw [heq]
      exact nofun
    · rw [heq]
      exact List.forall_mem_singleton.mpr rfl
  have hname : ∀ m ∈ nameMembers info, (validator inet m.1).isNone = false := by
    simp [nameMembers, validator]
  simp only [written, List.forall_mem_append]
  exact ⟨⟨hname, haddress⟩, hchap _ _ _, hchap _ _ _, hchap _ _ _, hchap _ _ _⟩

theorem nodup_written (hd : d.Single) (hs : s.Single) :
    ((written inet early info d s).map Prod.fst).Nodup := by
  unfold written
  obtain heq | ⟨v, heq⟩ := addressMembers_eq inet early info.address
  all_goals
    rw [heq]
    cases hd <;> cases hs <;> simp [nameMembers, chapMembers]

/-- The lengths of the credentials. -/
def CredentialValid (p : String × String) : Prop :=
  lengthValid 1 128 p.1 = true ∧ lengthValid 1 128 p.2 = true

theorem valid_iff (h : Read info d s) (hd : d.Single) (hs : s.Single) :
    info.valid inet early = .ok true ↔
      (lengthValid 1 pathMax info.getName = true ∧ lengthValid 1 pathMax info.getAlias = true) ∧
        (early = true → (inet.getAddrPortStr info.address).isSome = true) ∧
          (∀ p ∈ d.initiator, CredentialValid p) ∧ (∀ p ∈ s.initiator, CredentialValid p) ∧
            (∀ p ∈ d.target, CredentialValid p) ∧ ∀ p ∈ s.target, CredentialValid p := by
  have hsatisfied : attrsSatisfied inet (written inet early info d s) = .ok true := by
    refine attrsSatisfied_ok written_known fun attr hattr => ?_
    simp only [written, List.map_append, List.mem_append]
    refine .inl (.inl ?_)
    simp [required] at hattr
    obtain rfl | rfl := hattr <;> simp [nameMembers]
  have hvalid : info.valid inet early = validAttrs inet (written inet early info d s) := by
    unfold valid
    rw [serialize_eq h hd hs]
    exact congrArg (fun x => Except.bind x fun b =>
      if b = true then validAttrs inet (written inet early info d s) else pure false) hsatisfied
  have hname : (∀ m ∈ nameMembers info, MemberValid inet m) ↔
      lengthValid 1 pathMax info.getName = true ∧ lengthValid 1 pathMax info.getAlias = true := by
    simp [nameMembers, MemberValid, validator]
  have haddress : (∀ m ∈ addressMembers inet early info.address, MemberValid inet m) ↔
      (early = true → (inet.getAddrPortStr info.address).isSome = true) := by
    unfold addressMembers
    cases hstr : inet.getAddrPortStr info.address with
    | some str => simp [MemberValid, validator, inet.getSockAddr_isSome _ _ hstr]
    | none => cases early <;> simp [MemberValid]
  have hchap : ∀ stage role chap, (∀ m ∈ chapMembers stage role chap, MemberValid inet m) ↔
      ∀ p ∈ chap, CredentialValid p := by
    intro stage role chap
    rw [forall_mem_chapMembers]
    simp [MemberValid, validator, CredentialValid]
  rw [hvalid, validAttrs_iff (nodup_written hd hs)]
  simp only [written, List.forall_mem_append]
  rw [hname, haddress, hchap, hchap, hchap, hchap, and_assoc]

end valid

section reload

variable {inet : InetUtil} {early : Bool} {info : InitiatorInfo inet.Addr} {value : Members Attr}
  {d s : StageAuth}

/-- Nothing but the credentials of the roles is there for the stage. -/
def Holds (value : Members Attr) (stage : Stage) (a : StageAuth) : Prop :=
  ∀ key, key = .authMethod stage ∨ (∃ role, key = .username stage role ∨ key = .password stage role) →
    value.lookup key =
      (chapMembers stage .initiator a.initiator ++ chapMembers stage .target a.target).lookup key

theorem lookup_fresh {tmp : Members Attr} {stage : Stage} {key : Attr} (h : ∀ role, Fresh tmp stage role)
    (hkey : key = .authMethod stage ∨ ∃ role, key = .username stage role ∨ key = .password stage role) :
    tmp.lookup key = none := by
  apply Members.lookup_of_not_mem
  obtain rfl | ⟨role, rfl | rfl⟩ := hkey
  · exact (h .initiator).authMethod
  · exact (h role).username
  · exact (h role).password

theorem holds_written : Holds (written inet early info d s) .discovery d ∧
    Holds (written inet early info d s) .session s := by
  have hbase := fun stage => @fresh_names inet early info stage
  refine ⟨fun key hkey => ?_, fun key hkey => ?_⟩
  · have hother := fun role' chap => lookup_fresh (fun role =>
      fresh_chapMembers (nofun : Stage.discovery ≠ .session) role role' chap) hkey
    simp only [written, List.lookup_append, lookup_fresh (hbase _) hkey, hother, Option.none_or,
      Option.or_none]
  · have hother := fun role' chap => lookup_fresh (fun role =>
      fresh_chapMembers (nofun : Stage.session ≠ .discovery) role role' chap) hkey
    simp only [written, List.lookup_append, lookup_fresh (hbase _) hkey, hother, Option.none_or]

theorem readChap_some {stage : Stage} {role : Role} {p : String × String}
    (husername : value.lookup (.username stage role) = some (.string p.1))
    (hpassword : value.lookup (.password stage role) = some (.string p.2)) :
    readChap value "CHAP" stage role = .ok [chapEntry stage p] := by
  have hchap : contains "CHAP" "CHAP" = true := by decide
  unfold readChap Members.isMember Members.get
  rw [hchap, husername, hpassword]
  rfl

theorem readChap_none {method : String} {stage : Stage} {role : Role}
    (husername : value.lookup (.username stage role) = none) :
    readChap value method stage role = .ok [] := by
  unfold readChap Members.isMember
  rw [husername, Option.isSome_none, Bool.and_false, Bool.false_and, if_neg Bool.false_ne_true]
  rfl

theorem readStage_chap {stage : Stage} {peers myowns : List AuthInfoiSCSI}
    (hmethod : value.lookup (.authMethod stage) = some (.string "CHAP"))
    (hpeers : readChap value "CHAP" stage .initiator = .ok peers)
    (hmyowns : readChap value "CHAP" stage .target = .ok myowns) :
    readStage value stage = .ok (peers, myowns) := by
  have hnone : contains "CHAP" "None" = false := by decide
  have hread : readStage value stage = (readChap value "CHAP" stage .initiator >>= fun peers =>
      readChap value "CHAP" stage .target >>= fun myowns =>
        let none := if contains "CHAP" "None" then [{ method := "None", state := stage.name }] else []
        .ok (none ++ peers, none ++ myowns)) := by
    unfold readStage Members.isMember Members.get
    rw [hmethod]
    rfl
  rw [hread, hpeers, hmyowns, hnone]
  rfl

theorem readStage_eq {stage : Stage} {a : StageAuth} (ha : a.Single) (h : Holds value stage a) :
    readStage value stage = .ok (a.peers stage, a.myowns stage) := by
  have hmethod := h (.authMethod stage) (.inl rfl)
  have husername := fun role => h (.username stage role) (.inr ⟨role, .inl rfl⟩)
  have hpassword := fun role => h (.password stage role) (.inr ⟨role, .inr rfl⟩)
  cases ha with
  | empty =>
    unfold readStage Members.isMember
    rw [hmethod]
    rfl
  | initiator p =>
    refine readStage_chap (hmethod.trans ?_)
      (readChap_some ((husername _).trans ?_) ((hpassword _).trans ?_))
      (readChap_none ((husername _).trans ?_))
    all_goals cases stage <;> rfl
  | target p =>
    refine readStage_chap (hmethod.trans ?_) (readChap_none ((husername _).trans ?_))
      (readChap_some ((husername _).trans ?_) ((hpassword _).trans ?_))
    all_goals cases stage <;> rfl

theorem readAddress_written :
    ∃ address, readAddress inet (written inet early info d s) = .ok address := by
  have hlookup : (written inet early info d s).lookup .initiatorAddress =
      (addressMembers inet early info.address).lookup .initiatorAddress := by
    have hchap : ∀ stage role chap, (chapMembers stage role chap).lookup .initiatorAddress = none := by
      intro stage role chap
      cases chap <;> rfl
    have hname : (nameMembers info).lookup .initiatorAddress = none := rfl
    simp only [written, List.lookup_append, hchap, hname, Option.none_or, Option.or_none]
  unfold readAddress Members.isMember Members.get
  rw [hlookup]
  unfold addressMembers
  cases inet.getAddrPortStr info.address with
  | some str => exact ⟨_, rfl⟩
  | none => cases early <;> exact ⟨_, rfl⟩

theorem new_written (h : Read info d s) (hd : d.Single) (hs : s.Single) :
    ∃ info', new inet (written inet early info d s) = .ok info' ∧ info'.getName = info.getName ∧
      info'.getAlias = info.getAlias ∧ info'.peers = info.peers ∧ info'.myowns = info.myowns := by
  obtain ⟨hdiscovery, hsession⟩ := @holds_written inet early info d s
  have hreadD := readStage_eq hd hdiscovery
  have hreadS := readStage_eq hs hsession
  obtain ⟨address, haddress⟩ := @readAddress_written inet early info d s
  refine ⟨{ info with address }, ?_, rfl, rfl, rfl, rfl⟩
  have hnew : new inet (written inet early info d s) =
      (readAddress inet (written inet early info d s) >>= fun address =>
        readStage (written inet early info d s) .discovery >>= fun discovery =>
          readStage (written inet early info d s) .session >>= fun session =>
            .ok { info with address, peers := discovery.1 ++ session.1,
                            myowns := discovery.2 ++ session.2 }) := rfl
  rw [hnew, haddress, hreadD, hreadS, h.peers, h.myowns]
  rfl

end reload

/-- The initiator can be written, what is written is valid, and it is read back with the
same names and entries. -/
def RoundTrips (inet : InetUtil) (early : Bool) (info : InitiatorInfo inet.Addr) : Prop :=
  ∃ root, info.serialize inet early = .ok root ∧ info.valid inet early = .ok true ∧
    ∃ info', new inet root = .ok info' ∧ info'.getName = info.getName ∧ info'.getAlias = info.getAlias ∧
      info'.peers = info.peers ∧ info'.myowns = info.myowns

/-- The lengths are in range, no stage has two entries in the lists, and no empty member is
made for an address that can not be printed. -/
structure Storable (inet : InetUtil) (early : Bool) (info : InitiatorInfo inet.Addr) : Prop where
  getName : lengthValid 1 pathMax info.getName = true
  getAlias : lengthValid 1 pathMax info.getAlias = true
  address : early = true → (inet.getAddrPortStr info.address).isSome = true
  once : ((info.peers ++ info.myowns).map (·.state)).Nodup
  lengths : ∀ entry ∈ info.peers ++ info.myowns,
    lengthValid 1 128 entry.name = true ∧ lengthValid 1 128 entry.password = true

section main

variable {inet : InetUtil} {early : Bool} {info : InitiatorInfo inet.Addr} {d s : StageAuth}

theorem forall_entries_iff (h : Read info d s) (hd : d.Single) (hs : s.Single) :
    (∀ entry ∈ info.peers ++ info.myowns,
      lengthValid 1 128 entry.name = true ∧ lengthValid 1 128 entry.password = true) ↔
      (∀ p ∈ d.initiator, CredentialValid p) ∧ (∀ p ∈ s.initiator, CredentialValid p) ∧
        (∀ p ∈ d.target, CredentialValid p) ∧ ∀ p ∈ s.target, CredentialValid p := by
  have hchap : ∀ (stage : Stage) (chap : Option (String × String)),
      (∀ entry ∈ chap.toList.map (chapEntry stage),
        lengthValid 1 128 entry.name = true ∧ lengthValid 1 128 entry.password = true) ↔
        ∀ p ∈ chap, CredentialValid p := by
    intro stage chap
    cases chap with
    | none => exact iff_of_true nofun nofun
    | some p => simp [chapEntry, CredentialValid]
  rw [h.peers, h.myowns, hd.peers_eq, hs.peers_eq, hd.myowns_eq, hs.myowns_eq]
  simp only [List.forall_mem_append, hchap, and_assoc]

/-- An initiator from the configuration is kept by writing and reading just if it is
storable. -/
theorem roundTrips_iff {value : Members Attr} (h : new inet value = .ok info) :
    RoundTrips inet early info ↔ Storable inet early info := by
  obtain ⟨d, s, hread⟩ := read_new h
  refine ⟨?_, fun hs => ?_⟩
  · rintro ⟨root, hroot, hvalid, -⟩
    have hnodup := nodup_of_serialize (proper_of_read hread) hroot
    obtain ⟨hd, hs⟩ := single_of_read hread hnodup
    obtain ⟨⟨hname, halias⟩, haddress, hentries⟩ := (valid_iff hread hd hs).mp hvalid
    exact ⟨hname, halias, haddress, hnodup, (forall_entries_iff hread hd hs).mpr hentries⟩
  · obtain ⟨hd, hs'⟩ := single_of_read hread hs.once
    have hvalid := (valid_iff hread hd hs').mpr ⟨⟨hs.getName, hs.getAlias⟩, hs.address,
      (forall_entries_iff hread hd hs').mp hs.lengths⟩
    exact ⟨_, serialize_eq hread hd hs', hvalid, new_written hread hd hs'⟩

/-- CHAP for one role. -/
theorem roundTrips_chap : RoundTrips PeerAuth.noAddr false PeerAuth.chapInfo := by
  refine (roundTrips_iff PeerAuth.new_chapObject).mpr ⟨?_, ?_, nofun, ?_, ?_⟩
  all_goals decide

/-- An initiator without authentication, which is an entry for both lists. -/
def noneObject : Members Attr :=
  [(.initiatorName, .string "iqn.client"), (.authMethod .session, .string "None")]

theorem not_roundTrips_none : ¬ ∀ (inet : InetUtil) (early : Bool) (value : Members Attr)
    (info : InitiatorInfo inet.Addr), new inet value = .ok info → RoundTrips inet early info := by
  intro hall
  obtain ⟨root, hroot, -⟩ := hall PeerAuth.noAddr false noneObject
    ⟨"iqn.client", "iqn.client", (), [⟨"None", "Session", "", ""⟩], [⟨"None", "Session", "", ""⟩]⟩ rfl
  have hnodup := @nodup_of_serialize _ _ _ _ (by
    intro entry hmem
    have hnone : entry = ⟨"None", "Session", "", ""⟩ := by simpa using hmem
    rw [hnone]
    exact ⟨by decide, .session, by decide⟩) hroot
  exact absurd hnodup (by decide)

end main

end Sstoraged.InitiatorReload
