import Sstoraged.InitiatorInfo

namespace Sstoraged.PeerAuth

open Json InitiatorInfo

variable {Addr : Type} {info : InitiatorInfo Addr} {auth : AuthInfoiSCSI}

/-- There is a peer entry for the stage with the method, and for CHAP with the user name
and the password. -/
def Authorized (info : InitiatorInfo Addr) (auth : AuthInfoiSCSI) : Prop :=
  ∃ peer ∈ info.peers, peer.state = auth.state ∧ peer.method = auth.method ∧
    (auth.method = "CHAP" → peer.name = auth.name ∧ peer.password = auth.password)

/-- No entry of the stage stands in for one with the method that is not there: not with
None, not for a user name and a password with CHAP; and the stage has no entry with a
method other than these two that is asked for. -/
structure NoStandIn (info : InitiatorInfo Addr) (auth : AuthInfoiSCSI) : Prop where
  none : auth.method = "None" → ∀ peer ∈ info.peers, peer.state = auth.state →
    ∃ peer' ∈ info.peers, peer'.state = auth.state ∧ peer'.method = "None"
  chap : auth.method = "CHAP" → ∀ peer ∈ info.peers, peer.state = auth.state → peer.name = auth.name →
    peer.password = auth.password → ∃ peer' ∈ info.peers, peer'.state = auth.state ∧
      peer'.method = "CHAP" ∧
      peer'.name = auth.name ∧ peer'.password = auth.password
  other : auth.method ≠ "None" → auth.method ≠ "CHAP" →
    ∀ peer ∈ info.peers, peer.state = auth.state → peer.method ≠ auth.method

theorem validPeer_none (h : auth.method = "None") :
    info.validPeer auth = true ↔ ∃ peer ∈ info.peers, peer.state = auth.state := by
  have hcontains : contains "None" "None" = true := by decide
  rw [validPeer, h, if_pos hcontains]
  simp only [List.any_eq_true, Bool.and_eq_true, beq_iff_eq, and_true]
  exact exists_congr fun peer => and_congr_right fun _ => eq_comm

theorem validPeer_chap (h : auth.method = "CHAP") : info.validPeer auth = true ↔
    ∃ peer ∈ info.peers, peer.state = auth.state ∧ peer.name = auth.name ∧
      peer.password = auth.password := by
  have hnone : contains "CHAP" "None" = false := by decide
  have hchap : contains "CHAP" "CHAP" = true := by decide
  rw [validPeer, h, hnone, if_neg Bool.false_ne_true, if_pos hchap]
  simp only [List.any_eq_true, Bool.and_eq_true, beq_iff_eq, and_true, and_assoc]
  exact exists_congr fun peer => and_congr_right fun _ => and_congr eq_comm (and_congr eq_comm eq_comm)

theorem validPeer_other (hnone : auth.method ≠ "None") (hchap : auth.method ≠ "CHAP") :
    info.validPeer auth = false := by
  rw [validPeer]
  simp [hnone, hchap]

theorem authorized_iff_method {method : String} (h : auth.method = method) (hmethod : method ≠ "CHAP") :
    Authorized info auth ↔ ∃ peer ∈ info.peers, peer.state = auth.state ∧ peer.method = method := by
  subst h
  simp [Authorized, hmethod]

/-- The check accepts just what is authorized, if and only if no entry stands in for
another. -/
theorem validPeer_right_iff (info : InitiatorInfo Addr) (auth : AuthInfoiSCSI) :
    (info.validPeer auth = true ↔ Authorized info auth) ↔ NoStandIn info auth := by
  by_cases hnone : auth.method = "None"
  · have hchap : auth.method ≠ "CHAP" := by
      rw [hnone]
      decide
    rw [validPeer_none hnone, authorized_iff_method hnone (hnone ▸ hchap)]
    refine ⟨fun h => ⟨fun _ peer hmem hstate => h.mp ⟨peer, hmem, hstate⟩, fun hm => absurd hm hchap,
      fun hm => absurd hnone hm⟩, fun h => ⟨?_, ?_⟩⟩
    · rintro ⟨peer, hmem, hstate⟩
      exact h.none hnone peer hmem hstate
    · rintro ⟨peer, hmem, hstate, -⟩
      exact ⟨peer, hmem, hstate⟩
  by_cases hchap : auth.method = "CHAP"
  · rw [validPeer_chap hchap]
    refine ⟨fun h => ⟨fun hm => absurd hm hnone, fun _ peer hmem hstate hname hpassword => ?_,
      fun _ hm => absurd hchap hm⟩, fun h => ⟨?_, ?_⟩⟩
    · obtain ⟨peer', hmem', hstate', hmethod, hnames⟩ := h.mp ⟨peer, hmem, hstate, hname, hpassword⟩
      exact ⟨peer', hmem', hstate', hmethod.trans hchap, hnames hchap⟩
    · rintro ⟨peer, hmem, hstate, hname, hpassword⟩
      obtain ⟨peer', hmem', hstate', hmethod, hnames⟩ := h.chap hchap peer hmem hstate hname hpassword
      exact ⟨peer', hmem', hstate', hmethod.trans hchap.symm, fun _ => hnames⟩
    · rintro ⟨peer, hmem, hstate, -, hnames⟩
      exact ⟨peer, hmem, hstate, hnames hchap⟩
  · rw [validPeer_other hnone hchap, authorized_iff_method rfl hchap]
    refine ⟨fun h => ⟨fun hm => absurd hm hnone, fun hm => absurd hm hchap,
      fun _ _ peer hmem hstate hmethod => ?_⟩, fun h => iff_of_false Bool.false_ne_true ?_⟩
    · exact Bool.false_ne_true (h.mpr ⟨peer, hmem, hstate, hmethod⟩)
    · rintro ⟨peer, hmem, hstate, hmethod⟩
      exact h.other hnone hchap peer hmem hstate hmethod

section sample

/-- A system without addresses. -/
def noAddr : InetUtil := ⟨Unit, (), fun _ => none, fun _ => none, nofun⟩

/-- An initiator with CHAP for its sessions. -/
def chapObject : Members Attr :=
  [(.initiatorName, .string "iqn.client"), (.authMethod .session, .string "CHAP"),
    (.username .session .initiator, .string "user"), (.password .session .initiator, .string "pass")]

def chapInfo : InitiatorInfo Unit where
  getName := "iqn.client"
  getAlias := "iqn.client"
  address := ()
  peers := [⟨"CHAP", "Session", "user", "pass"⟩]
  myowns := []

theorem new_chapObject : new noAddr chapObject = .ok chapInfo := by
  rfl

/-- It is accepted with None as well. -/
theorem not_validPeer_right : ¬ ∀ (inet : InetUtil) (value : Members Attr)
    (info : InitiatorInfo inet.Addr)
    (auth : AuthInfoiSCSI), new inet value = .ok info →
      (info.validPeer auth = true ↔ Authorized info auth) := by
  intro hall
  have hright := (hall noAddr chapObject chapInfo ⟨"None", "Session", "", ""⟩ new_chapObject).mp
    (by decide)
  obtain ⟨peer, hmem, -, hmethod, -⟩ := hright
  rw [List.mem_singleton.mp hmem] at hmethod
  exact absurd hmethod (by decide)

end sample

end Sstoraged.PeerAuth
