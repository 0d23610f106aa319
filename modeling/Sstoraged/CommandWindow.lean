import Sstoraged.Runs
import Sstoraged.Session

namespace Sstoraged

def cmdQueueSize : Nat := 0x8f

/-- `f(x) = MAX` below the soft limit `x1`, `1` from the hard limit `x2` on, and a
falling line between them. -/
structure LinearLimitter where
  x1 : Nat
  x2 : Nat

namespace LinearLimitter

def ainv (l : LinearLimitter) : Nat := u64 (l.x2 - l.x1) / (cmdQueueSize - 1)

/-- A division by zero has no result. -/
def getY (l : LinearLimitter) (x : Nat) : Option Nat :=
  if x < l.x1 then some cmdQueueSize
  else if l.x2 ≤ x then some 1
  else if l.ainv = 0 then none
  else some (u64 ((cmdQueueSize : Int) - ((x - l.x1) / l.ainv : Nat)))

end LinearLimitter

inductive SessionType
  | login
  | discovery
  | normal
  deriving DecidableEq

/-- The counters of the command window, and how many requests that carry a CmdSN
and are not immediate were accepted. -/
structure CommandWindow where
  type : SessionType
  expcmdsn : Nat
  maxcmdsn : Nat
  accepted : Nat

/-- The requests that a session handles, with the immediate bit of those that carry a
CmdSN. A Login request says which type of session it is for and whether it leads
to the full feature phase. -/
inductive Request
  | login (immediate discovery full : Bool)
  | text (immediate : Bool)
  | logout (immediate : Bool)
  | nopOut (immediate : Bool)
  | taskMng (immediate : Bool)
  | scsiCommand (immediate : Bool)
  | dataOut

namespace CommandWindow

/-- The constructor of the session. -/
def init : CommandWindow := ⟨.login, 1, 2, 0⟩

def getCMDQueue (s : CommandWindow) : Nat := u32 ((s.maxcmdsn : Int) - s.expcmdsn + 1)

/-- The loop of `advanceCMDSNs`. When it does not end there is no result. -/
def refill (queuesize : Nat) : Nat → CommandWindow → Option CommandWindow
  | 0, _ => none
  | fuel + 1, s =>
    if s.getCMDQueue < queuesize then refill queuesize fuel { s with maxcmdsn := advanceSn s.maxcmdsn }
    else some s

def advanceCMDSNs (l : LinearLimitter) (poolnum : Nat) (s : CommandWindow) : Option CommandWindow :=
  (if s.type = .discovery then some 1 else l.getY poolnum).bind fun queuesize =>
    refill queuesize (2 ^ 32) { s with expcmdsn := advanceSn s.expcmdsn }

def shift2Normal (s : CommandWindow) : CommandWindow :=
  { s with maxcmdsn := u32 (s.maxcmdsn + cmdQueueSize) }

/-- What most handlers do: step the window unless the request is immediate. -/
def update (l : LinearLimitter) (poolnum : Nat) (immediate : Bool) (s : CommandWindow) :
    Option CommandWindow := if immediate then some s else s.advanceCMDSNs l poolnum

/-- The first Login request sets the type of the session. -/
def setType (s : CommandWindow) (discovery : Bool) : CommandWindow :=
  if s.type = .login then { s with type := if discovery then .discovery else .normal } else s

/-- The counters after an accepted request; the logout handler and the Data-Out
handler do not touch them. -/
def handle (l : LinearLimitter) (poolnum : Nat) (s : CommandWindow) : Request → Option CommandWindow
  | .login immediate discovery full =>
    ((s.setType discovery).update l poolnum immediate).map fun s =>
      if full ∧ s.type = .normal then s.shift2Normal else s
  | .text immediate | .nopOut immediate | .taskMng immediate | .scsiCommand immediate =>
    s.update l poolnum immediate
  | .logout _ | .dataOut => some s

/-- The request carries a CmdSN that the target has to count. -/
def counted : Request → Bool
  | .login immediate _ _ | .text immediate | .logout immediate | .nopOut immediate
  | .taskMng immediate | .scsiCommand immediate => !immediate
  | .dataOut => false

def step (l : LinearLimitter) (s : CommandWindow) (e : Nat × Request) : Option CommandWindow :=
  (s.handle l e.1 e.2).map fun s' =>
    { s' with accepted := s.accepted + (counted e.2).toNat }

/-- ExpCmdSN counts the accepted requests, and the window is neither empty nor too
large. -/
structure Right (s : CommandWindow) : Prop where
  expcmdsn : s.expcmdsn = u32 (1 + s.accepted)
  pos : 1 ≤ s.getCMDQueue
  le : s.getCMDQueue ≤ cmdQueueSize + 2

/-- `b` does not lie before `a` in the order of serial numbers. -/
def NotBefore (a b : Nat) : Prop := u32 ((b : Int) - a) < 2 ^ 31

/-- The line does not fall below 0 at this pool size, and where it is 0 the window
is not used up. -/
def InRange (l : LinearLimitter) (s : CommandWindow) (poolnum : Nat) : Prop :=
  s.type = .discovery ∨ poolnum < l.x1 ∨ l.x2 ≤ poolnum ∨
    (0 < l.ainv ∧ ((poolnum - l.x1) / l.ainv < cmdQueueSize ∨
      (poolnum - l.x1) / l.ainv = cmdQueueSize ∧ 2 ≤ s.getCMDQueue))

/-- The window that a shift to the full feature phase adds to: it must not have been
filled up, neither before nor by the request itself. -/
def Small (l : LinearLimitter) (s : CommandWindow) (poolnum : Nat) (immediate : Bool) : Prop :=
  if immediate then s.getCMDQueue ≤ 2
  else s.getCMDQueue ≤ 3 ∧ ∃ y ≤ 2, l.getY poolnum = some y

/-- The requests for which the counters do what they are for. -/
def Counted (l : LinearLimitter) (s : CommandWindow) (e : Nat × Request) : Prop :=
  match e.2 with
  | .login immediate discovery full =>
    (immediate = false → InRange l (s.setType discovery) e.1) ∧
      (full = true → (s.setType discovery).type = .normal → Small l s e.1 immediate)
  | .text immediate | .nopOut immediate | .taskMng immediate | .scsiCommand immediate =>
    immediate = false → InRange l s e.1
  | .logout immediate => immediate = true
  | .dataOut => True

variable {l : LinearLimitter} {s s' : CommandWindow}

theorem advanceSn_eq {sn : Nat} (h : sn < 2 ^ 32) : advanceSn sn = u32 ((sn : Int) + 1) := by
  rw [advanceSn, u32]
  split <;> omega

/-- A step of the window that keeps ExpCmdSN. -/
structure Filled (s s' : CommandWindow) (queuesize : Nat) : Prop where
  type : s'.type = s.type
  expcmdsn : s'.expcmdsn = s.expcmdsn
  accepted : s'.accepted = s.accepted
  lt : s'.maxcmdsn < 2 ^ 32
  queue : s'.getCMDQueue = max s.getCMDQueue queuesize
  forward : u32 ((s'.maxcmdsn : Int) - s.maxcmdsn) = s'.getCMDQueue - s.getCMDQueue

theorem refill_filled {queuesize : Nat} (hq : queuesize < 2 ^ 32) (fuel : Nat) :
    ∀ {s : CommandWindow}, s.maxcmdsn < 2 ^ 32 → queuesize - s.getCMDQueue < fuel →
      ∃ s', refill queuesize fuel s = some s' ∧ Filled s s' queuesize := by
  induction fuel with
  | zero =>
    intro s _ hfuel
    omega
  | succ fuel ih =>
    intro s hs hfuel
    rw [refill]
    by_cases hlt : s.getCMDQueue < queuesize
    · have hadv := advanceSn_eq hs
      have hnext : ({ s with maxcmdsn := advanceSn s.maxcmdsn } : CommandWindow).getCMDQueue =
          s.getCMDQueue + 1 := by
        simp only [getCMDQueue, hadv, u32] at hlt ⊢
        omega
      obtain ⟨s', heq, h⟩ := ih (s := { s with maxcmdsn := advanceSn s.maxcmdsn })
        (by dsimp only; rw [hadv]; exact u32_lt _) (by rw [hnext]; omega)
      refine ⟨s', by rw [if_pos hlt, heq], h.type, h.expcmdsn, h.accepted, h.lt, ?_, ?_⟩
      · rw [h.queue, hnext]
        omega
      · have hf := h.forward
        have hqueue := h.queue
        rw [hnext] at hf hqueue
        dsimp only at hf
        rw [hadv] at hf
        simp only [u32] at hf ⊢
        omega
    · refine ⟨s, if_neg hlt, rfl, rfl, rfl, hs, by omega, ?_⟩
      rw [Int.sub_self, Nat.sub_self]
      rfl

theorem refill_none {queuesize : Nat} (hq : 2 ^ 32 ≤ queuesize) (fuel : Nat) (s : CommandWindow) :
    refill queuesize fuel s = none := by
  induction fuel generalizing s with
  | zero => rfl
  | succ fuel ih =>
    have hlt : s.getCMDQueue < 2 ^ 32 := u32_lt _
    rw [refill, if_pos (Nat.lt_of_lt_of_le hlt hq), ih]

theorem refill_isSome_iff {queuesize : Nat} (hs : s.maxcmdsn < 2 ^ 32) :
    (refill queuesize (2 ^ 32) s).isSome = true ↔ queuesize < 2 ^ 32 := by
  by_cases hq : queuesize < 2 ^ 32
  · obtain ⟨s', hs', -⟩ := @refill_filled queuesize hq (2 ^ 32) s hs (by omega)
    exact iff_of_true (Option.isSome_iff_exists.mpr ⟨s', hs'⟩) hq
  · refine iff_of_false ?_ hq
    rw [refill_none (Nat.le_of_not_lt hq)]
    exact Bool.false_ne_true

/-- The window of a session of this type can be stepped: there is a size to fill it up
to, and one of 32 bits. -/
def CanStep (l : LinearLimitter) (poolnum : Nat) (type : SessionType) : Prop :=
  type = .discovery ∨ ∃ y < 2 ^ 32, l.getY poolnum = some y

theorem update_isSome_iff {poolnum : Nat} {immediate : Bool} (hs : s.maxcmdsn < 2 ^ 32) :
    (s.update l poolnum immediate).isSome = true ↔ (immediate = false → CanStep l poolnum s.type) := by
  cases immediate with
  | true => exact iff_of_true rfl nofun
  | false =>
    refine Iff.trans ?_ (imp_iff_right rfl).symm
    have hrefill : ∀ queuesize,
        (refill queuesize (2 ^ 32) { s with expcmdsn := advanceSn s.expcmdsn }).isSome = true ↔
          queuesize < 2 ^ 32 := fun queuesize => refill_isSome_iff hs
    rw [update, if_neg Bool.false_ne_true, advanceCMDSNs, CanStep]
    by_cases hd : s.type = .discovery
    · rw [if_pos hd, Option.bind_some, hrefill]
      exact iff_of_true (by decide) (.inl hd)
    · rw [if_neg hd, or_iff_right hd]
      cases l.getY poolnum with
      | none => exact iff_of_false Bool.false_ne_true fun ⟨_, _, h⟩ => nomatch h
      | some y =>
        rw [Option.bind_some, hrefill]
        refine ⟨fun hy => ⟨y, hy, rfl⟩, ?_⟩
        rintro ⟨y', hy', heq⟩
        obtain rfl := Option.some.inj heq
        exact hy'

theorem getY_inRange {poolnum : Nat} (h : s.type ≠ .discovery) (hin : InRange l s poolnum) :
    ∃ y, l.getY poolnum = some y ∧ (1 ≤ y ∨ 2 ≤ s.getCMDQueue) ∧ y ≤ cmdQueueSize := by
  unfold LinearLimitter.getY
  by_cases hlow : poolnum < l.x1
  · exact ⟨cmdQueueSize, if_pos hlow, .inl (by decide), Nat.le_refl _⟩
  by_cases hhigh : l.x2 ≤ poolnum
  · exact ⟨1, by rw [if_neg hlow, if_pos hhigh], .inl (Nat.le_refl _), by decide⟩
  obtain hd | hp | hp | ⟨hainv, hline⟩ := hin
  · exact absurd hd h
  · exact absurd hp hlow
  · exact absurd hp hhigh
  · rw [if_neg hlow, if_neg hhigh, if_neg (Nat.ne_of_gt hainv)]
    generalize (poolnum - l.x1) / l.ainv = q at hline ⊢
    refine ⟨cmdQueueSize - q, ?_, by omega, Nat.sub_le _ _⟩
    have hsize : cmdQueueSize < 2 ^ 64 := by decide
    rw [Option.some.injEq, u64]
    omega

/-- What a step of the window by one accepted request does. -/
structure Advanced (s s' : CommandWindow) (queuesize : Nat) : Prop where
  type : s'.type = s.type
  expcmdsn : s'.expcmdsn = advanceSn s.expcmdsn
  lt : s'.maxcmdsn < 2 ^ 32
  queue : s'.getCMDQueue = max (s.getCMDQueue - 1) queuesize
  forward : u32 ((s'.maxcmdsn : Int) - s.maxcmdsn) = s'.getCMDQueue - (s.getCMDQueue - 1)

/-- ExpCmdSN counts, MaxCmdSN is a 32-bit number, and the window is right. -/
structure Inv (s : CommandWindow) : Prop extends Right s where
  lt : s.maxcmdsn < 2 ^ 32

theorem Inv.exp_lt (h : Inv s) : s.expcmdsn < 2 ^ 32 := by
  rw [h.expcmdsn]
  exact u32_lt _

theorem advanceCMDSNs_advanced {poolnum : Nat} (h : Inv s) (hin : InRange l s poolnum) :
    ∃ s' queuesize, s.advanceCMDSNs l poolnum = some s' ∧ Advanced s s' queuesize ∧
      (1 ≤ queuesize ∨ 2 ≤ s.getCMDQueue) ∧ queuesize ≤ cmdQueueSize ∧
      (s.type ≠ .discovery → l.getY poolnum = some queuesize) := by
  obtain ⟨queuesize, heq, hpos, hle, hy⟩ : ∃ q, (if s.type = .discovery then some 1
      else l.getY poolnum) = some q ∧ (1 ≤ q ∨ 2 ≤ s.getCMDQueue) ∧ q ≤ cmdQueueSize ∧
      (s.type ≠ .discovery → l.getY poolnum = some q) := by
    by_cases hd : s.type = .discovery
    · exact ⟨1, if_pos hd, .inl (Nat.le_refl _), by decide, fun h => absurd hd h⟩
    · obtain ⟨y, hy, hpos, hle⟩ := getY_inRange hd hin
      exact ⟨y, by rw [if_neg hd, hy], hpos, hle, fun _ => hy⟩
  have hq : queuesize < 2 ^ 32 := Nat.lt_of_le_of_lt hle (by decide)
  obtain ⟨s', hs', hf⟩ := refill_filled hq (2 ^ 32)
    (s := { s with expcmdsn := advanceSn s.expcmdsn }) h.lt (by omega)
  have hnext : ({ s with expcmdsn := advanceSn s.expcmdsn } : CommandWindow).getCMDQueue =
      s.getCMDQueue - 1 := by
    have hp := h.pos
    simp only [getCMDQueue, advanceSn_eq h.exp_lt, u32] at hp ⊢
    omega
  refine ⟨s', queuesize, ?_, ⟨hf.type, hf.expcmdsn, hf.lt, ?_, ?_⟩, hpos, hle, hy⟩
  · rw [advanceCMDSNs, heq]
    exact hs'
  · rw [hf.queue, hnext]
  · rw [← hnext]
    exact hf.forward

/-- The window after the update of a handler, with `n` requests counted more. -/
structure Updated (s s' : CommandWindow) (n : Nat) : Prop where
  expcmdsn : s'.expcmdsn = u32 (1 + (s.accepted + n : Nat))
  lt : s'.maxcmdsn < 2 ^ 32
  pos : 1 ≤ s'.getCMDQueue
  le : s'.getCMDQueue ≤ cmdQueueSize + 2
  forward : NotBefore s.maxcmdsn s'.maxcmdsn

theorem Updated.refl (h : Inv s) : Updated s s 0 where
  expcmdsn := h.expcmdsn
  lt := h.lt
  pos := h.pos
  le := h.le
  forward := by
    rw [NotBefore, Int.sub_self]
    decide

theorem Advanced.updated {queuesize : Nat} (h : Inv s) (hs : Advanced s s' queuesize)
    (hpos : 1 ≤ queuesize ∨ 2 ≤ s.getCMDQueue) (hle : queuesize ≤ cmdQueueSize) :
    Updated s s' 1 where
  expcmdsn := by
    rw [hs.expcmdsn, advanceSn_eq h.exp_lt, h.expcmdsn, u32, u32, u32]
    omega
  lt := hs.lt
  pos := by
    rw [hs.queue]
    omega
  le := by
    have := h.le
    rw [hs.queue]
    omega
  forward := by
    have := h.le
    have hsize : cmdQueueSize + 2 < 2 ^ 31 := by decide
    rw [NotBefore, hs.forward, hs.queue]
    omega

theorem update_updated {poolnum : Nat} {immediate : Bool} (h : Inv s)
    (hin : immediate = false → InRange l s poolnum) :
    ∃ s', s.update l poolnum immediate = some s' ∧ s'.type = s.type ∧
      Updated s s' (!immediate).toNat ∧ (s.type ≠ .discovery → Small l s poolnum immediate →
        s'.getCMDQueue ≤ 2 ∧ u32 ((s'.maxcmdsn : Int) - s.maxcmdsn) ≤ 2) := by
  cases immediate with
  | true =>
    refine ⟨s, rfl, rfl, .refl h, fun _ hsmall => ⟨hsmall, ?_⟩⟩
    rw [Int.sub_self]
    decide
  | false =>
    obtain ⟨s', queuesize, heq, hs, hpos, hle, hy⟩ := advanceCMDSNs_advanced h (hin rfl)
    refine ⟨s', heq, hs.type, hs.updated h hpos hle, fun hd hsmall => ?_⟩
    obtain ⟨hqueue, y, hy2, hsize⟩ : s.getCMDQueue ≤ 3 ∧ ∃ y ≤ 2, l.getY poolnum = some y := hsmall
    rw [hy hd, Option.some.injEq] at hsize
    rw [hs.forward, hs.queue]
    omega

theorem Updated.shift2Normal {n : Nat} (h : Updated s s' n)
    (hsmall : s'.getCMDQueue ≤ 2 ∧ u32 ((s'.maxcmdsn : Int) - s.maxcmdsn) ≤ 2) :
    Updated s s'.shift2Normal n := by
  obtain ⟨hq, hf⟩ := hsmall
  have hsize : cmdQueueSize = 143 := rfl
  have hqueue : s'.shift2Normal.getCMDQueue = s'.getCMDQueue + cmdQueueSize := by
    simp only [getCMDQueue, CommandWindow.shift2Normal, u32] at hq ⊢
    omega
  refine ⟨h.expcmdsn, by exact Nat.mod_lt _ (by decide), by omega, by omega, ?_⟩
  simp only [NotBefore, CommandWindow.shift2Normal, u32] at hf ⊢
  omega

@[simp]
theorem setType_getCMDQueue (s : CommandWindow) (discovery : Bool) :
    (s.setType discovery).getCMDQueue = s.getCMDQueue := by
  rw [setType]
  split <;> rfl

theorem Updated.of_eq {s₁ : CommandWindow} {n : Nat} (h : Updated s₁ s' n)
    (hacc : s₁.accepted = s.accepted) (hmax : s₁.maxcmdsn = s.maxcmdsn) : Updated s s' n where
  expcmdsn := by rw [h.expcmdsn, hacc]
  lt := h.lt
  pos := h.pos
  le := h.le
  forward := by
    rw [← hmax]
    exact h.forward

@[simp]
theorem setType_expcmdsn (s : CommandWindow) (discovery : Bool) :
    (s.setType discovery).expcmdsn = s.expcmdsn := by
  rw [setType]
  split <;> rfl

@[simp]
theorem setType_maxcmdsn (s : CommandWindow) (discovery : Bool) :
    (s.setType discovery).maxcmdsn = s.maxcmdsn := by
  rw [setType]
  split <;> rfl

@[simp]
theorem setType_accepted (s : CommandWindow) (discovery : Bool) :
    (s.setType discovery).accepted = s.accepted := by
  rw [setType]
  split <;> rfl

theorem Inv.setType (h : Inv s) (discovery : Bool) : Inv (s.setType discovery) where
  expcmdsn := by simpa using h.expcmdsn
  pos := by simpa using h.pos
  le := by simpa using h.le
  lt := by simpa using h.lt

/-- Each kind of request, under its condition, has a handler that ends and that counts
the request if it has to. -/
theorem handle_updated {poolnum : Nat} {r : Request} (h : Inv s) (hok : Counted l s (poolnum, r)) :
    ∃ s', s.handle l poolnum r = some s' ∧ Updated s s' (counted r).toNat := by
  have plain : ∀ immediate : Bool, (immediate = false → InRange l s poolnum) →
      ∃ s', s.update l poolnum immediate = some s' ∧ Updated s s' (!immediate).toNat := by
    intro immediate hin
    obtain ⟨s', heq, -, hs, -⟩ := update_updated h hin
    exact ⟨s', heq, hs⟩
  cases r with
  | login immediate discovery full =>
    obtain ⟨hin, hfull⟩ := hok
    obtain ⟨s', heq, htype, hs, hsmall⟩ := update_updated (h.setType discovery) hin
    have hs := hs.of_eq (setType_accepted s discovery) (setType_maxcmdsn s discovery)
    refine ⟨_, congrArg (Option.map _) heq, ?_⟩
    dsimp only [counted]
    split
    next hshift =>
      have hnormal := htype ▸ hshift.2
      have hsmall := hsmall (by rw [hnormal]; decide) (by
        have := hfull hshift.1 hnormal
        rwa [Small, setType_getCMDQueue])
      rw [setType_maxcmdsn] at hsmall
      exact hs.shift2Normal hsmall
    next => exact hs
  | text immediate => exact plain immediate hok
  | nopOut immediate => exact plain immediate hok
  | taskMng immediate => exact plain immediate hok
  | scsiCommand immediate => exact plain immediate hok
  | logout immediate =>
    refine ⟨s, rfl, ?_⟩
    have himm : immediate = true := hok
    rw [himm]
    exact .refl h
  | dataOut => exact ⟨s, rfl, .refl h⟩

theorem step_inv {e : Nat × Request} (h : Inv s) (hok : Counted l s e) :
    ∃ s', step l s e = some s' ∧ Inv s' ∧ NotBefore s.maxcmdsn s'.maxcmdsn := by
  obtain ⟨s₁, heq, hs⟩ := handle_updated h hok
  refine ⟨{ s₁ with accepted := s.accepted + (counted e.2).toNat }, ?_, ?_, hs.forward⟩
  · rw [step, heq, Option.map_some]
  · exact ⟨⟨hs.expcmdsn, hs.pos, hs.le⟩, hs.lt⟩

theorem inv_init : Inv init where
  expcmdsn := rfl
  pos := by decide
  le := by decide
  lt := by decide

open Runs in
theorem inv_of_counted (h : Reachable init (step l) (Counted l) s) : Inv s := by
  refine h.invariant Inv inv_init ?_
  intro s e s' hinv hok hstep
  obtain ⟨t, ht, hinv', -⟩ := step_inv hinv hok
  rw [hstep, Option.some.injEq] at ht
  rwa [ht]

/-- While every request meets the condition of its kind, the counters count, the window
is never empty nor too large, and the next such request is answered and does not move
MaxCmdSN backwards. -/
theorem right_of_counted (l : LinearLimitter) (s : CommandWindow)
    (h : Runs.Reachable init (step l) (Counted l) s) :
    Right s ∧ ∀ e, Counted l s e →
      ∃ s', step l s e = some s' ∧ NotBefore s.maxcmdsn s'.maxcmdsn := by
  have hinv := inv_of_counted h
  refine ⟨hinv.toRight, fun e hok => ?_⟩
  obtain ⟨s', heq, -, hforward⟩ := step_inv hinv hok
  exact ⟨s', heq, hforward⟩

def smallLimits : LinearLimitter := ⟨1019, 2039⟩

/-- A login in one immediate request, and a command. -/
theorem right_login :
    Right ⟨.normal, 2, 145, 1⟩ ∧ ∀ e, Counted smallLimits ⟨.normal, 2, 145, 1⟩ e →
      ∃ s', step smallLimits ⟨.normal, 2, 145, 1⟩ e = some s' ∧ NotBefore 145 s'.maxcmdsn := by
  refine right_of_counted smallLimits ⟨.normal, 2, 145, 1⟩ ?_
  refine .step (s := ⟨.normal, 1, 145, 0⟩) (e := (7, .scsiCommand false)) ?_ ?_ rfl
  · refine .step (e := (7, .login true false true)) .start ?_ rfl
    exact ⟨nofun, fun _ _ => Nat.le_refl 2⟩
  · exact fun _ => .inr (.inl (by decide))

/-- Between the two limits there can be a pool size for which the line is below 0: the
size that the window is filled up to wraps, and the command is never answered. -/
theorem step_none_of_line {poolnum : Nat} (hlow : l.x1 ≤ poolnum) (hhigh : poolnum < l.x2)
    (hline : cmdQueueSize < (poolnum - l.x1) / l.ainv) (hmax : (poolnum - l.x1) / l.ainv < 2 ^ 63)
    (htype : s.type ≠ .discovery) : step l s (poolnum, .scsiCommand false) = none := by
  have hainv : l.ainv ≠ 0 := by
    intro h0
    rw [h0, Nat.div_zero] at hline
    exact absurd hline (Nat.not_lt_zero _)
  have hy : l.getY poolnum = some (u64 ((cmdQueueSize : Int) - ((poolnum - l.x1) / l.ainv : Nat))) := by
    rw [LinearLimitter.getY, if_neg (Nat.not_lt.2 hlow), if_neg (Nat.not_le.2 hhigh), if_neg hainv]
  have hwrap : 2 ^ 32 ≤ u64 ((cmdQueueSize : Int) - ((poolnum - l.x1) / l.ainv : Nat)) := by
    generalize (poolnum - l.x1) / l.ainv = q at hline hmax ⊢
    rw [u64]
    omega
  change ((s.advanceCMDSNs l poolnum).map _) = none
  rw [advanceCMDSNs, if_neg htype, hy, Option.bind_some, refill_none hwrap, Option.map_none]

/-- After a login in one request, a Logout that is not immediate is not counted, and a
command at a pool size near the hard limit is never answered. -/
theorem not_right_logout :
    (Runs.Reachable init (step smallLimits) (fun _ _ => True) ⟨.normal, 1, 145, 1⟩ ∧
      ¬ Right ⟨.normal, 1, 145, 1⟩) ∧
    Runs.Reachable init (step smallLimits) (fun _ _ => True) ⟨.normal, 1, 145, 0⟩ ∧
      step smallLimits ⟨.normal, 1, 145, 0⟩ (2027, .scsiCommand false) = none := by
  have hlogin : Runs.Reachable init (step smallLimits) (fun _ _ => True) ⟨.normal, 1, 145, 0⟩ :=
    .step (e := (7, .login true false true)) .start trivial rfl
  refine ⟨⟨.step (e := (7, .logout false)) hlogin trivial rfl, fun h => ?_⟩, hlogin, ?_⟩
  · exact absurd h.expcmdsn (by decide)
  · exact step_none_of_line (by decide) (by decide) (by decide) (by decide) (by decide)

end CommandWindow

end Sstoraged
