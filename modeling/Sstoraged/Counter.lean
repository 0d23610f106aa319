import Sstoraged.IocbBounds

namespace Sstoraged

/-- A counter of an unsigned type of `w` bits. -/
structure NumberCounter (w : Nat) (MIN MAX : BitVec w) where
  counter : BitVec w
  deriving DecidableEq

namespace NumberCounter

variable {w : Nat} {MIN MAX : BitVec w}

/-- What an operator returns or throws, and the counter it leaves. -/
abbrev Outcome (w : Nat) (MIN MAX : BitVec w) := Except String (BitVec w) × NumberCounter w MIN MAX

def new : NumberCounter w MIN MAX := ⟨MIN⟩

def cur (c : NumberCounter w MIN MAX) : BitVec w := c.counter

def increment (c : NumberCounter w MIN MAX) : Outcome w MIN MAX :=
  let tmp := c.counter
  let counter := c.counter + 1
  if MAX ≤ tmp then (.error "Too large to increment", ⟨MAX⟩) else (.ok counter, ⟨counter⟩)

/-- As in the increment, the value before the addition is compared with the bound. -/
def plusEq (c : NumberCounter w MIN MAX) (diff : BitVec w) : Outcome w MIN MAX :=
  let tmp := c.counter
  let counter := c.counter + diff
  if MAX ≤ tmp then (.error "Too large to increment", ⟨MAX⟩) else (.ok counter, ⟨counter⟩)

def decrement (c : NumberCounter w MIN MAX) : Outcome w MIN MAX :=
  let tmp := c.counter
  let counter := c.counter - 1
  if tmp ≤ MIN then (.error "Too small to decrement", ⟨MIN⟩) else (.ok counter, ⟨counter⟩)

inductive Op (w : Nat)
  | increment
  | plusEq (diff : BitVec w)
  | decrement

def apply (c : NumberCounter w MIN MAX) : Op w → Outcome w MIN MAX
  | .increment => c.increment
  | .plusEq diff => c.plusEq diff
  | .decrement => c.decrement

def step (c : NumberCounter w MIN MAX) (op : Op w) : Option (NumberCounter w MIN MAX) :=
  some (c.apply op).2

/-- Where an operation leads without bounds. -/
def Op.target : Op w → BitVec w → Int
  | increment, v => v.toNat + 1
  | plusEq diff, v => v.toNat + diff.toNat
  | decrement, v => v.toNat - 1

def Within (MIN MAX : BitVec w) (v : Int) : Prop := MIN.toNat ≤ v ∧ v ≤ MAX.toNat

def InBounds (c : NumberCounter w MIN MAX) : Prop := Within MIN MAX c.counter.toNat

instance (c : NumberCounter w MIN MAX) : Decidable c.InBounds := inferInstanceAs (Decidable (_ ∧ _))

/-- What an operation on a bounded counter is for. -/
structure Keeps (c : NumberCounter w MIN MAX) (op : Op w) : Prop where
  bounded : (c.apply op).2.InBounds
  throws : (c.apply op).1.toOption = none ↔ ¬ Within MIN MAX (op.target c.counter)
  unchanged : (c.apply op).1.toOption = none → (c.apply op).2 = c

/-- An addition starts below the bound and ends no higher than it, or it starts at the
bound and adds something. -/
def Fits (c : NumberCounter w MIN MAX) : Op w → Prop
  | .plusEq diff => if c.counter < MAX then c.counter.toNat + diff.toNat ≤ MAX.toNat else diff ≠ 0
  | _ => True

variable {c : NumberCounter w MIN MAX}

theorem keeps_of_throws {op : Op w} {what : String} {v : BitVec w} (h : c.InBounds)
    (happly : c.apply op = (.error what, ⟨v⟩)) (hv : c.counter = v) :
    c.Keeps op ↔ ¬ Within MIN MAX (op.target c.counter) := by
  subst hv
  constructor
  · rintro ⟨-, hthrows, -⟩
    rw [happly] at hthrows
    exact hthrows.mp rfl
  · intro hout
    refine ⟨?_, ?_, fun _ => ?_⟩
    · rwa [happly]
    · rw [happly]
      exact iff_of_true rfl hout
    · rw [happly]

/-- An operation that returns is right when neither its value nor the one that it is to
have leaves the bounds. -/
theorem keeps_of_returns {op : Op w} {v : BitVec w} (happly : c.apply op = (.ok v, ⟨v⟩)) :
    c.Keeps op ↔ Within MIN MAX v.toNat ∧ Within MIN MAX (op.target c.counter) := by
  constructor
  · rintro ⟨hbounded, hthrows, -⟩
    rw [happly] at hbounded hthrows
    exact ⟨hbounded, not_not.mp fun hout => nomatch hthrows.mpr hout⟩
  · rintro ⟨hv, htarget⟩
    refine ⟨?_, ?_, fun hthrow => ?_⟩
    · rwa [happly]
    · rw [happly]
      exact iff_of_false nofun (not_not.mpr htarget)
    · rw [happly] at hthrow
      nomatch hthrow

theorem keeps_plusEq_iff (h : c.InBounds) (diff : BitVec w) : c.Keeps (.plusEq diff) ↔
    c.Fits (.plusEq diff) := by
  obtain ⟨hlow, hhigh⟩ := id h
  by_cases hlt : c.counter < MAX
  · have happly : c.apply (.plusEq diff) = (.ok (c.counter + diff), ⟨c.counter + diff⟩) :=
      if_neg (BitVec.not_le.mpr hlt)
    rw [keeps_of_returns happly, Fits, if_pos hlt]
    simp only [Within, Op.target]
    constructor
    · rintro ⟨-, -, htarget⟩
      exact Int.ofNat_le.mp htarget
    · intro hfits
      have hsum : (c.counter + diff).toNat = c.counter.toNat + diff.toNat :=
        BitVec.toNat_add_of_lt (hfits.trans_lt MAX.isLt)
      omega
  · have hcounter : c.counter = MAX := BitVec.le_antisymm (Int.ofNat_le.mp hhigh) (BitVec.not_lt.mp hlt)
    have happly : c.apply (.plusEq diff) = (.error "Too large to increment", ⟨MAX⟩) :=
      if_pos (BitVec.not_lt.mp hlt)
    have hzero : diff = 0 ↔ diff.toNat = 0 := BitVec.toNat_eq
    rw [keeps_of_throws h happly hcounter, Fits, if_neg hlt, Ne, hzero, hcounter]
    rw [hcounter] at hlow
    simp only [Within, Op.target]
    omega

theorem toNat_one (hlt : MIN < MAX) : (1 : BitVec w).toNat = 1 := by
  have hw := MAX.isLt
  have hpos : MIN.toNat < MAX.toNat := hlt
  have hlarge : 1 < 2 ^ w := by omega
  rw [BitVec.ofNat_eq_ofNat, BitVec.toNat_ofNat, Nat.mod_eq_of_lt hlarge]

theorem keeps_increment (hlt : MIN < MAX) (h : c.InBounds) : c.Keeps .increment := by
  have hone := toNat_one hlt
  have hfits : c.Fits (.plusEq 1) := by
    rw [Fits]
    split_ifs with hbelow
    · rw [hone]
      exact hbelow
    · intro hzero
      rw [hzero] at hone
      nomatch hone
  obtain ⟨hbounded, hthrows, hunchanged⟩ := (keeps_plusEq_iff h 1).mpr hfits
  have htarget : (Op.plusEq 1).target c.counter = Op.increment.target c.counter := by
    rw [Op.target, Op.target, hone]
    rfl
  rw [htarget] at hthrows
  exact ⟨hbounded, hthrows, hunchanged⟩

theorem keeps_decrement (hlt : MIN < MAX) (h : c.InBounds) : c.Keeps .decrement := by
  obtain ⟨hlow, hhigh⟩ := id h
  by_cases hle : c.counter ≤ MIN
  · have hcounter : c.counter = MIN := BitVec.le_antisymm hle (Int.ofNat_le.mp hlow)
    have happly : c.apply .decrement = (.error "Too small to decrement", ⟨MIN⟩) := if_pos hle
    rw [keeps_of_throws h happly hcounter, hcounter]
    simp only [Within, Op.target]
    omega
  · have happly : c.apply .decrement = (.ok (c.counter - 1), ⟨c.counter - 1⟩) := if_neg hle
    have habove : MIN.toNat < c.counter.toNat := Nat.not_le.mp hle
    have hone : (1 : BitVec w) ≤ c.counter := by
      rw [BitVec.le_def, toNat_one hlt]
      exact Nat.one_le_of_lt habove
    rw [keeps_of_returns happly, BitVec.toNat_sub_of_le hone, toNat_one hlt]
    simp only [Within, Op.target]
    omega

theorem keeps_iff_fits (hlt : MIN < MAX) (h : c.InBounds) (op : Op w) : c.Keeps op ↔ c.Fits op := by
  cases op with
  | increment => exact iff_of_true (keeps_increment hlt h) trivial
  | plusEq diff => exact keeps_plusEq_iff h diff
  | decrement => exact iff_of_true (keeps_decrement hlt h) trivial

theorem along_cons {P : NumberCounter w MIN MAX → Op w → Prop} {op : Op w} {ops : List (Op w)} :
    Runs.Along step P c (op :: ops) ↔ P c op ∧ Runs.Along step P (c.apply op).2 ops := by
  constructor
  · rintro ⟨hop, hrest⟩
    exact ⟨hop, hrest _ rfl⟩
  · rintro ⟨hop, hrest⟩
    refine ⟨hop, fun c' hstep => ?_⟩
    obtain rfl := Option.some.inj hstep
    exact hrest

/-- Along every sequence of operations, those that follow an exception included. -/
theorem kept_iff_fitting (MIN MAX : BitVec w) (hlt : MIN < MAX) (c : NumberCounter w MIN MAX)
    (h : c.InBounds)
    (ops : List (Op w)) : Runs.Along step Keeps c ops ↔ Runs.Along step Fits c ops := by
  apply Runs.along_iff InBounds (fun c op hc => keeps_iff_fits hlt hc op)
    (fun c op c' _ hkeeps hstep => ?_) h
  obtain rfl := Option.some.inj hstep
  exact hkeeps.bounded

end NumberCounter

/-- Each operation holds the lock of the counter while it runs. -/
abbrev SingletonCounter (MAX : BitVec 64) := NumberCounter 64 0 MAX

namespace SingletonCounter

open NumberCounter

/-- An increment that throws at the bound, and what comes after it. -/
theorem kept_after_throw :
    Runs.Along step Keeps (⟨65535⟩ : SingletonCounter 65535) [.increment, .decrement, .plusEq 1] := by
  refine (kept_iff_fitting 0 65535 (by decide) ⟨65535⟩ (by decide) _).mpr ?_
  rw [along_cons, along_cons, along_cons]
  refine ⟨trivial, trivial, ?_, trivial⟩
  rw [Fits]
  decide

/-- An addition that begins below the bound leaves it, without an exception. -/
theorem not_kept_jump : ¬ ∀ (w : Nat) (MIN MAX : BitVec w), MIN < MAX → ∀ c :
    NumberCounter w MIN MAX, c.InBounds →
    ∀ ops, Runs.Along step Keeps c ops := by
  intro hall
  have hkept := hall 64 0 65535 (by decide) ⟨65534⟩ (by decide) [.plusEq 2]
  have hbounded := (along_cons.mp hkept).1.bounded
  exact absurd hbounded (by decide)

end SingletonCounter

namespace AioDiskWriter

open AioLedger AioSubmission NumberCounter

variable {B : Type} {ix : LbaIndex} {handles : List (Nat × LowHandle)} {s s' : State B ix}
  {mem : B → Nat → UInt8}

/-- The counter of the accepted requests. -/
def State.iocbsCounter (s : State B ix) : SingletonCounter 128 := ⟨BitVec.ofNat 64 s.iocbsTotal⟩

/-- A step leaves the counter alone, or it is one operation, which fits and does not throw. -/
def Counted (s s' : State B ix) : Prop :=
  s'.iocbsCounter = s.iocbsCounter ∨
    ∃ op v, s.iocbsCounter.Fits op ∧ s.iocbsCounter.apply op = (.ok v, s'.iocbsCounter)

theorem toNat_iocbsCounter (h : s.iocbsTotal < 128) : s.iocbsCounter.counter.toNat = s.iocbsTotal := by
  have hlt : s.iocbsTotal < 2 ^ 64 := by omega
  rw [State.iocbsCounter, BitVec.toNat_ofNat, Nat.mod_eq_of_lt hlt]

theorem counted_add (h : s.iocbsTotal < 128) {n : Nat} (hn : s.iocbsTotal + n < 128)
    (hs : s'.iocbsTotal = s.iocbsTotal + n) : Counted s s' := by
  have hcounter := toNat_iocbsCounter h
  have hdiff : (BitVec.ofNat 64 n).toNat = n := by
    have hlt : n < 2 ^ 64 := by omega
    rw [BitVec.toNat_ofNat, Nat.mod_eq_of_lt hlt]
  have hbelow : s.iocbsCounter.counter < 128 := by
    rw [BitVec.lt_def, hcounter]
    exact h
  have hnext : s'.iocbsCounter = ⟨s.iocbsCounter.counter + BitVec.ofNat 64 n⟩ := by
    rw [State.iocbsCounter, State.iocbsCounter, hs, BitVec.ofNat_add]
  refine .inr ⟨.plusEq (BitVec.ofNat 64 n), s.iocbsCounter.counter + BitVec.ofNat 64 n, ?_, ?_⟩
  · rw [Fits, if_pos hbelow, hcounter, hdiff]
    exact hn.le
  · rw [hnext]
    exact if_neg (BitVec.not_le.mpr hbelow)

theorem counted_sub (h : s.iocbsTotal < 128) (hpos : s.iocbsTotal ≠ 0)
    (hs : s'.iocbsTotal = s.iocbsTotal - 1) :
    Counted s s' := by
  have habove : ¬ s.iocbsCounter.counter ≤ 0 := by
    rw [BitVec.le_def, toNat_iocbsCounter h]
    exact fun hle => hpos (Nat.le_zero.mp hle)
  have hone : 1 ≤ s.iocbsTotal := Nat.one_le_iff_ne_zero.mpr hpos
  have hnext : s'.iocbsCounter = ⟨s.iocbsCounter.counter - 1⟩ := by
    rw [State.iocbsCounter, State.iocbsCounter, hs]
    exact congrArg NumberCounter.mk (BitVec.ofNat_sub_ofNat_of_le _ 1 (by decide) hone).symm
  refine .inr ⟨.decrement, s.iocbsCounter.counter - 1, trivial, ?_⟩
  rw [hnext]
  exact if_neg habove

theorem counted_step (hl : Ledger handles s) (h : s.iocbsTotal < 128) (e : Event B)
    (hs : step mem handles s e = some s') : s'.iocbsTotal < 128 ∧ Counted s s' := by
  cases e with
  | push ws filled =>
    cases hs
    exact ⟨h, .inl rfl⟩
  | submit res =>
    obtain ⟨hw, hroom, p, cache, hn, ⟨-, rfl⟩ | ⟨is, hprepare, rfl⟩⟩ := submit_cases hs
    · exact ⟨h, .inl rfl⟩
    · obtain ⟨-, hcount, hlength⟩ :=
        (IocbBounds.prepare_spec p (IocbBounds.next_inside hl hw hn)).1 is hprepare
      have hsum : s.iocbsTotal + is.length < 128 := by
        rw [hlength]
        unfold iocbMax at hroom hcount
        omega
      exact ⟨hsum, counted_add h hsum rfl⟩
  | finish k res junk =>
    obtain ⟨i, -, rfl⟩ := finish_cases hs
    exact ⟨h, .inl rfl⟩
  | getEvents ks =>
    obtain ⟨-, -, batch, done, -, rfl⟩ := getEvents_cases hs
    exact ⟨h, .inl rfl⟩
  | event =>
    obtain ⟨i, res, batch, size, sizes, -, -, ⟨-, rfl⟩ | ⟨-, hpos, -, rfl⟩ | ⟨-, hpos, -, rfl⟩⟩ :=
      event_cases hs
    · exact ⟨h, .inl rfl⟩
    · exact ⟨(Nat.sub_le _ _).trans_lt h, counted_sub h hpos rfl⟩
    · exact ⟨(Nat.sub_le _ _).trans_lt h, counted_sub h hpos rfl⟩

theorem counted_of_reachable (mem : B → Nat → UInt8) (handles : List (Nat × LowHandle)) (disk₀ : Disk)
    (h : Runs.Reachable (start disk₀) (step mem handles) (fun _ _ => True) s) :
    ∀ e s', step mem handles s e = some s' → Counted s s' := by
  have hi := h.invariant (fun s => Ledger handles s ∧ s.iocbsTotal < 128)
    ⟨ledger_start disk₀, Nat.zero_lt_succ _⟩
    fun s e s' hi _ hstep => ⟨ledger_step hi.1 e hstep, (counted_step hi.1 hi.2 e hstep).1⟩
  exact fun e s' hstep => (counted_step hi.1 hi.2 e hstep).2

end AioDiskWriter

end Sstoraged
