import Sstoraged.CommandWindow

namespace Sstoraged.PoolLimits

open LinearLimitter

def commonRealSize : Nat := 131072 + 512

/-- The limits of the pool that the configuration may have. -/
structure Accepted (soft hard : Nat) : Prop where
  soft_ge : 1048576 ≤ soft
  soft_le : soft ≤ 2 ^ 63 - 1
  hard_ge : 2097152 ≤ hard
  hard_le : hard ≤ 2 ^ 64 - 1

/-- The limits in buffers, where `size` is that of a buffer's object. -/
def getLimitter (size soft hard : Nat) : LinearLimitter :=
  ⟨soft / (commonRealSize + size), hard / (commonRealSize + size)⟩

/-- What the limitter is for: a number of commands for every size of the pool, on a
falling line. -/
structure Limits (l : LinearLimitter) : Prop where
  bounded : ∀ x, ∃ y, l.getY x = some y ∧ 1 ≤ y ∧ y ≤ cmdQueueSize
  exact : ∀ x y, l.getY x = some y → l.x1 ≤ x → x < l.x2 →
    (y : Int) = cmdQueueSize - ((x - l.x1) / l.ainv : Nat)
  falling : ∀ x x' y y', x ≤ x' → l.getY x = some y → l.getY x' = some y' → y' ≤ y

/-- The line falls by one in each step of equal length, and the rest of the division is
no longer than one step. -/
def Even (l : LinearLimitter) : Prop :=
  l.x2 ≤ l.x1 ∨ (cmdQueueSize - 1 ≤ l.x2 - l.x1 ∧
    (l.x2 - l.x1) % (cmdQueueSize - 1) ≤ (l.x2 - l.x1) / (cmdQueueSize - 1))

instance (l : LinearLimitter) : Decidable (Even l) := inferInstanceAs (Decidable (_ ∨ _))

variable {l : LinearLimitter} {x y : Nat}

theorem ainv_eq (hle : l.x1 ≤ l.x2) (h : l.x2 < 2 ^ 64) : l.ainv = (l.x2 - l.x1) / 142 := by
  unfold ainv u64 cmdQueueSize
  congr 1
  omega

theorem getY_between (h₁ : l.x1 ≤ x) (h₂ : x < l.x2) (hpos : l.ainv ≠ 0)
    (hle : (x - l.x1) / l.ainv ≤ cmdQueueSize) :
    l.getY x = some (cmdQueueSize - (x - l.x1) / l.ainv) := by
  unfold getY
  rw [if_neg (Nat.not_lt.mpr h₁), if_neg (Nat.not_le.mpr h₂), if_neg hpos]
  congr 1
  generalize (x - l.x1) / l.ainv = q at hle ⊢
  unfold u64 cmdQueueSize at *
  omega

theorem getY_below (h : x < l.x1) : l.getY x = some cmdQueueSize := if_pos h

theorem getY_above (h₁ : l.x1 ≤ x) (h₂ : l.x2 ≤ x) : l.getY x = some 1 := by
  unfold getY
  rw [if_neg (Nat.not_lt.mpr h₁), if_pos h₂]

theorem steps_le (hx : l.x2 < 2 ^ 64) (heven : Even l) (h₁ : l.x1 ≤ x) (h₂ : x < l.x2) :
    l.ainv ≠ 0 ∧ (x - l.x1) / l.ainv ≤ 142 := by
  obtain hle | ⟨hge, hrest⟩ := heven
  · omega
  have ha := ainv_eq (Nat.le_of_lt (Nat.lt_of_le_of_lt h₁ h₂)) hx
  have hsum := Nat.div_add_mod (l.x2 - l.x1) 142
  unfold cmdQueueSize at hge hrest
  have hpos : 0 < l.ainv := by omega
  refine ⟨Nat.ne_of_gt hpos, Nat.le_of_lt_succ ?_⟩
  rw [Nat.div_lt_iff_lt_mul hpos, ha]
  omega

theorem even_of_steps (hx : l.x2 < 2 ^ 64) (hlt : l.x1 < l.x2) (hpos : l.ainv ≠ 0)
    (hsteps : (l.x2 - 1 - l.x1) / l.ainv ≤ 142) : Even l := by
  have ha := ainv_eq (Nat.le_of_lt hlt) hx
  have hsum := Nat.div_add_mod (l.x2 - l.x1) 142
  have hlast := Nat.lt_mul_of_div_lt (Nat.lt_succ_of_le hsteps) (Nat.pos_of_ne_zero hpos)
  unfold Even cmdQueueSize
  omega

theorem limits_of_even (hx : l.x2 < 2 ^ 64) (heven : Even l) : Limits l := by
  have hbetween : ∀ x, l.x1 ≤ x → x < l.x2 → l.getY x = some (cmdQueueSize - (x - l.x1) / l.ainv) := by
    intro x h₁ h₂
    obtain ⟨hpos, hsteps⟩ := steps_le hx heven h₁ h₂
    exact getY_between h₁ h₂ hpos (Nat.le_trans hsteps (by decide))
  have hcases : ∀ x, (x < l.x1 ∧ l.getY x = some cmdQueueSize) ∨
    (l.x1 ≤ x ∧ l.x2 ≤ x ∧ l.getY x = some 1) ∨
      l.x1 ≤ x ∧ x < l.x2 ∧ (x - l.x1) / l.ainv ≤ 142 ∧
        l.getY x = some (cmdQueueSize - (x - l.x1) / l.ainv) := by
    intro x
    by_cases h₁ : x < l.x1
    · exact .inl ⟨h₁, getY_below h₁⟩
    by_cases h₂ : l.x2 ≤ x
    · exact .inr (.inl ⟨by omega, h₂, getY_above (by omega) h₂⟩)
    · exact .inr (.inr ⟨by omega, by omega, (steps_le hx heven (by omega) (by omega)).2,
        hbetween x (by omega) (by omega)⟩)
  refine ⟨fun x => ?_, fun x y hy h₁ h₂ => ?_, fun x x' y y' hle hy hy' => ?_⟩
  · obtain ⟨-, h⟩ | ⟨-, -, h⟩ | ⟨-, -, hsteps, h⟩ := hcases x
    · exact ⟨_, h, by decide, Nat.le_refl _⟩
    · exact ⟨_, h, Nat.le_refl _, by decide⟩
    · exact ⟨_, h, by unfold cmdQueueSize; omega, Nat.sub_le _ _⟩
  · obtain rfl := Option.some.inj ((hbetween x h₁ h₂).symm.trans hy)
    have hsteps := (steps_le hx heven h₁ h₂).2
    unfold cmdQueueSize
    omega
  · have hmono := Nat.div_le_div_right (c := l.ainv) (Nat.sub_le_sub_right hle l.x1)
    have hx := hcases x
    have hx' := hcases x'
    generalize (x - l.x1) / l.ainv = q at hmono hx
    generalize (x' - l.x1) / l.ainv = q' at hmono hx'
    unfold cmdQueueSize at hx hx'
    obtain ⟨h, hy₁⟩ | ⟨h, h', hy₁⟩ | ⟨h, h', hsteps, hy₁⟩ := hx
    all_goals
      obtain rfl := Option.some.inj (hy₁.symm.trans hy)
      obtain ⟨k, hy₂⟩ | ⟨k, k', hy₂⟩ | ⟨k, k', hsteps', hy₂⟩ := hx'
      all_goals
        obtain rfl := Option.some.inj (hy₂.symm.trans hy')
        omega

theorem even_of_limits (hx : l.x2 < 2 ^ 64) (h : Limits l) : Even l := by
  by_cases hlt : l.x1 < l.x2
  swap
  · exact .inl (Nat.le_of_not_lt hlt)
  have h₁ : l.x1 ≤ l.x2 - 1 := by omega
  have h₂ : l.x2 - 1 < l.x2 := by omega
  obtain ⟨y, hy, hpos, -⟩ := h.bounded (l.x2 - 1)
  have hexact := h.exact _ _ hy h₁ h₂
  have hainv : l.ainv ≠ 0 := by
    intro hzero
    unfold getY at hy
    rw [if_neg (Nat.not_lt.mpr h₁), if_neg (Nat.not_le.mpr h₂), if_pos hzero] at hy
    exact absurd hy nofun
  refine even_of_steps hx hlt hainv ?_
  unfold cmdQueueSize at hexact
  omega

/-- For all limits that the configuration may have, the limitter does its work if and only
if its line is even. -/
theorem limits_iff_even (size : Nat) {soft hard : Nat} (h : Accepted soft hard) :
    Limits (getLimitter size soft hard) ↔ Even (getLimitter size soft hard) := by
  have hx : (getLimitter size soft hard).x2 < 2 ^ 64 := by
    have hle := h.hard_le
    refine Nat.lt_of_le_of_lt (Nat.div_le_self hard _) ?_
    omega
  exact ⟨even_of_limits hx, limits_of_even hx⟩

/-- From 100 buffers to 242, with an object of four words for each: one command less for
each buffer. -/
theorem limits_one_each : Limits (getLimitter 32 13161600 31851072) :=
  (limits_iff_even 32 ⟨by decide, by decide, by decide, by decide⟩).mpr (by decide)

/-- With the default limits the number falls to zero before the hard limit. -/
theorem not_limits_default : ¬ ∀ size soft hard, Accepted soft hard →
    Limits (getLimitter size soft hard) := by
  intro hall
  have hbounded :=
    (hall 32 134217728 268435456 ⟨by decide, by decide, by decide, by decide⟩).bounded 2020
  have hzero : (getLimitter 32 134217728 268435456).getY 2020 = some 0 := by decide
  obtain ⟨y, hy, hpos, -⟩ := hbounded
  obtain rfl := Option.some.inj (hzero.symm.trans hy)
  exact absurd hpos (by decide)

end Sstoraged.PoolLimits
