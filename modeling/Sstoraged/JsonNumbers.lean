import Mathlib.Algebra.Order.Ring.Nat
import Mathlib.Data.UInt
import Sstoraged.JsonWriter

namespace Sstoraged.JsonText

open Reader

def IsDigit (c : UInt8) : Prop := '0'.toUInt8 ≤ c ∧ c ≤ '9'.toUInt8

/-- The number that digits go on with. -/
def decimal (n : Nat) (t : Text) : Nat := t.foldl (fun n c => n * 10 + (c - '0'.toUInt8).toNat) n

theorem isDigit_iff {c : UInt8} : IsDigit c ↔ 48 ≤ c.toNat ∧ c.toNat ≤ 57 := by
  simp only [IsDigit, UInt8.le_iff_toNat_le]
  rfl

theorem digit_toNat {c : UInt8} (h : IsDigit c) : (c - '0'.toUInt8).toNat = c.toNat - 48 :=
  UInt8.toNat_sub_of_le _ _ h.1

theorem not_digit {c : UInt8} (h : IsDigit c) : ¬ (c < '0'.toUInt8 ∨ '9'.toUInt8 < c) :=
  not_or.mpr ⟨UInt8.not_lt.mpr h.1, UInt8.not_lt.mpr h.2⟩

section decoding

variable {t : Text}

theorem le_decimal (n : Nat) (t : Text) : n ≤ decimal n t := by
  induction t generalizing n with
  | nil => exact Nat.le_refl n
  | cons c t ih => exact Nat.le_trans (by omega) (ih (n * 10 + (c - '0'.toUInt8).toNat))

/-- No digit that is taken in makes the number so far wrap. -/
def Unwrapped (threshold value : UInt64) : Text → Prop
  | [] => True
  | c :: rest => IsDigit c → value < threshold →
    (value * 10 + (c - '0'.toUInt8).toUInt64).toNat = value.toNat * 10 + (c - '0'.toUInt8).toNat ∧
      Unwrapped threshold (value * 10 + (c - '0'.toUInt8).toUInt64) rest

theorem next_toNat {threshold value : UInt64} (hthreshold : threshold.toNat * 10 ≤ 2 ^ 64) {c : UInt8}
    (hc : IsDigit c) (h : value < threshold) :
    (value * 10 + (c - '0'.toUInt8).toUInt64).toNat = value.toNat * 10 + (c - '0'.toUInt8).toNat := by
  have hsmall : value.toNat < threshold.toNat := UInt64.lt_iff_toNat_lt.mp h
  have hnine : (c - '0'.toUInt8).toNat ≤ 9 := by
    rw [digit_toNat hc]
    have := isDigit_iff.mp hc
    omega
  simp only [UInt64.toNat_add, UInt64.toNat_mul, UInt8.toNat_toUInt64, UInt64.reduceToNat]
  omega

theorem unwrapped {threshold : UInt64} (hthreshold : threshold.toNat * 10 ≤ 2 ^ 64)
    (value : UInt64) (t : Text) :
    Unwrapped threshold value t := by
  induction t generalizing value with
  | nil => trivial
  | cons c t ih =>
    intro hc h
    exact ⟨next_toNat hthreshold hc h, ih _⟩

theorem decodeDigits_eq {threshold : UInt64} (hthreshold : threshold.toNat * 10 ≤ 2 ^ 64)
    (ht : ∀ c ∈ t, IsDigit c) (value : UInt64) : decodeDigits threshold value t =
      if t = [] ∨ decimal value.toNat t / 10 < threshold.toNat then .value
        (UInt64.ofNat (decimal value.toNat t))
      else .large := by
  induction t generalizing value with
  | nil => simp [decodeDigits, decimal]
  | cons c t ih =>
    obtain ⟨hc, ht⟩ := List.forall_mem_cons.mp ht
    have hdigit : ¬ (c < '0'.toUInt8 ∨ '9'.toUInt8 < c) := not_digit hc
    have hvalue : decimal value.toNat (c :: t) = decimal
        (value.toNat * 10 + (c - '0'.toUInt8).toNat) t := rfl
    have hle := le_decimal (value.toNat * 10 + (c - '0'.toUInt8).toNat) t
    rw [decodeDigits, if_neg hdigit]
    by_cases hlarge : threshold ≤ value
    · have hlarge' : threshold.toNat ≤ value.toNat := UInt64.le_iff_toNat_le.mp hlarge
      rw [if_pos hlarge, if_neg]
      simp only [List.cons_ne_nil, false_or, hvalue]
      omega
    · have hnext := next_toNat hthreshold hc (UInt64.not_le.mp hlarge)
      rw [if_neg hlarge, ih ht, hnext, ← hvalue]
      refine if_congr ?_ rfl rfl
      simp only [List.cons_ne_nil, false_or, or_iff_right_iff_imp]
      rintro rfl
      rw [hvalue]
      change (value.toNat * 10 + (c - '0'.toUInt8).toNat) / 10 < _
      have hsmall := UInt64.lt_iff_toNat_lt.mp (UInt64.not_le.mp hlarge)
      rw [digit_toNat hc]
      have := isDigit_iff.mp hc
      omega

theorem inDouble_of_isDigit {c : UInt8} (h : IsDigit c) : inDouble c = false ∧ c ≠ '-'.toUInt8 := by
  have hall : (text "0123456789-").all (!inDouble ·) = true := rfl
  refine ⟨?_, ?_⟩
  · have hbegins : beginsNumber c = true := (Bool.or_eq_true ..).mpr (.inl (decide_eq_true h))
    simpa using List.all_eq_true.mp hall c (mem_of_beginsNumber hbegins)
  · rintro rfl
    exact absurd h.1 (by decide)

theorem isDouble_digits (ht : ∀ c ∈ t, IsDigit c) : isDouble t = false := by
  rw [isDouble, Bool.or_eq_false_iff, List.any_eq_false, List.any_eq_false]
  refine ⟨fun c hc => ?_, fun c hc => ?_⟩
  · simp [(inDouble_of_isDigit (ht c hc)).1]
  · simp [(inDouble_of_isDigit (ht c (List.mem_of_mem_tail hc))).2]

variable (D : Doubles)

theorem head_digits (ht : ∀ c ∈ t, IsDigit c) : ¬ t.head? = some '-'.toUInt8 := fun h =>
  (inDouble_of_isDigit (ht _ (List.mem_of_mem_head? h))).2 rfl

theorem threshold_le : (maxUInt / 10).toNat * 10 ≤ 2 ^ 64 := by decide

theorem decodeDigits_maxUInt (hne : t ≠ []) (ht : ∀ c ∈ t, IsDigit c) : decodeDigits (maxUInt / 10) 0 t =
    if decimal 0 t < 18446744073709551610 then .value (UInt64.ofNat (decimal 0 t)) else .large := by
  have hthreshold : (maxUInt / 10).toNat = 1844674407370955161 := by decide
  have hzero : (0 : UInt64).toNat = 0 := rfl
  rw [decodeDigits_eq threshold_le ht 0, hthreshold, hzero]
  refine if_congr ?_ rfl rfl
  simp only [hne, false_or]
  omega

theorem decodeNumber_digits (hne : t ≠ []) (ht : ∀ c ∈ t, IsDigit c) : decodeNumber D t =
    if decimal 0 t < 18446744073709551610 then .ok (.int (Int32.ofNat (decimal 0 t)))
      else decodeDouble D t := by
  have hmax : ∀ value, value ≤ toUInt maxInt := fun value => UInt64.le_iff_toNat_le.mpr
    (Nat.le_of_lt_succ (UInt64.toNat_lt value))
  simp only [decodeNumber, isDouble_digits ht, head_digits ht, Bool.false_eq_true, if_false,
    decodeDigits_maxUInt hne ht]
  by_cases h : decimal 0 t < 18446744073709551610
  · simp only [if_pos h, hmax, if_true, toInt, UInt64.toUInt32_ofNat', UInt32.toInt32_ofNat']
  · simp only [if_neg h]

theorem toUInt_toNat {n : Int32} (h : 0 ≤ n) : (toUInt n).toNat = n.toInt.toNat := by
  have hle : (0 : Int64) ≤ n.toInt64 := Int64.le_iff_toInt_le.mpr (by
    rw [Int32.toInt_toInt64]
    exact Int32.le_iff_toInt_le.mp h)
  exact (Int64.toNat_toUInt64_of_le hle).trans (Int32.toNatClampNeg_toInt64 n)

/-- The conversion stores inside its buffer just if the length is neither negative as an
`int` nor the size of the buffer. -/
theorem stores_inside_iff (token : Text) : (∀ store ∈ decodeDoubleStores token, InBuffer store) ↔
    0 ≤ Int32.ofNat token.length ∧ Int32.ofNat token.length ≠ bufferSize := by
  have hsize : bufferSize.toInt = 32 := rfl
  have hzero : (0 : Int32).toInt = 0 := rfl
  simp only [decodeDoubleStores, ne_eq, ← Int32.toInt_inj, Int32.le_iff_toInt_le, hsize, hzero]
  split
  · simp only [List.forall_mem_cons, InBuffer, hsize]
    constructor
    · rintro ⟨-, ⟨hnonneg, hinside⟩, -⟩
      omega
    · rintro ⟨hnonneg, hne⟩
      rw [toUInt_toNat (Int32.le_iff_toInt_le.mpr hnonneg)]
      exact ⟨by omega, by omega, List.forall_mem_nil _⟩
  · refine iff_of_true (List.forall_mem_nil _) ?_
    omega

theorem numberStores_inside_iff (hne : t ≠ []) (ht : ∀ c ∈ t, IsDigit c) :
    (∀ store ∈ decodeNumberStores t, InBuffer store) ↔ (18446744073709551610 ≤ decimal 0 t →
      0 ≤ Int32.ofNat t.length ∧ Int32.ofNat t.length ≠ bufferSize) := by
  simp only [decodeNumberStores, isDouble_digits ht, head_digits ht, Bool.false_eq_true, if_false,
    decodeDigits_maxUInt hne ht]
  by_cases h : decimal 0 t < 18446744073709551610
  · rw [if_pos h]
    exact iff_of_true (List.forall_mem_nil _) fun hle => absurd hle (Nat.not_le_of_lt h)
  · rw [if_neg h, forall_prop_of_true (Nat.le_of_not_lt h)]
    exact stores_inside_iff t

/-- The NUL behind a number of 32 digits. -/
example : ¬ ∀ store ∈ decodeNumberStores (List.replicate 32 '9'.toUInt8), InBuffer store := by
  decide +kernel

end decoding

section writing

theorem digit_eq (n : UInt32) : ('0'.toUInt8 + (n % 10).toUInt8).toNat = 48 + n.toNat % 10 := by
  have h : ('0'.toUInt8).toNat = 48 := rfl
  simp only [UInt8.toNat_add, UInt32.toNat_toUInt8, UInt32.toNat_mod, h, UInt32.reduceToNat]
  omega

theorem isDigit_digit (n : UInt32) : IsDigit ('0'.toUInt8 + (n % 10).toUInt8) := by
  rw [isDigit_iff, digit_eq]
  omega

theorem uintToString_eq (n : UInt32) (current : Text) :
    ∃ t, uintToString n current = t ++ current ∧ t ≠ [] ∧ (∀ c ∈ t, IsDigit c) ∧
      decimal 0 t = n.toNat := by
  fun_induction uintToString n current with
  | case1 n current _ hne ih =>
    obtain ⟨t, heq, -, hdigits, hdecimal⟩ := ih
    refine ⟨t ++ ['0'.toUInt8 + (n % 10).toUInt8], ?_, by simp, ?_, ?_⟩
    · rw [heq, List.append_assoc, List.singleton_append]
    · intro c hc
      obtain hc | hc := List.mem_append.mp hc
      · exact hdigits c hc
      · rw [List.mem_singleton.mp hc]
        exact isDigit_digit n
    · have hlast : decimal 0 (t ++ ['0'.toUInt8 + (n % 10).toUInt8]) =
          decimal 0 t * 10 + ('0'.toUInt8 + (n % 10).toUInt8 - '0'.toUInt8).toNat := by
        simp [decimal]
      rw [hlast, hdecimal, digit_toNat (isDigit_digit n), digit_eq, UInt32.toNat_div,
        Nat.add_sub_cancel_left]
      exact Nat.div_add_mod' n.toNat 10
  | case2 n current _ hzero =>
    refine ⟨['0'.toUInt8 + (n % 10).toUInt8], rfl, by simp, by simpa using isDigit_digit n, ?_⟩
    have hsmall : n.toNat / 10 = 0 := by
      simpa using congrArg UInt32.toNat (not_not.mp hzero)
    change 0 * 10 + ('0'.toUInt8 + (n % 10).toUInt8 - '0'.toUInt8).toNat = n.toNat
    rw [digit_toNat (isDigit_digit n), digit_eq]
    omega

variable (D : Doubles)

theorem decodeNumber_uintToString (n : UInt32) : decodeNumber D (uintToString n []) = .ok
    (.int n.toInt32) := by
  obtain ⟨t, heq, hne, hdigits, hdecimal⟩ := uintToString_eq n []
  have hlt := UInt32.toNat_lt n
  rw [heq, List.append_nil, decodeNumber_digits D hne hdigits, if_pos (by omega), hdecimal,
    ← UInt32.toInt32_ofNat',
    UInt32.ofNat_toNat]

/-- Doubles that are small whole numbers. -/
def wholeDoubles : Doubles where
  Double := Nat
  sscanf t := some (decimal 0 t)
  overrun _ := none
  sprintf n := uintToString (UInt32.ofNat n) []

end writing

end Sstoraged.JsonText
