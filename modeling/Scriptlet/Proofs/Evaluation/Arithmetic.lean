import Scriptlet.Operation

/-!
# Arithmetic

What the operators on integers come to, at every sign and at both ends of the range.

**Range.**  The range is not symmetric: the least integer has no opposite in it.  So there are two operations
on one or two integers of the language that can leave the range without adding or multiplying: the opposite
of the least integer, and its quotient by minus one.

**Quotients.**  An integer is a quotient if what it leaves of the dividend is smaller than the divisor, and
is zero or has the sign of the dividend.  Division of magnitudes, with the sign put on afterwards, finds the
only one there is.

**Results.**
* `isQuotient_iff`: there is exactly one quotient, and division finds it.
* `inRange_quotient_iff`: the one quotient that is out of range.
* `inRange_quotient_mul`: the divisor taken as often as it goes into an integer of the language is one too.
* `arithmetic_is_exact`: the operators on integers are exact, or fail for a stated cause.
-/

namespace Scriptlet

variable {a b n q : Int}

section Ranges

theorem inRange_iff : inRange n = true ↔ minInteger ≤ n ∧ n ≤ maxInteger := by
  simp [inRange]

/-- A checked integer is itself or an overflow. -/
theorem checked_eq :
    checked n = if inRange n then .integer n else .error "integer overflow" := rfl

theorem checked_of_inRange (h : inRange n = true) : checked n = .integer n := by
  rw [checked_eq, if_pos h]

theorem checked_eq_integer_iff {m : Int} : checked n = .integer m ↔ inRange n = true ∧ n = m := by
  rw [checked_eq]
  split
  · simp [*]
  · simp [*]

theorem checked_eq_overflow_iff : checked n = .error "integer overflow" ↔ ¬inRange n = true := by
  rw [checked_eq]
  split
  · simp [*]
  · simp [*]

/-- Only the least integer has an opposite that is out of range. -/
theorem inRange_neg_iff (h : inRange n = true) : inRange (-n) = true ↔ n ≠ minInteger := by
  rw [inRange_iff] at h ⊢
  unfold minInteger maxInteger at *
  omega

/-- What is no greater in magnitude and does not change sides is in range as well. -/
theorem inRange_of_between (ha : inRange a = true) (h : 0 ≤ n ∧ n ≤ a ∨ a ≤ n ∧ n ≤ 0) :
    inRange n = true := by
  rw [inRange_iff] at ha ⊢
  unfold minInteger maxInteger at *
  omega

end Ranges

section Quotients

/-- The divisor, taken so many times, leaves a remainder that is smaller than itself, and that is zero or
has the sign of the dividend. -/
def IsQuotient (a b q : Int) : Prop :=
  ∃ r, a = q * b + r ∧ r.natAbs < b.natAbs ∧ (r = 0 ∨ r.sign = a.sign)

/-- Putting the sign on the quotient of the magnitudes rounds toward zero. -/
theorem quotient_eq_tdiv (a b : Int) : quotient a b = a.tdiv b := by
  have hsize : (a.tdiv b).natAbs = a.natAbs / b.natAbs := Int.natAbs_tdiv a b
  rw [quotient, ← hsize]
  split
  · next hsigns =>
      have hnonneg : 0 ≤ a.tdiv b := by
        by_cases ha : a < 0
        · have hb : b < 0 := hsigns.mp ha
          exact Int.tdiv_nonneg_of_nonpos_of_nonpos (by omega) (by omega)
        · have hb : ¬b < 0 := fun hb => ha (hsigns.mpr hb)
          exact Int.tdiv_nonneg (by omega) (by omega)
      omega
  · next hsigns =>
      have hnonpos : a.tdiv b ≤ 0 := by
        by_cases ha : a < 0
        · have hb : 0 ≤ b := by omega
          have hneg : 0 ≤ (-a).tdiv b := Int.tdiv_nonneg (by omega) hb
          rw [Int.neg_tdiv] at hneg
          omega
        · exact Int.tdiv_nonpos_of_nonneg_of_nonpos (by omega) (by omega)
      omega

/-- What division leaves of the dividend is smaller than the divisor, and no greater than the dividend. -/
theorem natAbs_remainder (hb : b ≠ 0) :
    (a.tmod b).natAbs < b.natAbs ∧ (a.tmod b).natAbs ≤ a.natAbs := by
  rw [Int.natAbs_tmod]
  exact ⟨Nat.mod_lt _ (Int.natAbs_pos.mpr hb), Nat.mod_le _ _⟩

/-- There is exactly one quotient, and division finds it. -/
theorem isQuotient_iff (hb : b ≠ 0) : IsQuotient a b q ↔ q = quotient a b := by
  rw [quotient_eq_tdiv]
  constructor
  · rintro ⟨r, ha, hsmall, hsign⟩
    have hsum : r + b * q = a := by
      rw [ha, Int.mul_comm, Int.add_comm]
    -- The two sides of zero are apart in the library; the sign of the remainder says which one applies.
    rcases Int.le_total 0 a with hside | hside
    · have hr : 0 ≤ r := by
        rcases hsign with rfl | hsign
        · exact Int.le_refl 0
        · rwa [← Int.sign_nonneg_iff, hsign, Int.sign_nonneg_iff]
      exact ((Int.tdiv_tmod_unique hside hb).mpr ⟨hsum, hr, by omega⟩).1.symm
    · have hr : r ≤ 0 := by
        rcases hsign with rfl | hsign
        · exact Int.le_refl 0
        · rwa [← Int.sign_nonpos_iff, hsign, Int.sign_nonpos_iff]
      exact ((Int.tdiv_tmod_unique' hside hb).mpr ⟨hsum, by omega, hr⟩).1.symm
  · rintro rfl
    refine ⟨a.tmod b, (Int.tdiv_mul_add_tmod a b).symm, (natAbs_remainder hb).1, ?_⟩
    by_cases hdvd : b ∣ a
    · exact Or.inl (Int.tmod_eq_zero_of_dvd hdvd)
    · right
      rw [Int.sign_tmod, if_neg hdvd]

/-- The only quotient that is out of range is that of the least integer by minus one. -/
theorem inRange_quotient_iff (ha : inRange a = true) (hb : b ≠ 0) :
    inRange (quotient a b) = true ↔ ¬(a = minInteger ∧ b = -1) := by
  rw [quotient_eq_tdiv]
  by_cases hone : b = -1
  · rw [hone, Int.tdiv_neg, Int.tdiv_one, inRange_neg_iff ha]
    simp
  · have hsize : (a.tdiv b).natAbs = a.natAbs / b.natAbs := Int.natAbs_tdiv a b
    have hin : inRange (a.tdiv b) = true := by
      by_cases hpos : b = 1
      · rwa [hpos, Int.tdiv_one]
      · have hhalf : a.natAbs / b.natAbs ≤ a.natAbs / 2 := Nat.div_le_div_left (by omega) (by omega)
        rw [inRange_iff] at ha ⊢
        unfold minInteger maxInteger at *
        omega
    simp [hin, hone]

/-- The divisor taken as often as it goes into the dividend does not go beyond the dividend. -/
theorem inRange_quotient_mul (ha : inRange a = true) (hb : b ≠ 0) :
    inRange (quotient a b * b) = true := by
  have hsum : quotient a b * b + a.tmod b = a := by
    rw [quotient_eq_tdiv]
    exact Int.tdiv_mul_add_tmod a b
  have hsize := (natAbs_remainder (a := a) hb).2
  apply inRange_of_between ha
  rcases Int.le_total 0 a with hside | hside
  · have hrest : 0 ≤ a.tmod b := Int.tmod_nonneg b hside
    omega
  · have hrest : 0 ≤ (-a).tmod b := Int.tmod_nonneg b (by omega)
    rw [Int.neg_tmod] at hrest
    omega

end Quotients

section Operators

/-- Division by zero fails. -/
theorem applyBinary_div_zero (a : Int) :
    applyBinary "/" (.integer a) (.integer 0) = .error "division by zero" := rfl

theorem applyBinary_div (hb : b ≠ 0) :
    applyBinary "/" (.integer a) (.integer b) = checked (quotient a b) :=
  if_neg hb

theorem applyBinary_div_eq_zero_iff :
    applyBinary "/" (.integer a) (.integer b) = .error "division by zero" ↔ b = 0 := by
  by_cases hb : b = 0
  · rw [hb, applyBinary_div_zero]
    simp
  · rw [applyBinary_div hb, checked_eq]
    split
    · simp [hb]
    · simp [hb]

theorem applyBinary_div_eq_overflow_iff (ha : inRange a = true) :
    applyBinary "/" (.integer a) (.integer b) = .error "integer overflow" ↔
      a = minInteger ∧ b = -1 := by
  by_cases hb : b = 0
  · rw [hb, applyBinary_div_zero]
    simp
  · rw [applyBinary_div hb, checked_eq_overflow_iff, inRange_quotient_iff ha hb, Decidable.not_not]

end Operators

/-- With an integer of the language on the left, the sum, the difference and the product are exact if they are
in range, and overflow otherwise.  Division fails by zero, overflows only if the least integer is divided by
minus one, and otherwise comes to the only quotient there is; that quotient times the divisor never overflows.
The opposite overflows for the least integer only, and is exact for every other. -/
theorem arithmetic_is_exact (ha : inRange a = true) (b : Int) :
    (applyBinary "+" (.integer a) (.integer b) =
      if inRange (a + b) then .integer (a + b) else .error "integer overflow") ∧
    (applyBinary "-" (.integer a) (.integer b) =
      if inRange (a - b) then .integer (a - b) else .error "integer overflow") ∧
    (applyBinary "*" (.integer a) (.integer b) =
      if inRange (a * b) then .integer (a * b) else .error "integer overflow") ∧
    (applyBinary "/" (.integer a) (.integer b) = .error "division by zero" ↔ b = 0) ∧
    (applyBinary "/" (.integer a) (.integer b) = .error "integer overflow" ↔
      a = minInteger ∧ b = -1) ∧
    (b ≠ 0 → ¬(a = minInteger ∧ b = -1) →
      ∃ q, applyBinary "/" (.integer a) (.integer b) = .integer q ∧
        ∀ q', IsQuotient a b q' ↔ q' = q) ∧
    (∀ q, applyBinary "/" (.integer a) (.integer b) = .integer q →
      applyBinary "*" (.integer q) (.integer b) = .integer (q * b)) ∧
    (applyUnary "-" (.integer a) = .error "integer overflow" ↔ a = minInteger) ∧
    (a ≠ minInteger → applyUnary "-" (.integer a) = .integer (-a)) := by
  refine ⟨rfl, rfl, rfl, applyBinary_div_eq_zero_iff, applyBinary_div_eq_overflow_iff ha, ?_, ?_, ?_, ?_⟩
  · intro hzero hleast
    have hin : inRange (quotient a b) = true := (inRange_quotient_iff ha hzero).mpr hleast
    refine ⟨quotient a b, ?_, fun q' => isQuotient_iff hzero⟩
    rw [applyBinary_div hzero, checked_of_inRange hin]
  · intro q hq
    by_cases hzero : b = 0
    · rw [hzero, applyBinary_div_zero] at hq
      cases hq
    · rw [applyBinary_div hzero, checked_eq_integer_iff] at hq
      obtain ⟨-, rfl⟩ := hq
      exact checked_of_inRange (inRange_quotient_mul ha hzero)
  · show checked (-a) = _ ↔ _
    rw [checked_eq_overflow_iff, inRange_neg_iff ha, Decidable.not_not]
  · intro hleast
    exact checked_of_inRange ((inRange_neg_iff ha).mpr hleast)

/-- The least integer by minus one, and by minus three, where a quotient rounded down would be one less. -/
theorem arithmetic_is_exact_least :
    inRange minInteger = true ∧
    applyBinary "/" (.integer minInteger) (.integer (-1)) = .error "integer overflow" ∧
    applyBinary "/" (.integer minInteger) (.integer (-3)) = .integer 3074457345618258602 ∧
    (∀ q, IsQuotient minInteger (-3) q ↔ q = 3074457345618258602) := by
  have hleast : inRange minInteger = true := by decide
  obtain ⟨-, -, -, -, hoverflow, -⟩ := arithmetic_is_exact hleast (-1)
  obtain ⟨-, -, -, -, -, hquotient, -⟩ := arithmetic_is_exact hleast (-3)
  obtain ⟨q, hq, hunique⟩ := hquotient (by decide) (by decide)
  obtain rfl : 3074457345618258602 = q := by
    have hcomputed : applyBinary "/" (.integer minInteger) (.integer (-3)) =
        .integer 3074457345618258602 := by rfl
    rw [hcomputed] at hq
    exact Value.integer.inj hq
  exact ⟨hleast, hoverflow.mpr ⟨rfl, rfl⟩, hq, hunique⟩

end Scriptlet
