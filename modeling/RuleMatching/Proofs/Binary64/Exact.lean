import Mathlib
import RuleMatching.Proofs.Binary64.Truncation

set_option autoImplicit false

/-! # The number that a word stands for

The IEEE 754 format gives every word that is no NaN a value: a dyadic rational or an infinity
(`Binary64.exactValue?`). The value in units is the value of the format
(`Binary64.exactValue?_eq`), and between the infinities numbers have the order of their units
(`Binary64.strictMonoOn_extend`). -/

namespace RuleMatching.Binary64

/-- The rational numbers with two infinities. -/
abbrev Extended : Type := WithBot (WithTop ℚ)

/-- The value of a word whose exponent is not the last one, by the formula of the format. -/
def dyadic (x : Binary64) : ℚ :=
  (if x.isNegative then -1 else 1) *
    if x.exponentField = 0 then x.fractionField / 2 ^ 52 * (2 : ℚ) ^ (-1022 : ℤ)
    else (1 + x.fractionField / 2 ^ 52) * (2 : ℚ) ^ ((x.exponentField : ℤ) - 1023)

/-- The number that the word stands for; none for a NaN. -/
def exactValue? (x : Binary64) : Option Extended :=
  if x.exponentField = 2047 then
    if x.fractionField ≠ 0 then none
    else if x.isNegative then some ⊥
    else some ⊤
  else some (x.dyadic : ℚ)

/-! ## The value in units -/

/-- Powers of two whose exponents add up. -/
theorem two_zpow_mul {a : ℤ} {k m : ℕ} (h : a + k = m) : (2 : ℚ) ^ a * 2 ^ k = 2 ^ m := by
  rw [← zpow_natCast, ← zpow_natCast, ← zpow_add₀ two_ne_zero, h]

/-- The formula of the format counts the units. -/
theorem dyadic_eq (x : Binary64) : x.dyadic = (x.units : ℚ) / (unitsPerOne : ℚ) := by
  obtain ⟨k, hk, hU⟩ := exists_unitsPerOne_eq
  have hpos : (0 : ℚ) < 2 ^ k := by positivity
  have hunits : (x.units : ℚ) = (if x.isNegative then -1 else 1) * (x.magnitude : ℚ) := by
    rw [units_eq]
    split <;> push_cast <;> ring
  rewrite [hU, Nat.cast_pow, Nat.cast_ofNat, hunits, mul_div_assoc, dyadic]
  clear hU
  congr 1
  rw [eq_div_iff hpos.ne']
  split
  · next h0 =>
    rw [magnitude_of_exponentField_eq_zero h0, mul_assoc, two_zpow_mul (m := 52) (by rw [hk]; rfl)]
    exact div_mul_cancel₀ _ (by positivity)
  · next h0 =>
    rw [magnitude_of_exponentField_pos (Nat.pos_of_ne_zero h0), mul_assoc,
      two_zpow_mul (m := 52 + (x.exponentField - 1)) (by clear hpos; omega), pow_add, ← mul_assoc]
    push_cast
    congr 1
    field_simp
    norm_num

/-! ## Numbers between the infinities -/

/-- The number of so many units; from the infinities on, one of them. -/
def extend (u : Int) : Extended :=
  if (infinity.magnitude : Int) ≤ u then ⊤
  else if u ≤ -(infinity.magnitude : Int) then ⊥
  else ((u : ℚ) / (unitsPerOne : ℚ) : ℚ)

theorem cast_unitsPerOne_pos : (0 : ℚ) < unitsPerOne := by exact_mod_cast unitsPerOne_pos

/-- Numbers keep their order between the infinities. -/
theorem strictMonoOn_extend :
    StrictMonoOn extend (Set.Icc (-(infinity.magnitude : Int)) infinity.magnitude) := by
  rintro a ⟨ha, ha'⟩ b ⟨hb, hb'⟩ hab
  have hapos : ¬(infinity.magnitude : Int) ≤ a := by omega
  have hbneg : ¬b ≤ -(infinity.magnitude : Int) := by omega
  rw [extend, extend, if_neg hapos, if_neg hbneg]
  by_cases hbtop : (infinity.magnitude : Int) ≤ b
  · rw [if_pos hbtop]
    split
    · exact WithBot.bot_lt_coe _
    · exact WithBot.coe_lt_coe.mpr (WithTop.coe_lt_top _)
  · rw [if_neg hbtop]
    split
    · exact WithBot.bot_lt_coe _
    · refine WithBot.coe_lt_coe.mpr (WithTop.coe_lt_coe.mpr ?_)
      exact div_lt_div_of_pos_right (by exact_mod_cast hab) cast_unitsPerOne_pos

theorem magnitude_lt_infinity {x : Binary64} (h : x.exponentField ≠ 2047) :
    x.magnitude < infinity.magnitude := by
  refine magnitude_lt_of_exponentField_lt ?_
  have hlt := exponentField_lt x
  have hinfinity : infinity.exponentField = 2047 := by decide
  omega

theorem magnitude_eq_infinity {x : Binary64} (h : x.exponentField = 2047)
    (hf : x.fractionField = 0) : x.magnitude = infinity.magnitude :=
  magnitude_congr (h.trans (by decide)) (hf.trans (by decide))

theorem isNaN_eq_false_iff (x : Binary64) :
    x.isNaN = false ↔ (x.exponentField = 2047 → x.fractionField = 0) := by
  simp [isNaN]

/-- No number is beyond the infinities. -/
theorem units_mem {x : Binary64} (hx : x.isNaN = false) :
    x.units ∈ Set.Icc (-(infinity.magnitude : Int)) infinity.magnitude := by
  have hle : x.magnitude ≤ infinity.magnitude := by
    by_cases he : x.exponentField = 2047
    · exact Nat.le_of_eq (magnitude_eq_infinity he ((isNaN_eq_false_iff x).mp hx he))
    · exact Nat.le_of_lt (magnitude_lt_infinity he)
  have habs := units_natAbs x
  constructor <;> omega

/-- **The value in units is the value of the format.** -/
theorem exactValue?_eq (x : Binary64) :
    x.exactValue? = if x.isNaN then none else some (extend x.units) := by
  have hpos : 0 < infinity.magnitude :=
    Nat.lt_of_lt_of_le (Nat.two_pow_pos _) (le_magnitude (x := infinity) (by decide))
  unfold exactValue?
  by_cases he : x.exponentField = 2047
  · rw [if_pos he]
    by_cases hf : x.fractionField = 0
    · rw [if_neg (not_not.mpr hf), (isNaN_eq_false_iff x).mpr fun _ => hf,
        if_neg Bool.false_ne_true, extend, units_eq, magnitude_eq_infinity he hf]
      split
      · rw [if_neg (by omega), if_pos (Int.le_refl _)]
      · rw [if_pos (Int.le_refl _)]
    · have hnan : x.isNaN = true := by simp [isNaN, he, hf]
      rw [if_pos hf, if_pos hnan]
  · have hnan : x.isNaN = false := (isNaN_eq_false_iff x).mpr fun h => absurd h he
    have hlt := magnitude_lt_infinity he
    have habs := units_natAbs x
    rw [if_neg he, hnan, if_neg Bool.false_ne_true, extend, if_neg (by omega), if_neg (by omega),
      dyadic_eq]

/-- An integer is a number between the infinities. -/
theorem extend_mul_unitsPerOne (n : Int64) :
    n.toInt * (unitsPerOne : Int) ∈ Set.Icc (-(infinity.magnitude : Int)) infinity.magnitude ∧
      extend (n.toInt * unitsPerOne) = ((n.toInt : ℚ) : Extended) := by
  have hU := unitsPerOne_pos
  have hbound : (0x8000000000000000 * unitsPerOne : Int) < infinity.magnitude := by
    have hunits : int64Bound.units = (int64Bound.magnitude : Int) := by
      rw [units_eq, if_neg (by decide)]
    rw [← units_int64Bound, hunits]
    exact Int.ofNat_lt.mpr (magnitude_lt_infinity (by decide))
  have hupper := Int.mul_lt_mul_of_pos_right n.toInt_lt hU
  have hlower := Int.mul_le_mul_of_nonneg_right n.le_toInt (Int.le_of_lt hU)
  refine ⟨⟨by omega, by omega⟩, ?_⟩
  rw [extend, if_neg (by omega), if_neg (by omega)]
  rw [Int.cast_mul, Int.cast_natCast, mul_div_cancel_right₀ _ (ne_of_gt cast_unitsPerOne_pos)]

end RuleMatching.Binary64
