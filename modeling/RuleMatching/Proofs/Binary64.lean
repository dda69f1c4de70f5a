import Mathlib.Tactic.Ring
import RuleMatching.Binary64.Basic

set_option autoImplicit false

/-! # Floating-point numbers by their exact values

The exact value determines the word of a number other than zero (`Binary64.bits_of_units`).
Comparison reads the exact values alone; `Binary64.compareInt?` is the exact order of an integer
against a float. -/

namespace RuleMatching.Binary64

/-! ## The word and its fields -/

theorem bits_eq (x : Binary64) :
    x.bits.toNat = (if x.isNegative then 2 ^ 63 else 0) + x.exponentField * 2 ^
      52 + x.fractionField := by
  have hlt := x.bits.toNat_lt
  unfold exponentField fractionField isNegative
  split <;> simp_all <;> omega

theorem bits_ext {x y : Binary64} (hs : x.isNegative = y.isNegative)
    (he : x.exponentField = y.exponentField) (hf : x.fractionField = y.fractionField) : x = y := by
  have h : x.bits.toNat = y.bits.toNat := by rw [bits_eq, bits_eq, hs, he, hf]
  cases x
  cases y
  rw [mk.injEq]
  exact UInt64.toNat_inj.mp h

theorem fractionField_lt (x : Binary64) : x.fractionField < 2 ^ 52 := Nat.mod_lt _ (by decide)

/-! ## Magnitudes -/

theorem magnitude_eq (x : Binary64) : x.magnitude = x.significand * 2 ^ x.shift := rfl

theorem magnitude_of_exponentField_eq_zero {x : Binary64} (h : x.exponentField = 0) :
    x.magnitude = x.fractionField := by
  simp [magnitude_eq, significand, shift, h]

theorem magnitude_of_exponentField_pos {x : Binary64} (h : 0 < x.exponentField) :
    x.magnitude = (2 ^ 52 + x.fractionField) * 2 ^ (x.exponentField - 1) := by
  have hne : x.exponentField ≠ 0 := Nat.ne_of_gt h
  simp [magnitude_eq, significand, shift, hne]

theorem magnitude_lt (x : Binary64) : x.magnitude < 2 ^ (52 + x.exponentField) := by
  have hf := fractionField_lt x
  rcases Nat.eq_zero_or_pos x.exponentField with h | h
  · rw [magnitude_of_exponentField_eq_zero h, h]
    exact hf
  · rw [magnitude_of_exponentField_pos h]
    have hpow : 2 ^ (52 + x.exponentField) = 2 ^ 53 * 2 ^ (x.exponentField - 1) := by
      rw [← Nat.pow_add]
      congr 1
      omega
    rw [hpow]
    exact Nat.mul_lt_mul_of_pos_right (by omega) (Nat.two_pow_pos _)

theorem le_magnitude {x : Binary64} (h : 0 < x.exponentField) :
    2 ^ (51 + x.exponentField) ≤ x.magnitude := by
  rw [magnitude_of_exponentField_pos h]
  have hpow : 2 ^ (51 + x.exponentField) = 2 ^ 52 * 2 ^ (x.exponentField - 1) := by
    rw [← Nat.pow_add]
    congr 1
    omega
  rw [hpow]
  exact Nat.mul_le_mul_right _ (Nat.le_add_right _ _)

/-- A larger exponent makes a larger magnitude. -/
theorem magnitude_lt_of_exponentField_lt {x y : Binary64} (h : x.exponentField < y.exponentField) :
    x.magnitude < y.magnitude := by
  have hle : 2 ^ (52 + x.exponentField) ≤ 2 ^ (51 + y.exponentField) :=
    Nat.pow_le_pow_right (by decide) (by omega)
  exact Nat.lt_of_lt_of_le (magnitude_lt x) (Nat.le_trans hle (le_magnitude (Nat.zero_lt_of_lt h)))

theorem fields_of_magnitude {x y : Binary64} (h : x.magnitude = y.magnitude) :
    x.exponentField = y.exponentField ∧ x.fractionField = y.fractionField := by
  have he : x.exponentField = y.exponentField := by
    rcases Nat.lt_trichotomy x.exponentField y.exponentField with hlt | heq | hgt
    · exact absurd h (Nat.ne_of_lt (magnitude_lt_of_exponentField_lt hlt))
    · exact heq
    · exact absurd h.symm (Nat.ne_of_lt (magnitude_lt_of_exponentField_lt hgt))
  refine ⟨he, ?_⟩
  rcases Nat.eq_zero_or_pos x.exponentField with h0 | hpos
  · rwa [magnitude_of_exponentField_eq_zero h0, magnitude_of_exponentField_eq_zero (he ▸ h0)] at h
  · rw [magnitude_of_exponentField_pos hpos, magnitude_of_exponentField_pos (he ▸ hpos), he] at h
    have := Nat.eq_of_mul_eq_mul_right (Nat.two_pow_pos _) h
    omega

/-! ## Exact values -/

theorem units_natAbs (x : Binary64) : x.units.natAbs = x.magnitude := by
  unfold units
  split <;> simp

/-- **Values other than zero have one word each.** -/
theorem bits_of_units {x y : Binary64} (h : x.units = y.units) (h0 : x.units ≠ 0) : x = y := by
  have hm : x.magnitude = y.magnitude := by rw [← units_natAbs, ← units_natAbs, h]
  obtain ⟨he, hf⟩ := fields_of_magnitude hm
  have hpos : 0 < x.magnitude := by
    rw [← units_natAbs]
    omega
  have hs : x.isNegative = y.isNegative := by
    unfold units at h
    cases hx : x.isNegative <;> cases hy : y.isNegative <;> simp [hx, hy] at h ⊢ <;> omega
  exact bits_ext hs he hf

theorem unitsPerOne_pos : 0 < (unitsPerOne : Int) := by
  refine Int.natCast_pos.mpr ?_
  unfold unitsPerOne
  generalize 1074 = n
  exact Nat.two_pow_pos n

theorem compare_mul_unitsPerOne (m n : Int) :
    compare (m * unitsPerOne) (n * unitsPerOne) = compare m n := by
  have hpos := unitsPerOne_pos
  generalize (unitsPerOne : Int) = U at hpos ⊢
  rcases Int.lt_trichotomy m n with h | h | h
  · rw [Int.compare_eq_lt.mpr h, Int.compare_eq_lt]
    exact Int.mul_lt_mul_of_pos_right h hpos
  · rw [h, Int.compare_eq_eq.mpr rfl, Int.compare_eq_eq.mpr rfl]
  · rw [Int.compare_eq_gt.mpr h, Int.compare_eq_gt]
    exact Int.mul_lt_mul_of_pos_right h hpos

/-! ## Comparison -/

/-- Comparison with a float reads the value alone. -/
theorem compare?_congr {x y : Binary64} (hn : x.isNaN = y.isNaN)
    (hu : x.isNaN = false → x.units = y.units) (z : Binary64) :
    x.compare? z = y.compare? z ∧ z.compare? x = z.compare? y := by
  unfold compare?
  rw [← hn]
  cases hx : x.isNaN with
  | false => rw [hu hx]; exact ⟨rfl, rfl⟩
  | true => exact ⟨rfl, by rw [Bool.or_true, if_pos rfl, if_pos rfl]⟩

/-- The order of an integer against a float by exact value. -/
def compareInt? (n : Int) (x : Binary64) : Option Ordering :=
  if x.isNaN then none else some (compare (n * unitsPerOne) x.units)

/-- Comparison with an integer reads the value alone. -/
theorem compareInt?_congr {x y : Binary64} (hn : x.isNaN = y.isNaN)
    (hu : x.isNaN = false → x.units = y.units) (n : Int) : compareInt? n x = compareInt? n y := by
  unfold compareInt?
  rw [← hn]
  cases hx : x.isNaN with
  | false => rw [hu hx]
  | true => rfl

theorem equals_iff (x y : Binary64) :
    x.equals y = true ↔ x.isNaN = false ∧ y.isNaN = false ∧ x.units = y.units := by
  unfold equals compare?
  cases hx : x.isNaN <;> cases hy : y.isNaN <;> simp

theorem less_iff (x y : Binary64) :
    x.less y = true ↔ x.isNaN = false ∧ y.isNaN = false ∧ x.units < y.units := by
  unfold less compare?
  cases hx : x.isNaN <;> cases hy : y.isNaN <;> simp [Int.compare_eq_lt]

theorem lessOrEqual_iff (x y : Binary64) :
    x.lessOrEqual y = true ↔ x.isNaN = false ∧ y.isNaN = false ∧ x.units ≤ y.units := by
  unfold lessOrEqual compare?
  cases hx : x.isNaN <;> cases hy : y.isNaN <;> simp [Int.compare_eq_lt, Int.le_iff_lt_or_eq]

end RuleMatching.Binary64
