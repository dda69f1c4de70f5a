import RuleMatching.Binary64.Truncation
import RuleMatching.Proofs.Binary64

set_option autoImplicit false

/-! # Comparison with integers is exact

A float is compared with an integer through its integral part and its fraction, with a conversion
that saturates and a difference that is rounded. Neither is felt: a float in the range of the
integers has an integral part that is converted exactly (`Binary64.units_truncate`,
`Binary64.toInt_toInt64`), and rounding keeps the sign of a fraction
(`Binary64.compare_zero_fraction`). So the order of an integer against a float is that of the exact
values (`Binary64.compareInteger?_eq`), and a float denotes an integer iff it has the value of the
integer (`Binary64.toInt64?_eq_some_iff`). -/

namespace RuleMatching.Binary64

/-! ## Words put together from their fields -/

/-- The fields of a word. -/
theorem fields_mk (negative : Bool) {e f : Nat} (he : e < 2 ^ 11) (hf : f < 2 ^ 52) {w : Nat}
    (hw : w = (if negative then 2 ^ 63 else 0) + e * 2 ^ 52 + f) :
    (⟨.ofNat w⟩ : Binary64).isNegative = negative ∧ (⟨.ofNat w⟩ : Binary64).exponentField = e ∧
      (⟨.ofNat w⟩ : Binary64).fractionField = f := by
  have hlt : w < 2 ^ 64 := by
    rw [hw]
    split <;> omega
  have hmod : w % 2 ^ 64 = w := Nat.mod_eq_of_lt hlt
  unfold isNegative exponentField fractionField
  simp only [UInt64.toNat_ofNat', hmod]
  cases negative with
  | false =>
      simp only [Bool.false_eq_true, if_false, Nat.zero_add] at hw
      simp only [decide_eq_false_iff_not]
      omega
  | true =>
      simp only [if_true] at hw
      simp only [decide_eq_true_eq]
      omega

theorem exponentField_lt (x : Binary64) : x.exponentField < 2 ^ 11 := Nat.mod_lt _ (by decide)

/-- The value is the magnitude under its sign. -/
theorem units_eq (x : Binary64) :
    x.units = if x.isNegative then -(x.magnitude : Int) else x.magnitude := rfl

theorem isNaN_congr {x y : Binary64} (he : x.exponentField = y.exponentField)
    (hf : x.fractionField = y.fractionField) : x.isNaN = y.isNaN := by
  unfold isNaN
  rw [he, hf]

theorem magnitude_congr {x y : Binary64} (he : x.exponentField = y.exponentField)
    (hf : x.fractionField = y.fractionField) : x.magnitude = y.magnitude := by
  unfold magnitude significand shift
  rw [he, hf]

/-! ## The other sign -/

/-- Flipping the first of 64 bits. -/
theorem xor_two_pow_63 {w : Nat} (hw : w < 2 ^ 64) :
    w ^^^ 2 ^ 63 = if w < 2 ^ 63 then w + 2 ^ 63 else w - 2 ^ 63 := by
  have hdiv : (w ^^^ 2 ^ 63) / 2 ^ 63 = w / 2 ^ 63 ^^^ 1 := by
    rw [Nat.xor_div_two_pow, Nat.div_self (Nat.two_pow_pos 63)]
  have hmod : (w ^^^ 2 ^ 63) % 2 ^ 63 = w % 2 ^ 63 := by
    rw [Nat.xor_mod_two_pow, Nat.mod_self, Nat.xor_zero]
  have hsplit := Nat.div_add_mod (w ^^^ 2 ^ 63) (2 ^ 63)
  rw [hdiv, hmod] at hsplit
  rcases Nat.lt_or_ge w (2 ^ 63) with h | h
  · have h0 : w / 2 ^ 63 = 0 := Nat.div_eq_of_lt h
    rw [h0, Nat.zero_xor] at hsplit
    rw [if_pos h]
    omega
  · have h1 : w / 2 ^ 63 = 1 := by omega
    rw [h1, Nat.xor_self] at hsplit
    rw [if_neg (Nat.not_lt.mpr h)]
    omega

theorem fields_negate (x : Binary64) : x.negate.isNegative = !x.isNegative ∧
    x.negate.exponentField = x.exponentField ∧ x.negate.fractionField = x.fractionField := by
  have hw : x.negate.bits.toNat =
      (if x.isNegative then 0 else 2 ^ 63) + x.exponentField * 2 ^ 52 + x.fractionField := by
    have hlt := x.bits.toNat_lt
    have hbits := bits_eq x
    have he := exponentField_lt x
    have hf := fractionField_lt x
    have hxor : x.negate.bits.toNat = x.bits.toNat ^^^ 2 ^ 63 := UInt64.toNat_xor x.bits _
    rw [hxor, xor_two_pow_63 hlt]
    cases hs : x.isNegative <;> simp only [hs, if_true, if_false, Bool.false_eq_true] at hbits ⊢ <;>
      split <;> omega
  have hof : x.negate = ⟨.ofNat x.negate.bits.toNat⟩ := by rw [UInt64.ofNat_toNat]
  rw [hof]
  refine fields_mk (!x.isNegative) (exponentField_lt x) (fractionField_lt x) ?_
  rw [hw]
  cases x.isNegative <;> rfl

theorem isNaN_negate (x : Binary64) : x.negate.isNaN = x.isNaN :=
  isNaN_congr (fields_negate x).2.1 (fields_negate x).2.2

theorem units_negate (x : Binary64) : x.negate.units = -x.units := by
  obtain ⟨hs, he, hf⟩ := fields_negate x
  rw [units_eq, units_eq, hs, magnitude_congr he hf]
  cases x.isNegative <;> simp

/-! ## The integral part -/

/-- The number of units as a power, the exponent kept apart from its value so that the
power stays one. -/
theorem exists_unitsPerOne_eq : ∃ k, k = 1074 ∧ unitsPerOne = 2 ^ k := by
  refine ⟨1074, rfl, ?_⟩
  unfold unitsPerOne
  generalize 1074 = n
  rfl

/-- A number below one has no integral part. -/
theorem magnitude_div_of_exponentField_lt {x : Binary64} (h : x.exponentField < 1023) :
    x.magnitude / unitsPerOne = 0 := by
  obtain ⟨k, hk, hU⟩ := exists_unitsPerOne_eq
  refine Nat.div_eq_of_lt (Nat.lt_of_lt_of_le (magnitude_lt x) ?_)
  rw [hU]
  exact Nat.pow_le_pow_right (by decide) (by omega)

/-- From one on, clearing the bits of the fraction rounds the magnitude towards zero. -/
theorem magnitude_div_of_le_exponentField {x : Binary64} (h : 1023 ≤ x.exponentField) :
    x.magnitude / unitsPerOne * unitsPerOne =
      (2 ^ 52 + x.fractionField) / 2 ^ (1075 - x.exponentField) * 2 ^ (1075 - x.exponentField) *
        2 ^ (x.exponentField - 1) := by
  obtain ⟨k, hk, hU⟩ := exists_unitsPerOne_eq
  rw [magnitude_of_exponentField_pos (by omega), hU]
  clear hU
  generalize 2 ^ 52 + x.fractionField = m
  rcases Nat.le_total x.exponentField 1075 with hle | hge
  · have hpow : 2 ^ k = 2 ^ (1075 - x.exponentField) * 2 ^ (x.exponentField - 1) := by
      rw [← Nat.pow_add]
      congr 1
      omega
    rw [hpow, Nat.mul_div_mul_right _ _ (Nat.two_pow_pos _), Nat.mul_assoc]
  · have hzero : 1075 - x.exponentField = 0 := by omega
    rw [hzero, Nat.pow_zero, Nat.div_one, Nat.mul_one]
    exact Nat.div_mul_cancel ((Nat.pow_dvd_pow 2 (by omega)).mul_left m)

/-- What is below one becomes a zero of its sign. -/
theorem fields_truncate_of_lt {x : Binary64} (h : x.exponentField < 1023) :
    x.truncate.isNegative = x.isNegative ∧ x.truncate.exponentField = 0 ∧
    x.truncate.fractionField = 0 := by
  have hword :
      x.bits.toNat / 2 ^ 63 * 2 ^ 63 = (if x.isNegative then 2 ^ 63 else 0) + 0 * 2 ^ 52 + 0 := by
    have hbits := bits_eq x
    have hf := fractionField_lt x
    have hlt := x.bits.toNat_lt
    cases hs : x.isNegative <;> simp only [hs, if_true, if_false, Bool.false_eq_true] at hbits ⊢
      <;> omega
  have htruncate : x.truncate = ⟨.ofNat (x.bits.toNat / 2 ^ 63 * 2 ^ 63)⟩ := by
    unfold truncate
    rw [if_pos h]
    rfl
  rw [htruncate]
  exact fields_mk x.isNegative (by decide) (by decide) hword

/-- Clearing the bits below one leaves the sign and the exponent, and what is left of
the fraction. -/
theorem fields_truncate {x : Binary64} (h : 1023 ≤ x.exponentField) :
    x.truncate.isNegative = x.isNegative ∧ x.truncate.exponentField = x.exponentField ∧
      2 ^ 52 + x.truncate.fractionField =
        (2 ^ 52 + x.fractionField) / 2 ^ (1075 - x.exponentField) * 2 ^
          (1075 - x.exponentField) := by
  have hs : 1075 - x.exponentField ≤ 52 := by omega
  have hdvd : 2 ^ (1075 - x.exponentField) ∣ 2 ^ 52 := Nat.pow_dvd_pow 2 hs
  have hpos : 0 < 2 ^ (1075 - x.exponentField) := Nat.two_pow_pos _
  have hbits := bits_eq x
  have htruncate : x.truncate = ⟨.ofNat (x.bits.toNat / 2 ^ (1075 - x.exponentField) *
      2 ^ (1075 - x.exponentField))⟩ := by
    unfold truncate
    rw [if_neg (by omega)]
    rfl
  generalize 2 ^ (1075 - x.exponentField) = d at hdvd hpos htruncate
  obtain ⟨c, hc⟩ := hdvd
  have hf := fractionField_lt x
  have hle := Nat.div_mul_le_self x.fractionField d
  -- The sign and the exponent are multiples of the power that is cleared.
  have hhigh : ∀ n m : Nat, (n * 2 ^ 52 + m) / d * d = n * 2 ^ 52 + m / d * d := by
    intro n m
    rw [hc, Nat.mul_left_comm, Nat.add_comm, Nat.add_mul_div_left _ _ hpos, Nat.add_mul,
      Nat.add_comm, Nat.mul_comm (n * c) d, ← Nat.mul_left_comm]
  have hword : x.bits.toNat / d * d =
      (if x.isNegative then 2 ^ 63 else 0) + x.exponentField * 2 ^
        52 + x.fractionField / d * d := by
    have hn : (if x.isNegative then 2 ^ 63 else 0) + x.exponentField * 2 ^ 52 =
        ((if x.isNegative then 2 ^ 11 else 0) + x.exponentField) * 2 ^ 52 := by
      split <;> omega
    rw [hbits, hn, hhigh]
  rw [htruncate]
  obtain ⟨hneg, hexp, hfrac⟩ := fields_mk x.isNegative (exponentField_lt x) (by omega) hword
  refine ⟨hneg, hexp, ?_⟩
  have hone := hhigh 1 x.fractionField
  rw [Nat.one_mul] at hone
  rw [hfrac, hone]

/-- **Truncation clears what is below one**, the whole number of ones towards zero stays. -/
theorem units_truncate (x : Binary64) :
    x.truncate.units = x.units.tdiv unitsPerOne * unitsPerOne := by
  have htdiv : x.units.tdiv unitsPerOne * unitsPerOne =
      if x.isNegative then -((x.magnitude / unitsPerOne * unitsPerOne : Nat) : Int)
      else (x.magnitude / unitsPerOne * unitsPerOne : Nat) := by
    rw [units_eq]
    split
    · rw [Int.neg_tdiv, Int.neg_mul, ← Int.ofNat_tdiv, Int.natCast_mul]
    · rw [← Int.ofNat_tdiv, Int.natCast_mul]
  rw [htdiv]
  rcases Nat.lt_or_ge x.exponentField 1023 with h | h
  · obtain ⟨hneg, hexp, hfrac⟩ := fields_truncate_of_lt h
    rw [units_eq, hneg, magnitude_of_exponentField_eq_zero hexp, hfrac,
      magnitude_div_of_exponentField_lt h, Nat.zero_mul]
  · obtain ⟨hneg, hexp, hfrac⟩ := fields_truncate h
    rw [units_eq, hneg, magnitude_of_exponentField_pos (by omega), hexp, hfrac,
      magnitude_div_of_le_exponentField h]

theorem isFinite_truncate {x : Binary64} (h : x.isFinite = true) : x.truncate.isFinite = true := by
  rcases Nat.lt_or_ge x.exponentField 1023 with hlt | hge
  · simp [isFinite, (fields_truncate_of_lt hlt).2.1]
  · rw [isFinite, (fields_truncate hge).2.1]
    exact h

/-! ## The fraction -/

theorem le_roundHalfEven (num den : Nat) : num / den ≤ roundHalfEven num den := by
  unfold roundHalfEven
  dsimp only
  split <;> omega

theorem roundHalfEven_zero {den : Nat} (hden : 0 < den) : roundHalfEven 0 den = 0 := by
  have hlt : compare (2 * (0 % den)) den = .lt := by
    rw [Nat.zero_mod, Nat.mul_zero, Nat.compare_eq_lt]
    exact hden
  simp only [roundHalfEven, hlt, Nat.zero_div]

/-- A number that is cut to 53 digits and rounded is zero only if it was zero. -/
theorem rounded_pos_iff {m U : Nat} (hU : 0 < U) : 0 < (m.log2 - 52) * 0x10000000000000 +
    roundHalfEven (m * U) (U * Nat.pow 2 (m.log2 - 52)) ↔ 0 < m := by
  generalize hcut : m.log2 - 52 = cut
  constructor
  · intro h
    refine Nat.pos_of_ne_zero fun hm => ?_
    subst hm
    have hcut0 : cut = 0 := by rw [← hcut, Nat.log2_zero, Nat.zero_sub]
    rw [hcut0, Nat.zero_mul, Nat.zero_mul, roundHalfEven_zero (Nat.mul_pos hU (Nat.two_pow_pos 0))]
      at h
    omega
  · intro hm
    have hle : 2 ^ cut ≤ m := Nat.le_trans (Nat.pow_le_pow_right (by decide) (by omega))
      (Nat.log2_self_le (Nat.ne_of_gt hm))
    have hone : 1 ≤ m / 2 ^ cut := (Nat.one_le_div_iff (Nat.two_pow_pos cut)).mpr hle
    have hdiv : m * U / (U * Nat.pow 2 cut) = m / 2 ^ cut := by
      rw [Nat.mul_comm m U]
      exact Nat.mul_div_mul_left _ _ hU
    have hround := le_roundHalfEven (m * U) (U * Nat.pow 2 cut)
    rw [hdiv] at hround
    omega

/-- A word up to that of infinity is a number that is not negative, and zero only if the word is. -/
theorem of_word_le {w : Nat} (hw : w ≤ infinityWord) : (⟨.ofNat w⟩ : Binary64).isNaN = false ∧
    (⟨.ofNat w⟩ : Binary64).isNegative = false ∧
    (0 < (⟨.ofNat w⟩ : Binary64).magnitude ↔ 0 < w) := by
  have hinfinity : infinityWord = 2047 * 2 ^ 52 := rfl
  obtain ⟨hneg, hexp, hfrac⟩ := fields_mk false (e := w / 2 ^ 52) (f := w % 2 ^ 52) (w := w)
    (by omega) (Nat.mod_lt _ (by decide)) (by simp only [Bool.false_eq_true, if_false]; omega)
  refine ⟨?_, hneg, ?_⟩
  · unfold isNaN
    rw [hexp, hfrac]
    have hlast : w / 2 ^ 52 = 2047 → w % 2 ^ 52 = 0 := by omega
    simpa using hlast
  · rcases Nat.eq_zero_or_pos (w / 2 ^ 52) with h0 | hpos
    · rw [magnitude_of_exponentField_eq_zero (hexp.trans h0), hfrac]
      omega
    · have hmagnitude := le_magnitude (x := ⟨.ofNat w⟩) (hexp.symm ▸ hpos)
      have htwo := Nat.two_pow_pos (51 + (⟨.ofNat w⟩ : Binary64).exponentField)
      constructor
      · intro _
        omega
      · intro _
        omega

/-- Rounding to a number of the format does not lose what is not zero. -/
theorem ofRatio_unitsPerOne (m : Nat) : (ofRatio m unitsPerOne).isNaN = false ∧
    (ofRatio m unitsPerOne).isNegative = false ∧
    (0 < (ofRatio m unitsPerOne).magnitude ↔ 0 < m) := by
  have hU : 0 < unitsPerOne := Int.natCast_pos.mp unitsPerOne_pos
  have hword := rounded_pos_iff (m := m) hU
  unfold ofRatio
  generalize unitsPerOne = U at hU hword
  dsimp only
  rw [Nat.mul_div_cancel _ hU]
  generalize (m.log2 - 52) * 0x10000000000000 + roundHalfEven (m * U)
    (U * Nat.pow 2 (m.log2 - 52)) = r at hword
  obtain ⟨hnan, hneg, hpos⟩ := of_word_le (Nat.min_le_right r infinityWord)
  have hinfinity : 0 < infinityWord := by decide
  refine ⟨hnan, hneg, hpos.trans ?_⟩
  rw [← hword]
  omega

/-- Rounding keeps the sign. -/
theorem compare_zero_ofUnits (n : Int) :
    (ofUnits n).isNaN = false ∧ compare 0 (ofUnits n).units = compare 0 n := by
  obtain ⟨hnan, hneg, hpos⟩ := ofRatio_unitsPerOne n.natAbs
  have hunits :
      (ofRatio n.natAbs unitsPerOne).units = (ofRatio n.natAbs unitsPerOne).magnitude := by
    rw [units_eq, hneg, if_neg Bool.false_ne_true]
  have hcompare : ∀ a b : Int, (0 < a ↔ 0 < b) → (a < 0 ↔ b < 0) → compare 0 a = compare 0 b := by
    intro a b hab hba
    rcases Int.lt_trichotomy 0 a with h | h | h
    · rw [Int.compare_eq_lt.mpr h, Int.compare_eq_lt.mpr (hab.mp h)]
    · rw [Int.compare_eq_eq.mpr h, eq_comm, Int.compare_eq_eq]
      omega
    · rw [Int.compare_eq_gt.mpr h, Int.compare_eq_gt.mpr (hba.mp h)]
  unfold ofUnits
  dsimp only
  split
  · next hlt =>
    refine ⟨by rw [isNaN_negate, hnan], ?_⟩
    rw [units_negate, hunits]
    exact hcompare _ _ (by omega) (by omega)
  · next hge =>
    refine ⟨hnan, ?_⟩
    rw [hunits]
    exact hcompare _ _ (by omega) (by omega)

theorem isNaN_of_isFinite {x : Binary64} (h : x.isFinite = true) : x.isNaN = false := by
  have he : x.exponentField ≠ 2047 := by simpa [isFinite] using h
  simp [isNaN, he]

/-- **The fraction has the sign of what lies beyond the integral part.** -/
theorem compare_zero_fraction {x : Binary64} (h : x.isFinite = true) :
    zero.compare? x.fraction = some (compare (x.units.tdiv unitsPerOne * unitsPerOne) x.units) := by
  have hzero : zero.units = 0 := by decide
  obtain ⟨hnan, hsign⟩ := compare_zero_ofUnits (x.units - x.truncate.units)
  rw [fraction, if_pos h, compare?, hnan, hzero, hsign, units_truncate]
  generalize x.units.tdiv unitsPerOne * unitsPerOne = w
  have hshift : compare 0 (x.units - w) = compare w x.units := by
    rcases Int.lt_trichotomy w x.units with hlt | heq | hgt
    · rw [Int.compare_eq_lt.mpr hlt, Int.compare_eq_lt]
      omega
    · rw [Int.compare_eq_eq.mpr heq, Int.compare_eq_eq]
      omega
    · rw [Int.compare_eq_gt.mpr hgt, Int.compare_eq_gt]
      omega
  rw [hshift]
  rfl

/-! ## The range of the integers -/

theorem units_int64Bound : int64Bound.units = 0x8000000000000000 * unitsPerOne := by decide +kernel

theorem units_negate_int64Bound : int64Bound.negate.units = -0x8000000000000000 * unitsPerOne := by
  rw [units_negate, units_int64Bound, Int.neg_mul]

/-- A number of the size of a 64-bit integer is finite. -/
theorem isFinite_of_units_lt {x : Binary64} (h : x.units < 0x8000000000000000 * unitsPerOne)
    (h' : -0x8000000000000000 * unitsPerOne ≤ x.units) : x.isFinite = true := by
  have hne : x.exponentField ≠ 2047 := by
    intro he
    obtain ⟨k, hk, hU⟩ := exists_unitsPerOne_eq
    have hmagnitude := le_magnitude (x := x) (by omega)
    have hpow : 2 ^ 64 * 2 ^ k ≤ 2 ^ (51 + x.exponentField) := by
      rw [← Nat.pow_add]
      exact Nat.pow_le_pow_right (by decide) (by clear hU; omega)
    have habs := units_natAbs x
    have hU' : (unitsPerOne : Int) = ((2 ^ k : Nat) : Int) := by rw [hU]
    have hpos : 0 < 2 ^ k := Nat.two_pow_pos k
    rw [hU'] at h h'
    clear hU hU' hk
    generalize 2 ^ k = u at *
    generalize 2 ^ (51 + x.exponentField) = v at *
    omega
  simpa [isFinite] using hne

/-- The multiple of `U` next to `u` towards zero. -/
theorem tdiv_bounds (u : Int) {U : Int} (hU : 0 < U) :
    (0 ≤ u → u.tdiv U * U ≤ u ∧ u < u.tdiv U * U + U) ∧
      (u ≤ 0 → u ≤ u.tdiv U * U ∧ u.tdiv U * U < u + U) := by
  have hsplit := Int.tdiv_mul_add_tmod u U
  have hupper := Int.tmod_lt_of_pos u hU
  have hlower := Int.lt_tmod_of_pos u hU
  constructor
  · intro hu
    have hnonneg := Int.tmod_nonneg U hu
    omega
  · intro hu
    have hneg := Int.tmod_nonneg U (Int.neg_nonneg_of_nonpos hu)
    rw [Int.neg_tmod] at hneg
    omega

/-- An integer that differs from the integral part has the same order against the number itself. -/
theorem compare_tdiv {n u U : Int} (hU : 0 < U) (h : n ≠ u.tdiv U) :
    compare (n * U) u = compare n (u.tdiv U) := by
  obtain ⟨hnonneg, hnonpos⟩ := tdiv_bounds u hU
  generalize u.tdiv U = q at *
  rcases Int.lt_or_gt_of_ne h with hlt | hgt
  · rw [Int.compare_eq_lt.mpr hlt, Int.compare_eq_lt]
    have hstep : (n + 1) * U ≤ q * U := Int.mul_le_mul_of_nonneg_right hlt (Int.le_of_lt hU)
    rw [Int.add_mul, Int.one_mul] at hstep
    omega
  · rw [Int.compare_eq_gt.mpr hgt, Int.compare_eq_gt]
    have hstep : (q + 1) * U ≤ n * U := Int.mul_le_mul_of_nonneg_right hgt (Int.le_of_lt hU)
    rw [Int.add_mul, Int.one_mul] at hstep
    omega

/-- The number is in the range of the 64-bit integers. -/
def InRange (x : Binary64) : Prop :=
  x.isNaN = false ∧ x.units < 0x8000000000000000 * unitsPerOne ∧
    -0x8000000000000000 * unitsPerOne ≤ x.units

theorem InRange.isFinite {x : Binary64} (h : x.InRange) : x.isFinite = true :=
  isFinite_of_units_lt h.2.1 h.2.2

/-- So is its integral part. -/
theorem InRange.tdiv {x : Binary64} (h : x.InRange) :
    x.units.tdiv unitsPerOne < 0x8000000000000000 ∧
    -0x8000000000000000 ≤ x.units.tdiv unitsPerOne := by
  obtain ⟨-, hlt, hle⟩ := h
  have hU := unitsPerOne_pos
  obtain ⟨hnonneg, hnonpos⟩ := tdiv_bounds x.units hU
  generalize (unitsPerOne : Int) = U at *
  generalize x.units.tdiv U = q at *
  have hupper : q * U < 0x8000000000000000 * U := by omega
  have hlower : -0x8000000000000000 * U ≤ q * U := by omega
  exact ⟨Int.lt_of_mul_lt_mul_right hupper (Int.le_of_lt hU), Int.le_of_mul_le_mul_right hlower hU⟩

/-- **Conversion is exact** if the integral part is in range. -/
theorem toInt_toInt64 {x : Binary64} (hnan : x.isNaN = false)
    (hlt : x.units.tdiv unitsPerOne < 0x8000000000000000)
    (hle : -0x8000000000000000 ≤ x.units.tdiv unitsPerOne) :
    x.toInt64.toInt = x.units.tdiv unitsPerOne := by
  rw [toInt64, hnan, if_neg Bool.false_ne_true]
  generalize x.units.tdiv unitsPerOne = q at *
  have hclamp : max (-0x8000000000000000) (min 0x7fffffffffffffff q) = q := by omega
  rw [hclamp]
  exact Int64.toInt_ofInt_of_le (by simpa using hle) (by simpa using hlt)

theorem toInt_toInt64_truncate {x : Binary64} (h : x.InRange) :
    x.truncate.toInt64.toInt = x.units.tdiv unitsPerOne := by
  obtain ⟨hlt, hle⟩ := h.tdiv
  have htdiv : x.truncate.units.tdiv unitsPerOne = x.units.tdiv unitsPerOne := by
    rw [units_truncate, Int.mul_tdiv_cancel _ (Int.ne_of_gt unitsPerOne_pos)]
  rw [toInt_toInt64 (isNaN_of_isFinite (isFinite_truncate h.isFinite)) (htdiv ▸ hlt) (htdiv ▸ hle),
    htdiv]

/-- The order of an integer against a float that is not in range. -/
theorem compareInt?_of_not_inRange (n : Int64) {x : Binary64} (hnan : x.isNaN = false) :
    (0x8000000000000000 * unitsPerOne ≤ x.units → compareInt? n.toInt x = some .lt) ∧
      (x.units < -0x8000000000000000 * unitsPerOne → compareInt? n.toInt x = some .gt) := by
  have hU := unitsPerOne_pos
  have hlo := n.le_toInt
  have hhi := n.toInt_lt
  simp only [compareInt?, hnan, Bool.false_eq_true, if_false, Option.some.injEq]
  generalize (unitsPerOne : Int) = U at *
  constructor
  · intro h
    rw [Int.compare_eq_lt]
    have := Int.mul_lt_mul_of_pos_right hhi hU
    omega
  · intro h
    rw [Int.compare_eq_gt]
    have := Int.mul_le_mul_of_nonneg_right hlo (Int.le_of_lt hU)
    omega

/-- **The order of an integer against a float is that of the exact values.** -/
theorem compareInteger?_eq (n : Int64) (x : Binary64) :
    compareInteger? n x = compareInt? n.toInt x := by
  have hboundNaN : int64Bound.isNaN = false := by decide
  cases hnan : x.isNaN with
  | true => rw [compareInteger?, compareInt?, hnan, if_pos rfl, if_pos rfl]
  | false =>
      obtain ⟨habove, hbelow⟩ := compareInt?_of_not_inRange n hnan
      have hatLeast := lessOrEqual_iff int64Bound x
      have hless := less_iff x int64Bound.negate
      rw [units_int64Bound, hboundNaN, hnan] at hatLeast
      rw [units_negate_int64Bound, isNaN_negate, hboundNaN, hnan] at hless
      rw [compareInteger?, hnan, if_neg Bool.false_ne_true]
      by_cases hge : 0x8000000000000000 * unitsPerOne ≤ x.units
      · rw [if_pos (hatLeast.mpr ⟨rfl, rfl, hge⟩), habove hge]
      · by_cases hlt : x.units < -0x8000000000000000 * unitsPerOne
        · rw [if_neg fun h => hge (hatLeast.mp h).2.2, if_pos (hless.mpr ⟨rfl, rfl, hlt⟩),
            hbelow hlt]
        · rw [if_neg fun h => hge (hatLeast.mp h).2.2, if_neg fun h => hlt (hless.mp h).2.2]
          have hrange : x.InRange := ⟨hnan, Int.not_le.mp hge, Int.not_lt.mp hlt⟩
          rw [toInt_toInt64_truncate hrange, compare_zero_fraction hrange.isFinite,
            compareInt?, hnan, if_neg Bool.false_ne_true]
          -- In range the whole parts decide, and only between equal ones the fraction.
          by_cases heq : n.toInt = x.units.tdiv unitsPerOne
          · rw [heq, Int.compare_eq_eq.mpr rfl]
          · rw [compare_tdiv unitsPerOne_pos heq]
            cases hcmp : compare n.toInt (x.units.tdiv unitsPerOne) with
            | eq => exact absurd (Int.compare_eq_eq.mp hcmp) heq
            | lt => rfl
            | gt => rfl

/-! ## Floats that denote integers -/

theorem inRange_iff (x : Binary64) :
    x.InRange ↔ int64Bound.negate.lessOrEqual x = true ∧ x.less int64Bound = true := by
  have hboundNaN : int64Bound.isNaN = false := by decide
  rw [lessOrEqual_iff, less_iff, units_int64Bound, units_negate_int64Bound, isNaN_negate,
    hboundNaN, InRange]
  constructor
  · rintro ⟨hnan, hlt, hle⟩
    exact ⟨⟨rfl, hnan, hle⟩, hnan, rfl, hlt⟩
  · rintro ⟨⟨-, hnan, hle⟩, -, -, hlt⟩
    exact ⟨hnan, hlt, hle⟩

/-- A fraction is zero iff the number is its integral part. -/
theorem fraction_equals_zero_iff {x : Binary64} (h : x.isFinite = true) :
    x.fraction.equals zero = true ↔ x.units.tdiv unitsPerOne * unitsPerOne = x.units := by
  have hcomm : x.fraction.equals zero = true ↔ zero.equals x.fraction = true := by
    rw [equals_iff, equals_iff]
    constructor
    · rintro ⟨hx, hz, hu⟩
      exact ⟨hz, hx, hu.symm⟩
    · rintro ⟨hz, hx, hu⟩
      exact ⟨hx, hz, hu.symm⟩
  rw [hcomm, equals, compare_zero_fraction h, Option.some_beq_some, beq_iff_eq, Int.compare_eq_eq]

/-- **The integers in range that a number denotes are those with its value.** -/
theorem toInt64?_eq_some_iff (x : Binary64) (n : Int64) :
    x.toInt64? = some n ↔ x.isNaN = false ∧ x.units = n.toInt * unitsPerOne := by
  have hcond : ∀ y : Binary64, (y.fraction.equals zero && int64Bound.negate.lessOrEqual y &&
      y.less int64Bound) = true ↔ y.fraction.equals zero = true ∧ y.InRange := by
    intro y
    rw [Bool.and_eq_true, Bool.and_eq_true, and_assoc, inRange_iff]
  unfold toInt64?
  constructor
  · intro h
    split at h
    · next hc =>
      obtain ⟨hfraction, hrange⟩ := (hcond x).mp hc
      obtain ⟨hlt, hle⟩ := hrange.tdiv
      have hn : n.toInt = x.units.tdiv unitsPerOne := by
        rw [← Option.some.inj h, toInt_toInt64 hrange.1 hlt hle]
      exact ⟨hrange.1, by rw [hn, (fraction_equals_zero_iff hrange.isFinite).mp hfraction]⟩
    · cases h
  · rintro ⟨hnan, hunits⟩
    have hU := unitsPerOne_pos
    have hrange : x.InRange := by
      refine ⟨hnan, ?_, ?_⟩
      · rw [hunits]
        exact Int.mul_lt_mul_of_pos_right n.toInt_lt hU
      · rw [hunits]
        exact Int.mul_le_mul_of_nonneg_right n.le_toInt (Int.le_of_lt hU)
    have htdiv : x.units.tdiv unitsPerOne = n.toInt := by
      rw [hunits, Int.mul_tdiv_cancel _ (Int.ne_of_gt hU)]
    have hfraction : x.fraction.equals zero = true := by
      rw [fraction_equals_zero_iff hrange.isFinite, htdiv, hunits]
    rw [if_pos ((hcond x).mpr ⟨hfraction, hrange⟩), Option.some.injEq, ← Int64.toInt_inj,
      toInt_toInt64 hnan hrange.tdiv.1 hrange.tdiv.2, htdiv]

theorem toInt64?_of_units_eq_zero {x : Binary64} (hn : x.isNaN = false) (h : x.units = 0) :
    x.toInt64? = some 0 := by
  rw [toInt64?_eq_some_iff, h, Int64.toInt_zero, Int.zero_mul]
  exact ⟨hn, rfl⟩

end RuleMatching.Binary64
