import RuleMatching.Operator
import RuleMatching.Proofs.Binary64.Truncation

set_option autoImplicit false

/-! # Values that an index or an operator cannot tell apart

Keys decide null-safe equality (`Value.nullSafeEq_iff`). Identical values are accepted by the same
kinds of fields and agree under every operator (`Operator.holds_congr`), so a change of a field from
one to the other is no change for a join. -/

namespace RuleMatching

namespace Value

/-! ## Keys -/

theorem key_float (x : Binary64) :
    (float x).key =
      if x.isNaN then .float Binary64.canonicalNaN.bits
      else match x.toInt64? with
        | some n => .integer n
        | none => .float x.bits := rfl

theorem key_float_of_isNaN {x : Binary64} (h : x.isNaN = true) :
    (float x).key = .float Binary64.canonicalNaN.bits := by
  simp [key, h]

theorem key_float_eq_integer_iff (x : Binary64) (n : Int64) :
    (float x).key = .integer n ↔ x.toInt64? = some n := by
  rw [key_float]
  cases hx : x.isNaN with
  | true =>
      rw [if_pos rfl, Binary64.toInt64?_eq_some_iff, hx]
      simp only [reduceCtorEq, Bool.true_eq_false, false_and]
  | false =>
      rw [if_neg Bool.false_ne_true]
      cases x.toInt64? <;> simp

theorem key_float_of_toInt64?_eq_none {x : Binary64} (hx : x.isNaN = false)
    (h : x.toInt64? = none) : (float x).key = .float x.bits := by
  simp [key, hx, h]

/-- The key of a number is not that of the NaNs. -/
theorem key_float_ne_canonicalNaN {x : Binary64} (hx : x.isNaN = false) :
    (float x).key ≠ .float Binary64.canonicalNaN.bits := by
  intro h
  cases hi : x.toInt64? with
  | some n =>
      rw [(key_float_eq_integer_iff x n).mpr hi] at h
      cases h
  | none =>
      rw [key_float_of_toInt64?_eq_none hx hi, Key.float.injEq] at h
      have hnan : x.isNaN = Binary64.canonicalNaN.isNaN := by
        unfold Binary64.isNaN Binary64.exponentField Binary64.fractionField
        rw [h]
      rw [hx] at hnan
      exact absurd hnan (by decide)

/-- Two floats share a key iff both are NaNs or both are numbers of one value. -/
theorem key_float_eq_iff (x y : Binary64) :
    (float x).key = (float y).key ↔
      (x.isNaN = true ∧ y.isNaN = true) ∨
      (x.isNaN = false ∧ y.isNaN = false ∧ x.units = y.units) := by
  cases hx : x.isNaN with
  | true =>
      rw [key_float_of_isNaN hx]
      cases hy : y.isNaN with
      | true => simp [key_float_of_isNaN hy]
      | false => simpa using (key_float_ne_canonicalNaN hy).symm
  | false =>
      cases hy : y.isNaN with
      | true => simpa [key_float_of_isNaN hy] using key_float_ne_canonicalNaN hx
      | false =>
          simp only [Bool.false_eq_true, false_and, true_and, false_or]
          constructor
          · intro h
            -- A float with the value of an integer has the key of the integer; the others
            -- keep their bits.
            cases hi : x.toInt64? with
            | some n =>
                rw [(key_float_eq_integer_iff x n).mpr hi] at h
                have hj := (key_float_eq_integer_iff y n).mp h.symm
                rw [((Binary64.toInt64?_eq_some_iff x n).mp hi).2,
                  ((Binary64.toInt64?_eq_some_iff y n).mp hj).2]
            | none =>
                rw [key_float_of_toInt64?_eq_none hx hi] at h
                cases hj : y.toInt64? with
                | some n =>
                    rw [(key_float_eq_integer_iff y n).mpr hj] at h
                    cases h
                | none =>
                    rw [key_float_of_toInt64?_eq_none hy hj, Key.float.injEq] at h
                    unfold Binary64.units Binary64.magnitude Binary64.isNegative
                      Binary64.significand Binary64.shift Binary64.exponentField
                      Binary64.fractionField
                    rw [h]
          · intro hu
            -- The two zeros are the only numbers of one value with different bits.
            by_cases h0 : x.units = 0
            · rw [(key_float_eq_integer_iff x 0).mpr (Binary64.toInt64?_of_units_eq_zero hx h0),
                (key_float_eq_integer_iff y 0).mpr
                  (Binary64.toInt64?_of_units_eq_zero hy (hu ▸ h0))]
            · rw [Binary64.bits_of_units hu h0]

/-- The key of a float is that of an integer or keeps some bits. -/
theorem key_float_cases (x : Binary64) :
    (∃ n, (float x).key = .integer n) ∨ ∃ w, (float x).key = .float w := by
  rw [key_float]
  split
  · exact Or.inr ⟨_, rfl⟩
  · split
    · next n _ => exact Or.inl ⟨n, rfl⟩
    · exact Or.inr ⟨_, rfl⟩

theorem key_eq_null_iff (v : Value) : v.key = .null ↔ v = null := by
  cases v with
  | float x => rcases key_float_cases x with ⟨n, h⟩ | ⟨w, h⟩ <;> rw [h] <;> simp
  | null | boolean _ | integer _ | string _ | date _ => simp [key]

/-- **Values are equal for the operator `==` iff their keys are equal.** -/
theorem nullSafeEq_iff (a b : Value) : a.nullSafeEq b = true ↔ a.key = b.key := by
  cases a with
  | null =>
      have hnull : (null : Value).nullSafeEq b = true ↔ b = null := by cases b <;> simp [nullSafeEq]
      rw [hnull, ← key_eq_null_iff]
      exact eq_comm
  | boolean _ | integer _ | float _ | string _ | date _ =>
      cases b with
      | null =>
          rw [show (null : Value).key = .null from rfl, key_eq_null_iff]
          simp [nullSafeEq]
      | boolean _ | integer _ | float _ | string _ | date _ =>
          first
          | exact beq_iff_eq
          | simp [nullSafeEq, key]

/-! ## Identical values -/

theorem isIdentical_refl (a : Value) : a.isIdentical a = true := by simp [isIdentical]

theorem key_eq_of_isIdentical {a b : Value} (h : a.isIdentical b = true) : a.key = b.key := by
  simp only [isIdentical, Bool.and_eq_true, beq_iff_eq] at h
  exact h.2

/-- Identical values are equal, or floats without a difference in value. -/
theorem cases_of_isIdentical {a b : Value} (h : a.isIdentical b = true) :
    a = b ∨ ∃ x y, a = float x ∧ b = float y ∧ x.isNaN = y.isNaN ∧
    (x.isNaN = false → x.units = y.units) := by
  simp only [isIdentical, Bool.and_eq_true, beq_iff_eq] at h
  obtain ⟨hkind, hkey⟩ := h
  cases a with
  | float x =>
      cases b with
      | float y =>
          refine Or.inr ⟨x, y, rfl, rfl, ?_⟩
          rcases (key_float_eq_iff x y).mp hkey with ⟨hx, hy⟩ | ⟨hx, hy, hu⟩
          · exact ⟨hx.trans hy.symm, fun h => by rw [hx] at h; cases h⟩
          · exact ⟨hx.trans hy.symm, fun _ => hu⟩
      | null | boolean _ | integer _ | string _ | date _ => cases hkind
  | null | boolean _ | integer _ | string _ | date _ =>
      cases b <;> simp_all [kind?, key]

/-- Which kinds of fields accept a value depends on its kind alone. -/
theorem accepts_of_isIdentical {a b : Value} (h : a.isIdentical b = true) (kind : Kind) :
    kind.accepts a = kind.accepts b := by
  rcases cases_of_isIdentical h with rfl | ⟨x, y, rfl, rfl, _⟩
  · rfl
  · cases kind <;> rfl

theorem compare?_integer_float (n : Int64) (x : Binary64) :
    (integer n).compare? (float x) = Binary64.compareInt? n.toInt x :=
  Binary64.compareInteger?_eq n x

theorem compare?_float_integer (x : Binary64) (n : Int64) :
    (float x).compare? (integer n) = (Binary64.compareInt? n.toInt x).map Ordering.swap :=
  congrArg (Option.map Ordering.swap) (Binary64.compareInteger?_eq n x)

theorem compare?_congr {a a' b b' : Value} (ha : a.isIdentical a' = true)
    (hb : b.isIdentical b' = true) : a.compare? b = a'.compare? b' := by
  have hleft : ∀ c : Value, a.compare? c = a'.compare? c := by
    intro c
    rcases cases_of_isIdentical ha with rfl | ⟨x, y, rfl, rfl, hn, hu⟩
    · rfl
    · cases c with
      | float z => exact (Binary64.compare?_congr hn hu z).1
      | integer n =>
          rw [compare?_float_integer, compare?_float_integer,
            Binary64.compareInt?_congr hn hu n.toInt]
      | null | boolean _ | string _ | date _ => rfl
  have hright : ∀ c : Value, c.compare? b = c.compare? b' := by
    intro c
    rcases cases_of_isIdentical hb with rfl | ⟨x, y, rfl, rfl, hn, hu⟩
    · rfl
    · cases c with
      | float z => exact (Binary64.compare?_congr hn hu z).2
      | integer n =>
          rw [compare?_integer_float, compare?_integer_float,
            Binary64.compareInt?_congr hn hu n.toInt]
      | null | boolean _ | string _ | date _ => rfl
  rw [hleft, hright]

theorem nullSafeEq_congr {a a' b b' : Value} (ha : a.isIdentical a' = true)
    (hb : b.isIdentical b' = true) : a.nullSafeEq b = a'.nullSafeEq b' := by
  rw [Bool.eq_iff_iff, nullSafeEq_iff, nullSafeEq_iff, key_eq_of_isIdentical ha,
    key_eq_of_isIdentical hb]

end Value

/-- **No operator tells identical values apart.** -/
theorem Operator.holds_congr (op : Operator) {a a' b b' : Value} (ha : a.isIdentical a' = true)
    (hb : b.isIdentical b' = true) : op.holds a b = op.holds a' b' := by
  unfold Operator.holds
  rw [Value.compare?_congr ha hb, Value.nullSafeEq_congr ha hb]

/-! ## Values of one key -/

namespace Value

/-- Values of one key are identical, or an integer and the float of its value. -/
theorem cases_of_key_eq {a b : Value} (h : a.key = b.key) :
    a.isIdentical b = true ∨ (∃ n x, a = integer n ∧ b = float x ∧ x.toInt64? = some n) ∨
      ∃ n x, a = float x ∧ b = integer n ∧ x.toInt64? = some n := by
  have hkind : a.kind? = b.kind? → a.isIdentical b = true := fun hk => by simp [isIdentical, hk, h]
  cases a with
  | float x =>
      cases b with
      | float y => exact Or.inl (hkind rfl)
      | integer n => exact Or.inr (Or.inr ⟨n, x, rfl, rfl, (key_float_eq_integer_iff x n).mp h⟩)
      | null | boolean _ | string _ | date _ =>
          rcases key_float_cases x with ⟨n, hx⟩ | ⟨w, hx⟩ <;> rw [hx] at h <;> cases h
  | integer n =>
      cases b with
      | float y => exact Or.inr (Or.inl ⟨n, y, rfl, rfl, (key_float_eq_integer_iff y n).mp h.symm⟩)
      | integer m => exact Or.inl (hkind rfl)
      | null | boolean _ | string _ | date _ => cases h
  | null | boolean _ | string _ | date _ =>
      cases b with
      | float y => rcases key_float_cases y with ⟨n, hy⟩ | ⟨w, hy⟩ <;> rw [hy] at h <;> cases h
      | null | boolean _ | integer _ | string _ | date _ =>
          first
          | exact Or.inl (hkind rfl)
          | cases h

/-- Nothing has another place in the order against an integer than against the float
of its value. -/
theorem compare?_float_of_toInt64? {n : Int64} {x : Binary64} (h : x.toInt64? = some n)
    (c : Value) : c.compare? (float x) = c.compare? (integer n) := by
  obtain ⟨hnan, hunits⟩ := (Binary64.toInt64?_eq_some_iff x n).mp h
  cases c with
  | integer m =>
      rw [compare?_integer_float, Binary64.compareInt?, hnan, if_neg Bool.false_ne_true, hunits,
        Binary64.compare_mul_unitsPerOne]
      rfl
  | float y =>
      rw [compare?_float_integer, compare?, Binary64.compare?, Binary64.compareInt?, hnan, hunits,
        Bool.or_false]
      split
      · rfl
      · rw [Option.map_some, Int.compare_swap]
  | null | boolean _ | string _ | date _ => rfl

theorem compare?_of_key_eq {b b' : Value} (h : b.key = b'.key) (c : Value) :
    c.compare? b = c.compare? b' := by
  rcases cases_of_key_eq h with hid | ⟨n, x, rfl, rfl, hx⟩ | ⟨n, x, rfl, rfl, hx⟩
  · exact compare?_congr (isIdentical_refl c) hid
  · exact (compare?_float_of_toInt64? hx c).symm
  · exact compare?_float_of_toInt64? hx c

end Value

/-- **No operator tells apart two literals of one key**, be they of different kinds. -/
theorem Operator.holds_of_key_eq (op : Operator) {b b' : Value} (h : b.key = b'.key) (c : Value) :
    op.holds c b = op.holds c b' := by
  have heq : c.nullSafeEq b = c.nullSafeEq b' := by
    rw [Bool.eq_iff_iff, Value.nullSafeEq_iff, Value.nullSafeEq_iff, h]
  unfold Operator.holds
  rw [Value.compare?_of_key_eq h, heq]

end RuleMatching
