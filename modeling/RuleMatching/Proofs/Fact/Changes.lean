import RuleMatching.Proofs.Fact

set_option autoImplicit false

/-! # The changed fields of two facts

An update passes by the joins that read no changed field, so a field that is missing among the
changed ones would leave stale matches behind. **The changed fields are exactly those whose values
are not identical, and no read and no operator tells the others apart**
(`Fact.changedFields_exact`). The list does not depend on which of the facts is the older one. -/

namespace RuleMatching

namespace Value

/-- Values that are structurally equal are equal, or floats of one value. -/
theorem cases_of_structurallyEqual {v w : Value} (h : v.structurallyEqual w = true) :
    v = w ∨ ∃ x y, v = float x ∧ w = float y ∧ x.equals y = true := by
  cases v with
  | float x =>
      cases w with
      | float y => exact Or.inr ⟨x, y, rfl, rfl, h⟩
      | null | boolean _ | integer _ | string _ | date _ => cases h
  | null | boolean _ | integer _ | string _ | date _ => exact Or.inl (eq_of_beq h)

theorem isIdentical_of_structurallyEqual {v w : Value} (h : v.structurallyEqual w = true) :
    v.isIdentical w = true := by
  rcases cases_of_structurallyEqual h with rfl | ⟨x, y, rfl, rfl, hxy⟩
  · exact isIdentical_refl v
  · have hkey : (float x).key = (float y).key :=
      (key_float_eq_iff x y).mpr (Or.inr ((Binary64.equals_iff x y).mp hxy))
    simp [isIdentical, kind?, hkey]

theorem isIdentical_comm (v w : Value) : v.isIdentical w = w.isIdentical v := by
  rw [isIdentical, isIdentical, Bool.beq_comm, Bool.beq_comm (a := v.key)]

end Value

namespace Fact

variable {a b : Fact}

/-- The order of the two facts does not matter. -/
theorem changedFields_comm (a b : Fact) : a.changedFields b = b.changedFields a := by
  refine (pairwise_changedFields a b).eq_of_mem_iff (pairwise_changedFields b a) fun field => ?_
  rw [mem_changedFields_iff, mem_changedFields_iff, Value.isIdentical_comm]

/-- Facts that are equal field by field have no changed fields, even if one has a field with null
that the other lacks. -/
theorem changedFields_eq_nil
    (h : ∀ field, a.value field = b.value field ∨
      (a.value field).structurallyEqual (b.value field) = true) : a.changedFields b = [] := by
  refine List.eq_nil_iff_forall_not_mem.mpr fun field hfield => ?_
  rw [mem_changedFields_iff] at hfield
  have hidentical : (a.value field).isIdentical (b.value field) = true := by
    rcases h field with heq | heq
    · rw [heq, Value.isIdentical_refl]
    · exact Value.isIdentical_of_structurallyEqual heq
  rw [hidentical] at hfield
  cases hfield

/-- **The changed fields are exactly those with values that are not identical**, in order and
each once, whichever of the facts is the older one. There are none if the facts are equal field
by field, where null counts as absent. The other fields read alike in facts of one type, or fail
to with the same error; and what is read has the same key and is told apart by no operator, on
either side of it. -/
theorem changedFields_exact (a b : Fact) :
    (a.changedFields b).Pairwise (· < ·) ∧
    (∀ field, field ∈ a.changedFields b ↔ (a.value field).isIdentical (b.value field) = false) ∧
    a.changedFields b = b.changedFields a ∧
    ((∀ field, a.value field = b.value field ∨
      (a.value field).structurallyEqual (b.value field) = true) →
      a.changedFields b = []) ∧
    (a.factType = b.factType → ∀ accessor : Accessor, accessor.field ∉ a.changedFields b →
      (∃ cause, accessor.read a = .error cause ∧ accessor.read b = .error cause) ∨
      ∃ v w, accessor.read a = .ok v ∧ accessor.read b = .ok w ∧ v.isIdentical w = true ∧
        v.key = w.key ∧
        ∀ (op : Operator) (u : Value), op.holds v u = op.holds w u ∧
        op.holds u v = op.holds u w) := by
  refine ⟨pairwise_changedFields a b, fun field => mem_changedFields_iff, changedFields_comm a b,
    changedFields_eq_nil, fun htype accessor hfield => ?_⟩
  refine (accessor.read_of_isIdentical htype
    (isIdentical_of_not_mem_changedFields hfield)).imp_right ?_
  rintro ⟨v, w, hv, hw, hvw⟩
  refine ⟨v, w, hv, hw, hvw, Value.key_eq_of_isIdentical hvw, fun op u => ?_⟩
  exact ⟨op.holds_congr hvw (Value.isIdentical_refl u),
    op.holds_congr (Value.isIdentical_refl u) hvw⟩

/-- Two versions of a payment: the amount becomes a float, the zero of the rate changes its sign,
and the note goes. -/
def payments : Fact × Fact :=
  (⟨"payment", .ofList [("amount", .integer 7), ("note", .null), ("rate", .float ⟨0⟩)]⟩,
    ⟨"payment", .ofList [("amount", .float ⟨0x401c000000000000⟩), ("payer", .string "Ada"),
      ("rate", .float ⟨0x8000000000000000⟩)]⟩)

/-- The change of kind counts, and so does the field that is new. The rates are zeros of either sign
and read alike. -/
theorem changedFields_exact_payments : payments.1.changedFields payments.2 = ["amount", "payer"] ∧
    payments.2.changedFields payments.1 = ["amount", "payer"] ∧
    ∃ v w, (Accessor.mk "payment" "rate" .float).read payments.1 = .ok v ∧
      (Accessor.mk "payment" "rate" .float).read payments.2 = .ok w ∧ v ≠ w ∧ v.key = w.key := by
  have hchanged : payments.1.changedFields payments.2 = ["amount", "payer"] := by decide +kernel
  obtain ⟨-, -, hcomm, -, hreads⟩ := changedFields_exact payments.1 payments.2
  refine ⟨hchanged, hcomm ▸ hchanged, ?_⟩
  have hrate : "rate" ∉ payments.1.changedFields payments.2 := by
    rw [hchanged]
    decide
  rcases hreads rfl ⟨"payment", "rate", .float⟩ hrate with
    ⟨cause, hfails, -⟩ | ⟨v, w, hv, hw, -, hkey, -⟩
  · cases hfails
  · refine ⟨v, w, hv, hw, fun hvw => ?_, hkey⟩
    cases hv
    cases hw
    exact absurd hvw (by decide)

end Fact

end RuleMatching
