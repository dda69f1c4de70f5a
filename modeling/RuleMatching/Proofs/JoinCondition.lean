import Mathlib.Data.List.TakeWhile
import RuleMatching.Constraint.JoinCondition
import RuleMatching.Proofs.Fact

set_option autoImplicit false

/-! # Keys and filters of a join decide its tests

Let a pair be given whose fields the tests can read. Both keys of the pair then exist, the filters
give an answer, and the keys are equal and the filters let the pair pass iff it passes all tests of
the condition (`JoinCondition.passes_iff`). How many of the tests the index decides is thus of no
consequence. A pair with fields that read alike has the same keys and passes the same tests. -/

namespace RuleMatching

/-- The relation answers alike on identical values. -/
def ValueRelation.RespectsIdentity (r : ValueRelation) : Prop :=
  ∀ v v' w w' : Value, v.isIdentical v' = true → w.isIdentical w' = true →
  r.holds v w = r.holds v' w'

namespace JoinTest

/-- The test holds for the pair. -/
def passes (t : JoinTest) (bound : List Fact) (candidate : Fact) : Bool :=
  match t.isAllowed bound candidate with
  | .ok b => b
  | .error _ => false

theorem passes_iff (t : JoinTest) (bound : List Fact) (candidate : Fact) :
    t.passes bound candidate = true ↔ t.isAllowed bound candidate = .ok true := by
  unfold passes
  split <;> simp_all

/-- A test whose fields can be read gives an answer. -/
theorem isAllowed_eq_ok {t : JoinTest} {bound : List Fact} {candidate : Fact}
    (hb : ∃ v, t.declaration.read bound = .ok v) (hc : ∃ v, t.accessor.read candidate = .ok v) :
    t.isAllowed bound candidate = .ok (t.passes bound candidate) := by
  obtain ⟨v, hv⟩ := hb
  obtain ⟨w, hw⟩ := hc
  have h : ∃ b, t.isAllowed bound candidate = .ok b := by
    unfold isAllowed
    rw [hv, hw]
    exact ⟨_, rfl⟩
  obtain ⟨b, hb⟩ := h
  rw [passes, hb]

/-- Equal keys decide an indexable test. -/
theorem passes_iff_key_eq {t : JoinTest} (ht : t.isIndexable = true) {bound : List Fact}
    {candidate : Fact} {v w : Value} (hv : t.declaration.read bound = .ok v)
    (hw : t.accessor.read candidate = .ok w) : t.passes bound candidate = true ↔ v.key = w.key := by
  rw [passes_iff]
  cases t with
  | related accessor declaration relation => cases ht
  | compare accessor operator declaration =>
      cases operator with
      | equal =>
          have heq : (compare accessor .equal declaration).isAllowed bound candidate =
              .ok (w.nullSafeEq v) := by
            unfold isAllowed
            rw [hv, hw]
            rfl
          rw [heq, Except.ok.injEq, Value.nullSafeEq_iff]
          exact eq_comm
      | notEqual | greater | greaterOrEqual | less | lessOrEqual => cases ht

/-- The test answers alike on identical values. -/
def RespectsIdentity : JoinTest → Prop
  | compare .. => True
  | related _ _ relation => relation.RespectsIdentity

theorem passes_congr {t : JoinTest} (ht : t.RespectsIdentity) {bound bound' : List Fact}
    {candidate candidate' : Fact}
    (hb : ReadsAlike (t.declaration.read bound) (t.declaration.read bound'))
    (hc : ReadsAlike (t.accessor.read candidate) (t.accessor.read candidate')) :
    t.passes bound candidate = t.passes bound' candidate' := by
  obtain ⟨v, v', hv, hv', hvv⟩ := hb
  obtain ⟨w, w', hw, hw', hww⟩ := hc
  have h : t.isAllowed bound candidate = t.isAllowed bound' candidate' := by
    cases t with
    | compare accessor operator declaration =>
        unfold isAllowed
        rw [hv, hv', hw, hw']
        exact congrArg Except.ok (operator.holds_congr hww hvv)
    | related accessor declaration relation =>
        unfold isAllowed
        rw [hv, hv', hw, hw']
        exact congrArg Except.ok (ht w w' v v' hww hvv)
  rw [passes, passes, h]

end JoinTest

namespace JoinCondition

/-- The tests can read the facts bound so far. -/
def BoundReadable (c : JoinCondition) (bound : List Fact) : Prop :=
  ∀ t ∈ c.tests, ∃ v, t.declaration.read bound = .ok v

/-- The tests can read the candidate. -/
def CandidateReadable (c : JoinCondition) (candidate : Fact) : Prop :=
  ∀ t ∈ c.tests, ∃ v, t.accessor.read candidate = .ok v

/-- The index decides equalities only. -/
def Indexable (c : JoinCondition) : Prop := ∀ t ∈ c.keyed, t.isIndexable = true

/-- The pair passes all tests. -/
def passes (c : JoinCondition) (bound : List Fact) (candidate : Fact) : Bool :=
  c.tests.all (·.passes bound candidate)

theorem keyed_subset (c : JoinCondition) {t : JoinTest} (ht : t ∈ c.keyed) : t ∈ c.tests :=
  List.mem_of_mem_take ht

theorem filters_subset (c : JoinCondition) {t : JoinTest} (ht : t ∈ c.filters) : t ∈ c.tests :=
  List.mem_of_mem_drop ht

theorem keyed_eq_nil {c : JoinCondition} (h : c.isIndexed = false) : c.keyed = [] := by
  have h0 : c.keyCount = 0 := by simpa [isIndexed] using h
  rw [keyed, h0, List.take_zero]

theorem indexable_ofTests (tests : List JoinTest) (depth : Nat) :
    (ofTests tests depth).Indexable := by
  intro t ht
  have hprefix : (tests.takeWhile JoinTest.isIndexable).take depth <+: tests :=
    (List.take_prefix _ _).trans (List.takeWhile_prefix _)
  have hkeyed :
      (ofTests tests depth).keyed = (tests.takeWhile JoinTest.isIndexable).take depth := by
    rw [keyed, ofTests]
    exact (List.prefix_iff_eq_take.mp hprefix).symm
  rw [hkeyed] at ht
  exact List.mem_takeWhile_imp (List.mem_of_mem_take ht)

/-! ## Keys -/

/-- The keys of the fields that the tests read, up to the first that cannot be read. -/
theorem mapM_keys (tests : List JoinTest) (read : JoinTest → Except ReadError Value)
    {value : JoinTest → Value} (h : ∀ t ∈ tests, read t = .ok (value t)) :
    tests.mapM (fun t => do return (← read t).key) = .ok (tests.map fun t => (value t).key) := by
  induction tests with
  | nil => rfl
  | cons t rest ih =>
      have hrest := ih fun u hu => h u (List.mem_cons_of_mem t hu)
      rw [List.mapM_cons, h t List.mem_cons_self, hrest]
      rfl

/-- The value of a read, null if it fails. -/
def valueOf (r : Except ReadError Value) : Value := r.toOption.getD .null

theorem eq_ok_valueOf {r : Except ReadError Value} (h : ∃ v, r = .ok v) : r = .ok (valueOf r) := by
  obtain ⟨v, rfl⟩ := h
  rfl

theorem leftKey_eq {c : JoinCondition} {bound : List Fact} (h : c.BoundReadable bound) :
    c.leftKey bound = .ok (if c.isIndexed then
      some (c.keyed.map fun t => (valueOf (t.declaration.read bound)).key) else none) := by
  have hkeys := mapM_keys c.keyed (fun t => t.declaration.read bound)
    fun t ht => eq_ok_valueOf (h t (c.keyed_subset ht))
  unfold leftKey
  split
  · rw [hkeys]
    rfl
  · rfl

theorem rightKey_eq {c : JoinCondition} {candidate : Fact} (h : c.CandidateReadable candidate) :
    c.rightKey candidate = .ok (if c.isIndexed then
      some (c.keyed.map fun t => (valueOf (t.accessor.read candidate)).key) else none) := by
  have hkeys := mapM_keys c.keyed (fun t => t.accessor.read candidate)
    fun t ht => eq_ok_valueOf (h t (c.keyed_subset ht))
  unfold rightKey
  split
  · rw [hkeys]
    rfl
  · rfl

/-- A key is there iff there is an index. -/
theorem leftKey_isSome {c : JoinCondition} {bound : List Fact} {k : Option IndexKey}
    (h : c.leftKey bound = .ok k) (hr : c.BoundReadable bound) : k.isSome = c.isIndexed := by
  rw [leftKey_eq hr, Except.ok.injEq] at h
  subst h
  cases c.isIndexed <;> rfl

theorem rightKey_isSome {c : JoinCondition} {candidate : Fact} {k : Option IndexKey}
    (h : c.rightKey candidate = .ok k) (hr : c.CandidateReadable candidate) :
    k.isSome = c.isIndexed := by
  rw [rightKey_eq hr, Except.ok.injEq] at h
  subst h
  cases c.isIndexed <;> rfl

/-! ## Filters -/

theorem allAllowed_eq {bound : List Fact} {candidate : Fact} {tests : List JoinTest}
    (h : ∀ t ∈ tests, t.isAllowed bound candidate = .ok (t.passes bound candidate)) :
    allAllowed bound candidate tests = .ok (tests.all (·.passes bound candidate)) := by
  induction tests with
  | nil => rfl
  | cons t rest ih =>
      have hrest := ih fun u hu => h u (List.mem_cons_of_mem t hu)
      rw [allAllowed, h t List.mem_cons_self]
      cases hp : t.passes bound candidate with
      | false =>
          rw [List.all_cons, hp, Bool.false_and]
          rfl
      | true =>
          rw [List.all_cons, hp, Bool.true_and]
          exact hrest

theorem isAllowed_eq {c : JoinCondition} {bound : List Fact} {candidate : Fact}
    (hb : c.BoundReadable bound) (hc : c.CandidateReadable candidate) :
    c.isAllowed bound candidate = .ok (c.filters.all (·.passes bound candidate)) :=
  allAllowed_eq fun t ht =>
    JoinTest.isAllowed_eq_ok (hb t (c.filters_subset ht)) (hc t (c.filters_subset ht))

/-- **Equal keys and the filters decide the condition.** -/
theorem passes_iff {c : JoinCondition} (hi : c.Indexable) {bound : List Fact} {candidate : Fact}
    (hb : c.BoundReadable bound) (hc : c.CandidateReadable candidate) {lk rk : Option IndexKey}
    (hlk : c.leftKey bound = .ok lk) (hrk : c.rightKey candidate = .ok rk) :
    c.passes bound candidate = true ↔
      rk = lk ∧ c.filters.all (·.passes bound candidate) = true := by
  have hsplit : c.passes bound candidate =
      (c.keyed.all (·.passes bound candidate) && c.filters.all (·.passes bound candidate)) := by
    rw [passes, ← List.all_append, keyed, filters, List.take_append_drop]
  have hkeyed : c.keyed.all (·.passes bound candidate) = true ↔ rk = lk := by
    rw [leftKey_eq hb, Except.ok.injEq] at hlk
    rw [rightKey_eq hc, Except.ok.injEq] at hrk
    subst hlk hrk
    cases hidx : c.isIndexed with
    | false => simp [keyed_eq_nil hidx]
    | true =>
        simp only [if_true, Option.some.injEq, List.map_inj_left, List.all_eq_true]
        refine forall₂_congr fun t ht => ?_
        rw [JoinTest.passes_iff_key_eq (hi t ht) (eq_ok_valueOf (hb t (c.keyed_subset ht)))
          (eq_ok_valueOf (hc t (c.keyed_subset ht)))]
        exact eq_comm
  rw [hsplit, Bool.and_eq_true, hkeyed]

/-! ## Fields that read alike -/

theorem leftKey_congr {c : JoinCondition} {bound bound' : List Fact}
    (h : ∀ t ∈ c.tests, ReadsAlike (t.declaration.read bound) (t.declaration.read bound')) :
    c.leftKey bound = c.leftKey bound' := by
  have hb : c.BoundReadable bound := fun t ht => by
    obtain ⟨v, _, hv, _⟩ := h t ht
    exact ⟨v, hv⟩
  have hb' : c.BoundReadable bound' := fun t ht => by
    obtain ⟨_, w, _, hw, _⟩ := h t ht
    exact ⟨w, hw⟩
  have hkeys : ∀ t ∈ c.keyed, (valueOf (t.declaration.read bound)).key =
      (valueOf (t.declaration.read bound')).key := by
    intro t ht
    obtain ⟨v, w, hv, hw, hid⟩ := h t (c.keyed_subset ht)
    rw [hv, hw]
    exact Value.key_eq_of_isIdentical hid
  rw [leftKey_eq hb, leftKey_eq hb', List.map_congr_left hkeys]

theorem rightKey_congr {c : JoinCondition} {candidate candidate' : Fact}
    (h : ∀ t ∈ c.tests, ReadsAlike (t.accessor.read candidate) (t.accessor.read candidate')) :
    c.rightKey candidate = c.rightKey candidate' := by
  have hc : c.CandidateReadable candidate := fun t ht => by
    obtain ⟨v, _, hv, _⟩ := h t ht
    exact ⟨v, hv⟩
  have hc' : c.CandidateReadable candidate' := fun t ht => by
    obtain ⟨_, w, _, hw, _⟩ := h t ht
    exact ⟨w, hw⟩
  have hkeys : ∀ t ∈ c.keyed, (valueOf (t.accessor.read candidate)).key =
      (valueOf (t.accessor.read candidate')).key := by
    intro t ht
    obtain ⟨v, w, hv, hw, hid⟩ := h t (c.keyed_subset ht)
    rw [hv, hw]
    exact Value.key_eq_of_isIdentical hid
  rw [rightKey_eq hc, rightKey_eq hc', List.map_congr_left hkeys]

theorem passes_congr {c : JoinCondition} (hc : ∀ t ∈ c.tests, t.RespectsIdentity)
    {bound bound' : List Fact} {candidate candidate' : Fact}
    (hb : ∀ t ∈ c.tests, ReadsAlike (t.declaration.read bound) (t.declaration.read bound'))
    (hr : ∀ t ∈ c.tests, ReadsAlike (t.accessor.read candidate) (t.accessor.read candidate')) :
    c.passes bound candidate = c.passes bound' candidate' := by
  rw [passes, passes, Bool.eq_iff_iff, List.all_eq_true, List.all_eq_true]
  refine forall₂_congr fun t ht => ?_
  rw [JoinTest.passes_congr (hc t ht) (hb t ht) (hr t ht)]

end JoinCondition

end RuleMatching
