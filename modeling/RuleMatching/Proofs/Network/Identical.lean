import RuleMatching.Proofs.Fact
import RuleMatching.Proofs.Network.Reached

set_option autoImplicit false

/-! # Facts with identical values

Facts of one type whose values are identical field by field are two versions without a changed
field. No operator tells identical values apart, so the tests on one fact answer alike for both if
the named tests do (`FieldTest.isAllowed_identical`). **The two then reach the same entries**
(`Network.matchingEntries_identical`). -/

namespace RuleMatching

/-- The test answers alike on identical values. -/
def ValueTest.RespectsIdentity (t : ValueTest) : Prop :=
  ∀ v v' : Value, v.isIdentical v' = true → t.holds v = t.holds v'

/-- A named test of the clause answers alike on identical values. -/
def Clause.TestsAlike : Clause → Prop
  | .valueTest _ t => t.RespectsIdentity
  | _ => True

def FieldTest.RespectsIdentity : FieldTest → Prop
  | .named _ t => t.RespectsIdentity
  | .literal .. => True

/-- The facts have one type and identical values in every field. -/
structure Fact.Identical (f f' : Fact) : Prop where
  factType : f.factType = f'.factType
  value : ∀ field, (f.value field).isIdentical (f'.value field) = true

/-- Versions of one type without a changed field are identical. -/
theorem Fact.identical_of_changedFields_eq_nil {f f' : Fact} (htype : f.factType = f'.factType)
    (h : f.changedFields f' = []) : f.Identical f' :=
  ⟨htype, fun _ => isIdentical_of_not_mem_changedFields (by rw [h]; exact List.not_mem_nil)⟩

section Tests

variable {f f' : Fact} (h : f.Identical f')

include h

/-- A field reads identically in both facts, or the same error comes of it. -/
theorem Accessor.read_identical (a : Accessor) :
    (∃ cause, a.read f = .error cause ∧ a.read f' = .error cause) ∨
    ReadsAlike (a.read f) (a.read f') :=
  read_of_isIdentical h.factType (h.value a.field)

theorem FieldTest.isAllowed_identical {t : FieldTest} (ht : t.RespectsIdentity) :
    t.isAllowed f = t.isAllowed f' := by
  unfold isAllowed
  rcases t.accessor.read_identical h with ⟨cause, hf, hf'⟩ | ⟨v, w, hf, hf', hvw⟩
  · rw [hf, hf']
  · rw [hf, hf']
    cases t with
    | literal a op c => exact congrArg Except.ok (op.holds_congr hvw (Value.isIdentical_refl c))
    | named a test => exact congrArg Except.ok (ht v w hvw)

theorem FieldTest.verdict_identical {tests : List FieldTest}
    (ht : ∀ t ∈ tests, t.RespectsIdentity) : verdict tests f = verdict tests f' := by
  induction tests with
  | nil => rfl
  | cons t rest ih =>
      obtain ⟨hfirst, hrest⟩ := List.forall_mem_cons.mp ht
      rw [verdict, andThen, andThen, isAllowed_identical h hfirst, ih hrest]

/-- **The clauses of a pattern say the same of both facts.** -/
theorem Pattern.verdict_identical {schemas : SchemaRegistry} {p : Pattern}
    (hp : ∀ c ∈ p.clauses, c.TestsAlike) : p.verdict schemas f = p.verdict schemas f' := by
  refine FieldTest.verdict_identical h fun t ht => ?_
  unfold fieldTests at ht
  split at ht
  · obtain ⟨c, hc, hct⟩ := List.mem_filterMap.mp ht
    have hc := hp c hc
    cases c with
    | literal field op value =>
        obtain ⟨a, -, hct⟩ := Option.bind_eq_some_iff.mp hct
        obtain ⟨v, -, hct⟩ := Option.bind_eq_some_iff.mp hct
        cases hct
        trivial
    | valueTest field test =>
        obtain ⟨a, -, hct⟩ := Option.bind_eq_some_iff.mp hct
        cases hct
        exact hc
    | join => cases hct
    | relation => cases hct
  · cases ht

end Tests

/-- **Facts with identical values reach the same entries.** -/
theorem Network.matchingEntries_identical {rules : List Rule} {schemas : SchemaRegistry}
    {config : Config} {net : Network} (hbuild : build rules schemas config = .ok net)
    (htests : ∀ rule ∈ rules, ∀ p ∈ rule.patterns, ∀ c ∈ p.clauses, c.TestsAlike) {f f' : Fact}
    (h : f.Identical f') (l : List NodeId) :
    net.matchingEntries f = .ok l ↔ net.matchingEntries f' = .ok l := by
  have hsame : ∀ x ∈ net.verdictsFor f.factType, x.2 f = x.2 f' := by
    rintro ⟨n, v⟩ hx
    obtain ⟨k, i, rule, p, hk, hp, ⟨-, rfl⟩, -⟩ := (mem_verdictsFor_build hbuild).mp hx
    exact Pattern.verdict_identical h
      (htests rule (List.mem_of_getElem? hk) p (List.mem_of_getElem? hp))
  have hpasses : ∀ x ∈ net.verdictsFor f.factType, x.2.passes f = x.2.passes f' := fun x hx => by
    simp only [Verdict.passes, hsame x hx]
  rw [matchingEntries_eq_ok_iff hbuild, matchingEntries_eq_ok_iff hbuild, ← h.factType,
    List.filter_congr hpasses]
  exact and_congr_left fun _ => forall₂_congr fun x hx => by rw [hsame x hx]

end RuleMatching
