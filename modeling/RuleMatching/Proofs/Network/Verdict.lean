import RuleMatching.Network.Compile
import RuleMatching.Proofs.Outcome
import RuleMatching.Proofs.Value

set_option autoImplicit false

/-! # What the tests on a way say

The tests that lead to an entry are tried in order until one fails (`FieldTest.verdict`).
`Routes.verdicts` lists for each entry what the tests on its way say, and a search of the routes
finds what these say (`Routes.matching_eq_ok_iff`) although it evaluates each test once
(`Routes.search`). Tests that ask for the same say the same (`FieldTest.isAllowed_congr`), which is
what allows them to be shared. -/

namespace RuleMatching

open Outcome

/-- Whether a fact passes, unless that cannot be told. -/
abbrev Verdict : Type := Fact → Except ReadError Bool

/-- Whether the fact is known to pass. -/
def Verdict.passes (v : Verdict) (f : Fact) : Bool :=
  match v f with
  | .ok b => b
  | .error _ => false

theorem Verdict.passes_iff {v : Verdict} {f : Fact} : v.passes f = true ↔ v f = .ok true := by
  unfold passes
  cases v f <;> simp

namespace FieldTest

/-- The test first, and what follows if it passes. -/
def andThen (t : FieldTest) (v : Verdict) : Verdict := fun f => do
  if ← t.isAllowed f then v f else return false

/-- What a list of tests says: they are tried in order until one fails. -/
def verdict : List FieldTest → Verdict
  | [] => fun _ => .ok true
  | t :: rest => t.andThen (verdict rest)

section AndThen

variable {t : FieldTest} {f : Fact} (v : Verdict)

theorem andThen_of_true (h : t.isAllowed f = .ok true) : t.andThen v f = v f := by
  rw [andThen, h]
  rfl

theorem andThen_of_false (h : t.isAllowed f = .ok false) : t.andThen v f = .ok false := by
  rw [andThen, h]
  rfl

theorem andThen_of_error {cause : ReadError} (h : t.isAllowed f = .error cause) :
    t.andThen v f = .error cause := by
  rw [andThen, h]
  rfl

end AndThen

/-- What a test asks for. Of a literal only the key matters. -/
def content : FieldTest → TestSignature ⊕ (Accessor × ValueTest)
  | literal accessor op value => .inl ⟨accessor, op, value.key⟩
  | named accessor test => .inr (accessor, test)

theorem content_of_signature? {t : FieldTest} {s : TestSignature} (h : t.signature? = some s) :
    t.content = .inl s := by
  cases t with
  | literal => exact congrArg Sum.inl (Option.some.inj h)
  | named => cases h

/-- **Tests that ask for the same say the same of every fact.** -/
theorem isAllowed_congr {t t' : FieldTest} (h : t.content = t'.content) :
    t.isAllowed = t'.isAllowed := by
  cases t with
  | named =>
      cases t' with
      | literal => cases h
      | named =>
          cases h
          rfl
  | literal accessor op value =>
      cases t' with
      | named => cases h
      | literal accessor' op' value' =>
          simp only [content, Sum.inl.injEq, TestSignature.mk.injEq] at h
          obtain ⟨rfl, rfl, hkey⟩ := h
          funext f
          unfold isAllowed
          -- The literals may be of different kinds, but no operator tells them apart.
          exact bind_congr fun v => congrArg pure (op.holds_of_key_eq hkey v)

theorem verdict_congr {tests tests' : List FieldTest} (h : tests.map content = tests'.map content) :
    verdict tests = verdict tests' := by
  induction tests generalizing tests' with
  | nil =>
      rw [List.map_nil, eq_comm, List.map_eq_nil_iff] at h
      rw [h]
  | cons t rest ih =>
      obtain ⟨t', rest', rfl, ht, hrest⟩ := List.map_eq_cons_iff.mp h.symm
      rw [verdict, verdict, ih hrest.symm]
      unfold andThen
      rw [isAllowed_congr ht]

end FieldTest

namespace Routes

/-- For each entry, in the order of the routes, what the tests that lead to it say. -/
def verdicts : Routes → List (NodeId × Verdict)
  | nil => []
  | entry n rest => (n, FieldTest.verdict []) :: rest.verdicts
  | test _ t below rest => below.verdicts.map (Prod.map id t.andThen) ++ rest.verdicts

/-- For each entry, in the order of the routes, the tests that lead to it. -/
def paths : Routes → List (NodeId × List FieldTest)
  | nil => []
  | entry n rest => (n, []) :: rest.paths
  | test _ t below rest => below.paths.map (Prod.map id (t :: ·)) ++ rest.paths

theorem map_fst_paths (routes : Routes) : routes.paths.map Prod.fst = routes.entries := by
  induction routes with
  | nil => rfl
  | entry n rest ih => rw [paths, entries, List.map_cons, ih]
  | test n t below rest ihb ihr =>
      rw [paths, entries, List.map_append, List.map_map, ← ihb, ← ihr]
      rfl

theorem verdicts_eq_map_paths (routes : Routes) :
    routes.verdicts = routes.paths.map (Prod.map id FieldTest.verdict) := by
  induction routes with
  | nil => rfl
  | entry n rest ih =>
      rw [verdicts, paths, List.map_cons, ih]
      rfl
  | test n t below rest ihb ihr =>
      rw [verdicts, paths, List.map_append, List.map_map, ihb, ihr, List.map_map]
      rfl

theorem map_fst_verdicts (routes : Routes) : routes.verdicts.map Prod.fst = routes.entries := by
  rw [verdicts_eq_map_paths, List.map_map, ← map_fst_paths]
  rfl

/-- Every test leads somewhere. -/
def Fertile : Routes → Prop
  | nil => True
  | entry _ rest => rest.Fertile
  | test _ _ below rest => below.entries ≠ [] ∧ below.Fertile ∧ rest.Fertile

theorem fertile_append {s t : Routes} : (s.append t).Fertile ↔ s.Fertile ∧ t.Fertile := by
  induction s with
  | nil => simp [append, Fertile]
  | entry n rest ih => rw [append, Fertile, Fertile, ih]
  | test n t below rest _ ih => rw [append, Fertile, Fertile, ih, and_assoc, and_assoc]

/-! ## The search -/

variable {f : Fact} {routes : Routes}

/-- The search finds the entries whose verdicts are favourable, unless there is one
without verdict. -/
theorem matching_eq_ok_iff (hr : routes.Fertile) {l : List NodeId} :
    routes.matching f = .ok l ↔ (∀ x ∈ routes.verdicts, ∃ b, x.2 f = .ok b) ∧
      l = (routes.verdicts.filter fun x => x.2.passes f).map Prod.fst := by
  induction routes generalizing l with
  | nil =>
      rw [matching, verdicts, Except.ok.injEq, eq_comm]
      simp
  | entry n rest ih =>
      have hpass : (FieldTest.verdict []).passes f = true := rfl
      simp only [matching, bind_eq_ok_iff, pure_eq_ok_iff, ih hr, verdicts, List.forall_mem_cons,
        List.filter_cons, hpass, if_true, List.map_cons]
      constructor
      · rintro ⟨l', ⟨hall, rfl⟩, rfl⟩
        exact ⟨⟨⟨true, rfl⟩, hall⟩, rfl⟩
      · rintro ⟨⟨-, hall⟩, rfl⟩
        exact ⟨_, ⟨hall, rfl⟩, rfl⟩
  | test n t below rest ihb ihr =>
      obtain ⟨hne, hbelow, hrest⟩ := hr
      simp only [matching, verdicts, List.forall_mem_append, List.forall_mem_map,
        List.filter_append, List.map_append, List.filter_map, List.map_map]
      cases ht : t.isAllowed f with
      | error cause =>
          -- Some entry is below the test, and its verdict fails with the test.
          refine iff_of_false (fun h => nomatch h) fun ⟨⟨hall, _⟩, _⟩ => hne ?_
          rw [← map_fst_verdicts, List.map_eq_nil_iff, List.eq_nil_iff_forall_not_mem]
          intro x hx
          obtain ⟨b, hb⟩ := hall x hx
          rw [Prod.map_snd, FieldTest.andThen_of_error _ ht] at hb
          cases hb
      | ok allowed =>
          cases allowed with
          | true =>
              have hsame : ∀ v : Verdict, t.andThen v f = v f :=
                fun v => FieldTest.andThen_of_true v ht
              simp only [bind_eq_ok_iff, pure_eq_ok_iff, ihb hbelow, ihr hrest, Prod.map_snd, hsame,
                Function.comp_def, Verdict.passes, Prod.map_fst, id]
              constructor
              · rintro ⟨l₁, ⟨hall₁, rfl⟩, l₂, ⟨hall₂, rfl⟩, rfl⟩
                exact ⟨⟨hall₁, hall₂⟩, rfl⟩
              · rintro ⟨⟨hall₁, hall₂⟩, rfl⟩
                exact ⟨_, ⟨hall₁, rfl⟩, _, ⟨hall₂, rfl⟩, rfl⟩
          | false =>
              have hfalse : ∀ v : Verdict, t.andThen v f = .ok false := fun v =>
                FieldTest.andThen_of_false v ht
              simp only [ihr hrest, Prod.map_snd, hfalse, Function.comp_def, Verdict.passes,
                List.filter_false, List.map_nil, List.nil_append]
              exact ⟨fun ⟨hall, hl⟩ => ⟨⟨fun _ _ => ⟨false, rfl⟩, hall⟩, hl⟩,
                fun ⟨⟨_, hall⟩, hl⟩ => ⟨hall, hl⟩⟩

/-- A search that fails does so at a test that cannot be evaluated. -/
theorem test_of_matching_error {failure : NodeFailure} (h : routes.matching f = .error failure) :
    ∃ t, (failure.node, t) ∈ routes.tests ∧ t.isAllowed f = .error failure.cause := by
  induction routes with
  | nil => cases h
  | entry n rest ih =>
      rw [matching, bind_eq_error_iff] at h
      rcases h with h | ⟨_, _, h⟩
      · exact ih h
      · cases h
  | test n t below rest ihb ihr =>
      have hbelow : ∀ x ∈ below.tests, x ∈ (test n t below rest).tests := fun x hx =>
        List.mem_cons_of_mem _ (List.mem_append_left _ hx)
      have hrest : ∀ x ∈ rest.tests, x ∈ (test n t below rest).tests := fun x hx =>
        List.mem_cons_of_mem _ (List.mem_append_right _ hx)
      rw [matching] at h
      split at h
      · next cause ht =>
        cases h
        exact ⟨t, List.mem_cons_self, ht⟩
      · -- The test passes, so the failure is below it or in the rest of the level.
        rw [bind_eq_error_iff] at h
        rcases h with h | ⟨_, _, h⟩
        · obtain ⟨t', ht', herr⟩ := ihb h
          exact ⟨t', hbelow _ ht', herr⟩
        · rw [bind_eq_error_iff] at h
          rcases h with h | ⟨_, _, h⟩
          · obtain ⟨t', ht', herr⟩ := ihr h
            exact ⟨t', hrest _ ht', herr⟩
          · cases h
      · obtain ⟨t', ht', herr⟩ := ihr h
        exact ⟨t', hrest _ ht', herr⟩

/-! ## The tests of a search -/

/-- The search with a record of the nodes whose tests it evaluates, in order. -/
def search (f : Fact) : Routes → List NodeId × Except NodeFailure (List NodeId)
  | nil => ([], .ok [])
  | entry n rest => ((search f rest).1, return n :: (← (search f rest).2))
  | test n t below rest =>
    match t.isAllowed f with
    | .error cause => ([n], .error ⟨n, cause⟩)
    | .ok false => (n :: (search f rest).1, (search f rest).2)
    | .ok true =>
      match (search f below).2 with
      | .error failure => (n :: (search f below).1, .error failure)
      | .ok found =>
        (n :: (search f below).1 ++ (search f rest).1, return found ++ (← (search f rest).2))

/-- The record takes nothing away from the search. -/
theorem search_snd (f : Fact) (routes : Routes) : (routes.search f).2 = routes.matching f := by
  induction routes with
  | nil => rfl
  | entry n rest ih => rw [search, matching, ih]
  | test n t below rest ihb ihr =>
      rw [search, matching]
      cases t.isAllowed f with
      | error cause => rfl
      | ok allowed =>
          cases allowed with
          | false => exact ihr
          | true =>
              rw [ihb]
              cases below.matching f with
              | error failure => rfl
              | ok found =>
                  dsimp only
                  rw [ihr]
                  rfl

/-- **A search evaluates no test twice**: its record is a part of all tests, in their order. -/
theorem search_fst_sublist (f : Fact) (routes : Routes) :
    (routes.search f).1.Sublist (routes.tests.map Prod.fst) := by
  induction routes with
  | nil => exact List.Sublist.refl _
  | entry n rest ih => exact ih
  | test n t below rest ihb ihr =>
      rw [tests, List.cons_append, List.map_cons, List.map_append]
      unfold search
      split
      · exact (List.nil_sublist _).cons_cons n
      · exact (ihr.trans (List.sublist_append_right _ _)).cons_cons n
      · split
        · exact (ihb.trans (List.sublist_append_left _ _)).cons_cons n
        · exact (ihb.append ihr).cons_cons n

end Routes

/-! ## Patterns -/

/-- The test of the clause on the fact of its pattern alone, if it has one: the literal is read as a
value of the kind of the field. -/
def Clause.fieldTest? (schema : Schema) : Clause → Option FieldTest
  | .literal field op value => do
    let accessor ← (Accessor.resolve schema field).toOption
    return .literal accessor op (← value.coerce? accessor.kind)
  | .valueTest field test => do
    let accessor ← (Accessor.resolve schema field).toOption
    return .named accessor test
  | .join .. | .relation .. => none

/-- The tests of the pattern on its fact alone, in the order of the clauses. -/
def Pattern.fieldTests (schemas : SchemaRegistry) (p : Pattern) : List FieldTest :=
  match schemas.get? p.factType with
  | some schema => p.clauses.filterMap (Clause.fieldTest? schema)
  | none => []

/-- What the clauses of the pattern on its fact alone say, tried in order until one fails. -/
def Pattern.verdict (schemas : SchemaRegistry) (p : Pattern) : Verdict :=
  FieldTest.verdict (p.fieldTests schemas)

/-- What the clauses of the pattern on its fact alone ask for, in order. -/
def Pattern.content (schemas : SchemaRegistry) (p : Pattern) :
    List (TestSignature ⊕ (Accessor × ValueTest)) :=
  (p.fieldTests schemas).map FieldTest.content

end RuleMatching
