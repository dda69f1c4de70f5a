import RuleMatching.Proofs.Network.Reached

set_option autoImplicit false

/-! # Tests of one signature are interchangeable

A node of a network may evaluate its test for several patterns. They ask for the same literal up to
its key, but may write it in different ways. **Whichever of the tests the node evaluates, no fact
notices** (`Network.interchange`): every test of the signature has the same answers and the same
errors, and a search of the network finds the same. -/

namespace RuleMatching

namespace FieldTest

variable {t t' : FieldTest} {s : TestSignature}

/-- Tests of one signature have the same answers and the same errors. -/
theorem isAllowed_of_signature? (h : t.signature? = some s) (h' : t'.signature? = some s) :
    t'.isAllowed = t.isAllowed :=
  isAllowed_congr ((content_of_signature? h').trans (content_of_signature? h).symm)

/-- Only the literals of tests of one signature may differ, and no operator tells these apart. -/
theorem literals_of_signature? (h : t.signature? = some s) (h' : t'.signature? = some s) :
    ∃ v v', t = .literal s.accessor s.operator v ∧ t' = .literal s.accessor s.operator v' ∧
      ∀ (op : Operator) (u : Value), op.holds u v' = op.holds u v := by
  cases t with
  | named accessor test => cases h
  | literal accessor op v =>
      cases t' with
      | named accessor' test => cases h'
      | literal accessor' op' v' =>
          cases h
          obtain ⟨rfl, rfl, hkey⟩ := TestSignature.mk.inj (Option.some.inj h')
          exact ⟨v, v', rfl, rfl, fun op u => op.holds_of_key_eq hkey u⟩

end FieldTest

/-! ## Another test at a node -/

namespace Routes

/-- Puts the test in the place of the one at the node. -/
def replaceTest (node : NodeId) (new : FieldTest) : Routes → Routes
  | nil => nil
  | entry n rest => entry n (rest.replaceTest node new)
  | test n t below rest =>
    test n (if n = node then new else t) (below.replaceTest node new) (rest.replaceTest node new)

/-- A test with the answers of the one that it replaces leaves the search as it is. -/
theorem search_replaceTest {node : NodeId} {new : FieldTest} {routes : Routes}
    (h : ∀ t, (node, t) ∈ routes.tests → new.isAllowed = t.isAllowed) (f : Fact) :
    (routes.replaceTest node new).search f = routes.search f := by
  induction routes with
  | nil => rfl
  | entry n rest ih => rw [replaceTest, search, search, ih h]
  | test n t below rest ihb ihr =>
      have hsame : (if n = node then new else t).isAllowed f = t.isAllowed f := by
        split
        · next hn => rw [h t (hn ▸ List.mem_cons_self)]
        · rfl
      have hbelow := ihb fun u hu => h u (List.mem_cons_of_mem _ (List.mem_append_left _ hu))
      have hrest := ihr fun u hu => h u (List.mem_cons_of_mem _ (List.mem_append_right _ hu))
      rw [replaceTest, search, search, hsame, hbelow, hrest]

end Routes

namespace Network

variable {rules : List Rule} {schemas : SchemaRegistry} {config : Config} {net : Network}

/-- Puts the test in the place of the one at the node that facts of the type meet. -/
def replaceTest (net : Network) (factType : String) (node : NodeId) (new : FieldTest) : Network :=
  { net with
    objectTypes :=
      net.objectTypes.modify factType fun o => { o with routes := o.routes.replaceTest node new } }

theorem search_replaceTest {T : String} {node : NodeId} {new : FieldTest}
    (h : ∀ t, (node, t) ∈ net.testsFor T → new.isAllowed = t.isAllowed) (f : Fact) :
    (net.replaceTest T node new).search f = net.search f := by
  unfold testsFor at h
  unfold search objectType? replaceTest
  rw [FiniteMap.get?_modify]
  by_cases hT : f.factType = T
  · rw [if_pos hT, hT]
    cases ho : net.objectTypes.get? T with
    | none => rfl
    | some o =>
        rw [objectType?, ho] at h
        exact Routes.search_replaceTest h f
  · rw [if_neg hT]

/-- The record of a search takes nothing away from it. -/
theorem search_snd (net : Network) (f : Fact) : (net.search f).2 = net.matchingEntries f := by
  unfold search matchingEntries
  cases net.objectType? f.factType with
  | none => rfl
  | some o => exact o.routes.search_snd f

/-- A node of a compiled network has one test. -/
theorem eq_of_mem_testsFor (h : build rules schemas config = .ok net) {T : String} {node : NodeId}
    {t u : FieldTest} (ht : (node, t) ∈ net.testsFor T) (hu : (node, u) ∈ net.testsFor T) :
    t = u := by
  obtain ⟨b, hb, rfl⟩ := routed_build h
  unfold testsFor objectType? at ht hu
  cases ho : b.objectTypes.get? T with
  | none =>
      rw [ho] at ht
      cases ht
  | some o =>
      rw [ho] at ht hu
      have hnodup : (o.routes.tests.map Prod.fst).Nodup :=
        (List.nodup_cons.mp (hb.forest.tree T o ho).rooted.nodup).2
      exact congrArg Prod.snd (List.inj_on_of_nodup_map hnodup ht hu rfl)

/-- **Tests of one signature are interchangeable.** They read the same field with the same operator,
and their literals stand in the same relation to every value, whichever of the operators it is. So
they have the same answers and the same errors for every fact; and if one of them is at a node of a
compiled network, with the other in its place every fact goes the same way, reaches the same entries
and fails at the same nodes. -/
theorem interchange {t t' : FieldTest} {s : TestSignature} (h : t.signature? = some s)
    (h' : t'.signature? = some s) :
    (∃ v v', t = .literal s.accessor s.operator v ∧ t' = .literal s.accessor s.operator v' ∧
      ∀ (op : Operator) (u : Value), op.holds u v' = op.holds u v) ∧
    (∀ f, t'.isAllowed f = t.isAllowed f) ∧
    ∀ (rules : List Rule) (schemas : SchemaRegistry) (config : Config) (net : Network),
      build rules schemas config = .ok net → ∀ T node, (node, t) ∈ net.testsFor T →
        net.RoutesAlike (net.replaceTest T node t') ∧
        ∀ f, (net.replaceTest T node t').search f = net.search f := by
  have hsame := FieldTest.isAllowed_of_signature? h h'
  refine ⟨FieldTest.literals_of_signature? h h', congrFun hsame,
    fun rules schemas config net hbuild T node ht => ?_⟩
  have hsearch : ∀ f, (net.replaceTest T node t').search f = net.search f :=
    search_replaceTest fun u hu => eq_of_mem_testsFor hbuild ht hu ▸ hsame
  refine ⟨⟨fun f => ?_, fun n f => rfl⟩, hsearch⟩
  rw [← search_snd, hsearch, search_snd]

/-- The literal of a test, as it is written. -/
def writtenLiteral? : FieldTest → Option Value
  | .literal _ _ value => some value
  | .named .. => none

/-- The test of an amount against a hundred, which is written as the value. -/
def atLeast (hundred : Value) : FieldTest :=
  .literal ⟨"payment", "amount", .float⟩ .greaterOrEqual hundred

/-- The rules of payments share the test against the integer. With the float in its place every fact
goes the same way, also one without a number. -/
theorem interchange_payments : ∃ net, build paymentRules paymentSchemas .standard = .ok net ∧
    (3, atLeast (.integer 100)) ∈ net.testsFor "payment" ∧
    ∀ f, (net.replaceTest "payment" 3 (atLeast (.float ⟨0x4059000000000000⟩))).search f =
      net.search f := by
  have hnode : (build paymentRules paymentSchemas .standard).toOption.map (fun net =>
      (net.testsFor "payment").any fun x =>
        x.1 = 3 && x.2.signature? = (atLeast (.integer 100)).signature? &&
          writtenLiteral? x.2 = some (.integer 100)) = some true := by decide +kernel
  cases hnet : build paymentRules paymentSchemas .standard with
  | error err =>
      rw [hnet] at hnode
      cases hnode
  | ok net =>
      rw [hnet] at hnode
      obtain ⟨⟨node, t⟩, hmem, htest⟩ := List.any_eq_true.mp (Option.some.inj hnode)
      have hat : (3, atLeast (.integer 100)) ∈ net.testsFor "payment" := by
        simp only [Bool.and_eq_true, decide_eq_true_eq] at htest
        obtain ⟨⟨rfl, hsignature⟩, hliteral⟩ := htest
        cases t with
        | named => cases hliteral
        | literal a op v =>
            cases hliteral
            cases hsignature
            exact hmem
      have hinteger : (atLeast (.integer 100)).signature? =
          some ⟨⟨"payment", "amount", .float⟩, .greaterOrEqual, .integer 100⟩ := rfl
      have hfloat : (atLeast (.float ⟨0x4059000000000000⟩)).signature? =
          some ⟨⟨"payment", "amount", .float⟩, .greaterOrEqual, .integer 100⟩ := by decide +kernel
      obtain ⟨-, -, hat'⟩ := interchange hinteger hfloat
      exact ⟨net, rfl, hat, (hat' paymentRules paymentSchemas .standard net hnet "payment" 3 hat).2⟩

end Network

end RuleMatching
