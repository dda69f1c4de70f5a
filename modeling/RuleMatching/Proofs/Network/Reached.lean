import RuleMatching.Proofs.Network.Routed
import RuleMatching.Proofs.Network.Routing

set_option autoImplicit false

/-! # The entries that a fact reaches

In a compiled network a fact reaches the entries of the patterns whose clauses on the fact alone
hold, whether or not patterns share tests (`Network.matchingEntries_build`). -/

namespace RuleMatching

open Outcome

namespace Network

/-- What the routes for facts of the type say of each entry. -/
def verdictsFor (net : Network) (T : String) : List (NodeId × Verdict) :=
  Builder.verdictsOf net.objectTypes T

/-- The tests that facts of the type can meet, with their nodes. -/
def testsFor (net : Network) (T : String) : List (NodeId × FieldTest) :=
  ((net.objectType? T).map fun o => o.routes.tests).getD []

/-- The search for the entries that the fact reaches, with a record of the nodes whose tests it
evaluates. -/
def search (net : Network) (f : Fact) : List NodeId × Except NodeFailure (List NodeId) :=
  match net.objectType? f.factType with
  | some o => o.routes.search f
  | none => ([], .ok [])

variable {rules : List Rule} {schemas : SchemaRegistry} {config : Config} {net : Network} {f : Fact}

/-- **The routes say of each entry what the clauses of its pattern say.** -/
theorem mem_verdictsFor_build (h : build rules schemas config = .ok net) {T : String} {n : NodeId}
    {v : Verdict} : (n, v) ∈ net.verdictsFor T ↔
      IsEntryOf rules net.rules (fun p => p.factType = T ∧ v = p.verdict schemas) n := by
  obtain ⟨b, hb, rfl⟩ := routed_build h
  have hspeaks := hb.speaks T n
  rw [Builder.contentsOf_eq_map_pathsOf] at hspeaks
  rw [verdictsFor, Builder.verdictsOf_eq_map_pathsOf, List.mem_map]
  constructor
  · rintro ⟨⟨m, path⟩, hpath, heq⟩
    cases heq
    obtain ⟨k, i, rule, p, hk, hp, ⟨htype, hl⟩, hn⟩ := (hspeaks _).mp (List.mem_map_of_mem hpath)
    exact ⟨k, i, rule, p, hk, hp, ⟨htype, FieldTest.verdict_congr hl⟩, hn⟩
  · rintro ⟨k, i, rule, p, hk, hp, ⟨htype, rfl⟩, hn⟩
    obtain ⟨⟨m, path⟩, hpath, heq⟩ :=
      List.mem_map.mp ((hspeaks _).mpr ⟨k, i, rule, p, hk, hp, ⟨htype, rfl⟩, hn⟩)
    obtain ⟨rfl, hcontent⟩ := Prod.mk.inj heq
    exact ⟨(m, path), hpath, congrArg (Prod.mk m) (FieldTest.verdict_congr hcontent)⟩

/-- A fact reaches the entries with a favourable verdict, unless there is one without verdict. -/
theorem matchingEntries_eq_ok_iff (h : build rules schemas config = .ok net) {l : List NodeId} :
    net.matchingEntries f = .ok l ↔ (∀ x ∈ net.verdictsFor f.factType, ∃ b, x.2 f = .ok b) ∧
      l = ((net.verdictsFor f.factType).filter fun x => x.2.passes f).map Prod.fst := by
  obtain ⟨b, hb, rfl⟩ := routed_build h
  unfold matchingEntries verdictsFor objectType?
  split
  · next o ho =>
    rw [Builder.verdictsOf_some ho]
    exact Routes.matching_eq_ok_iff (hb.forest.tree _ o ho).fertile
  · next hnone =>
    rw [Builder.verdictsOf_none hnone]
    exact ⟨fun hl => ⟨fun _ hx => (nomatch hx), by cases hl; rfl⟩,
      fun ⟨_, hl⟩ => congrArg Except.ok hl.symm⟩

/-- Every pattern has its entry. -/
theorem exists_entryNode? (h : build rules schemas config = .ok net) {k i : Nat} {rule : Rule}
    {p : Pattern} (hk : rules[k]? = some rule) (hp : rule.patterns[i]? = some p) :
    ∃ n, entryNode? net.rules k i = some n := by
  obtain ⟨r, hr⟩ : ∃ r, net.rules[k]? = some r := by
    refine ⟨_, List.getElem?_eq_getElem ?_⟩
    rw [length_rules_build h]
    exact (List.getElem?_eq_some_iff.mp hk).1
  obtain ⟨rule', hrule', hcomp⟩ := rules_build h k hr
  rw [hk, Option.some.injEq] at hrule'
  subst hrule'
  have hi : i < r.entries.length := hcomp.length_entries ▸ (List.getElem?_eq_some_iff.mp hp).1
  refine ⟨r.entries[i].node, ?_⟩
  rw [entryNode?, hr, Option.bind_some, List.getElem?_eq_getElem hi]
  rfl

/-- A fact reaches an entry iff the clauses of its pattern on the fact alone hold. -/
theorem mem_reached_iff (h : build rules schemas config = .ok net) {l : List NodeId}
    (hl : net.matchingEntries f = .ok l) (n : NodeId) : n ∈ l ↔
      IsEntryOf rules net.rules (fun p => p.factType = f.factType ∧
        p.verdict schemas f = .ok true) n := by
  obtain ⟨-, rfl⟩ := (matchingEntries_eq_ok_iff h).mp hl
  rw [List.mem_map]
  constructor
  · rintro ⟨⟨n, v⟩, hmem, rfl⟩
    obtain ⟨hmem, hpass⟩ := List.mem_filter.mp hmem
    obtain ⟨k, i, rule, p, hk, hp, ⟨htype, rfl⟩, hn⟩ := (mem_verdictsFor_build h).mp hmem
    exact ⟨k, i, rule, p, hk, hp, ⟨htype, Verdict.passes_iff.mp hpass⟩, hn⟩
  · rintro ⟨k, i, rule, p, hk, hp, ⟨htype, hpass⟩, hn⟩
    refine ⟨(n, p.verdict schemas), List.mem_filter.mpr ⟨?_, Verdict.passes_iff.mpr hpass⟩, rfl⟩
    exact (mem_verdictsFor_build h).mpr ⟨k, i, rule, p, hk, hp, ⟨htype, rfl⟩, hn⟩

/-- The search fails iff the clauses of some pattern on the fact alone make a read that fails. -/
theorem matchingEntries_fails_iff (h : build rules schemas config = .ok net) :
    (∃ failure, net.matchingEntries f = .error failure) ↔ ∃ rule ∈ rules, ∃ p ∈ rule.patterns,
      p.factType = f.factType ∧ ∃ cause, p.verdict schemas f = .error cause := by
  have hok := fun l => matchingEntries_eq_ok_iff (f := f) (l := l) h
  constructor
  · rintro ⟨failure, hfail⟩
    -- Otherwise every entry has a verdict, and the search succeeds.
    by_contra hnone
    have := (hok _).mpr ⟨fun x hx => ?_, rfl⟩
    · rw [hfail] at this
      cases this
    · obtain ⟨n, v⟩ := x
      obtain ⟨k, i, rule, p, hk, hp, ⟨htype, rfl⟩, -⟩ := (mem_verdictsFor_build h).mp hx
      cases hv : p.verdict schemas f with
      | ok b => exact ⟨b, hv⟩
      | error cause =>
          exact absurd ⟨rule, List.mem_of_getElem? hk, p, List.mem_of_getElem? hp, htype, cause,
            hv⟩ hnone
  · rintro ⟨rule, hrule, p, hp, htype, cause, hv⟩
    obtain ⟨k, hk⟩ := List.mem_iff_getElem?.mp hrule
    obtain ⟨i, hi⟩ := List.mem_iff_getElem?.mp hp
    obtain ⟨n, hn⟩ := exists_entryNode? h hk hi
    cases hm : net.matchingEntries f with
    | error failure => exact ⟨failure, rfl⟩
    | ok l =>
        obtain ⟨b, hb⟩ := ((hok l).mp hm).1 (n, p.verdict schemas)
          ((mem_verdictsFor_build h).mpr ⟨k, i, rule, p, hk, hi, ⟨htype, rfl⟩, hn⟩)
        cases hv.symm.trans hb

/-- The record of the search takes nothing away from it, and no node occurs twice in it. -/
theorem search_build (h : build rules schemas config = .ok net) (f : Fact) :
    (net.search f).2 = net.matchingEntries f ∧ (net.search f).1.Nodup ∧
      ∀ n ∈ (net.search f).1, ∃ t, (n, t) ∈ net.testsFor f.factType := by
  obtain ⟨b, hb, rfl⟩ := routed_build h
  unfold search matchingEntries testsFor objectType?
  cases ho : b.objectTypes.get? f.factType with
  | none => exact ⟨rfl, List.nodup_nil, fun n hn => nomatch hn⟩
  | some o =>
      have hsub := o.routes.search_fst_sublist f
      refine ⟨o.routes.search_snd f, ?_, fun n hn => ?_⟩
      · exact (List.nodup_cons.mp (hb.forest.tree _ o ho).rooted.nodup).2.sublist hsub
      · obtain ⟨⟨n, t⟩, ht, rfl⟩ := List.mem_map.mp (hsub.subset hn)
        exact ⟨t, ht⟩

/-- A search that fails does so at the node of a test that cannot be evaluated. -/
theorem test_of_matchingEntries_error {failure : NodeFailure}
    (h : net.matchingEntries f = .error failure) :
    ∃ t, (failure.node, t) ∈ net.testsFor f.factType ∧ t.isAllowed f = .error failure.cause := by
  unfold matchingEntries at h
  unfold testsFor
  split at h
  · next o ho =>
    rw [ho]
    exact Routes.test_of_matching_error h
  · cases h

/-- How the search for the entries of a fact follows the clauses of the rules. -/
structure FollowsClauses (rules : List Rule) (schemas : SchemaRegistry) (net : Network) (f : Fact) :
    Prop where
  /-- It fails iff the clauses of some pattern on the fact alone, tried in order until one does not
  hold, make a read that fails. -/
  fails_iff : (∃ failure, net.matchingEntries f = .error failure) ↔ ∃ rule ∈ rules,
    ∃ p ∈ rule.patterns, p.factType = f.factType ∧
      ∃ cause, p.verdict schemas f = .error cause
  /-- It fails at the node of a test that cannot be evaluated. -/
  failed_test : ∀ failure, net.matchingEntries f = .error failure →
    ∃ t, (failure.node, t) ∈ net.testsFor f.factType ∧ t.isAllowed f = .error failure.cause
  entry_of_pattern : ∀ k i rule p, rules[k]? = some rule → rule.patterns[i]? = some p →
    ∃ n, entryNode? net.rules k i = some n
  /-- It finds the entries of the patterns whose clauses on the fact alone hold. -/
  mem_iff : ∀ l, net.matchingEntries f = .ok l → ∀ n, n ∈ l ↔ IsEntryOf rules net.rules
    (fun p => p.factType = f.factType ∧ p.verdict schemas f = .ok true) n
  /-- It finds each entry once, in the order of the routes. -/
  order : ∀ l, net.matchingEntries f = .ok l → l.Nodup ∧ l.Sublist (net.entriesFor f.factType)
  /-- It evaluates no test twice. -/
  record : (net.search f).2 = net.matchingEntries f ∧ (net.search f).1.Nodup ∧
    ∀ n ∈ (net.search f).1, ∃ t, (n, t) ∈ net.testsFor f.factType
  unmentioned : (∀ rule ∈ rules, ∀ p ∈ rule.patterns, p.factType ≠ f.factType) →
    net.matchingEntries f = .ok []

/-- **The search for the entries of a fact follows the clauses of the rules**, whether or not
patterns share tests. -/
theorem matchingEntries_build (hbuild : build rules schemas config = .ok net) (f : Fact) :
    FollowsClauses rules schemas net f := by
  refine ⟨matchingEntries_fails_iff hbuild, fun failure => test_of_matchingEntries_error,
    fun k i rule p => exists_entryNode? hbuild, fun l hl => mem_reached_iff hbuild hl,
    fun l hl => ?_, search_build hbuild f, fun hno => ?_⟩
  · exact ⟨((wellFormed_build hbuild).reached hl).1, reached_sublist hl⟩
  · have hnone : net.verdictsFor f.factType = [] := by
      refine List.eq_nil_iff_forall_not_mem.mpr fun x hx => ?_
      obtain ⟨k, i, rule, p, hk, hp, ⟨htype, -⟩, -⟩ := (mem_verdictsFor_build hbuild).mp hx
      exact hno rule (List.mem_of_getElem? hk) p (List.mem_of_getElem? hp) htype
    rw [matchingEntries_eq_ok_iff hbuild, hnone]
    exact ⟨fun _ hx => (nomatch hx), rfl⟩

/-- Payments have an amount. -/
def paymentSchemas : SchemaRegistry := .ofSchemas [⟨"payment", .ofList [("amount", .float)]⟩]

/-- Payments of a hundred or more, once with the integer and once with the float. -/
def paymentRules : List Rule :=
  [⟨"large", [⟨"payment", none, [.literal "amount" .greaterOrEqual (.integer 100)]⟩]⟩,
    ⟨"large number",
      [⟨"payment", none, [.literal "amount" .greaterOrEqual (.float ⟨0x4059000000000000⟩),
      .valueTest "amount" ⟨"is_number", fun v => v.kind? == some .float⟩]⟩]⟩]

/-- The two patterns share a test, which cannot read a text. -/
theorem followsClauses_payments : ∃ net, build paymentRules paymentSchemas .standard = .ok net ∧
    (net.testsFor "payment").length = 2 ∧
    FollowsClauses paymentRules paymentSchemas net ⟨"payment",
      .ofList [("amount", .string "100")]⟩ := by
  have hshared : (build paymentRules paymentSchemas .standard).toOption.map
      (fun net => (net.testsFor "payment").length) = some 2 := by decide +kernel
  cases hnet : build paymentRules paymentSchemas .standard with
  | error err =>
      rw [hnet] at hshared
      cases hshared
  | ok net =>
      rw [hnet] at hshared
      exact ⟨net, rfl, Option.some.inj hshared, matchingEntries_build hnet _⟩

end Network

end RuleMatching
