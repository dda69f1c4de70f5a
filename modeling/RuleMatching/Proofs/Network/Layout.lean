import Mathlib.Logic.Relation
import RuleMatching.Proofs.Network.Reads
import RuleMatching.Proofs.Network.Routed

set_option autoImplicit false

/-! # The layout of a compiled network

A compiled rule has an entry for each pattern and a terminal, with consecutive numbers, and each
entry lists the fields of its pattern's fact that the joins of the rule read
(`Network.EntryLaidOut`). The nodes of types, the tests and the entries form a forest, which leads
to each entry by the tests of its pattern. **Compilation lays out every network in this way**
(`Network.laidOut_build`). -/

namespace RuleMatching

/-! ## Rules -/

namespace Builder.IsCompiled

variable {schemas : SchemaRegistry} {depth : Nat} {id : RuleId} {rule : Rule} {r : CompiledRule}

/-- Every clause has a test. -/
theorem exists_tests (h : IsCompiled schemas depth id rule r) {i : Nat} {p : Pattern}
    (hp : rule.patterns[i]? = some p) :
    ∃ schema, schemas.get? p.factType = some schema ∧
      ∀ c ∈ p.clauses, (∃ t, c.fieldTest? schema = some t) ∨
        ∃ t, c.joinTest? schemas (rule.patterns.take i) schema = some t := by
  obtain ⟨-, first, rest, hcompile, -⟩ := h
  obtain ⟨hregistered, hnames, hfits, -⟩ := Compile.compilePatterns_start_iff.mp hcompile
  obtain ⟨schema, hschema⟩ := hregistered p (List.mem_of_getElem? hp)
  have hearlier : Introduced schemas rule.patterns := ⟨hregistered, hnames⟩
  exact ⟨schema, hschema, fun c hc => (hfits i p hp c hc).exists_test (hearlier.take i) hschema⟩

end Builder.IsCompiled

namespace Network

/-! ## Trees -/

/-- The pairs of a node and a test or an entry just below it. -/
def links (net : Network) : List (NodeId × NodeId) :=
  net.objectTypes.values.flatMap fun o => o.routes.links o.node

/-- The nodes at which facts enter the network. -/
def typeNodes (net : Network) : List NodeId := net.objectTypes.values.map ObjectType.node

def testNodes (net : Network) : List NodeId :=
  net.objectTypes.values.flatMap fun o => o.routes.testNodes

/-- The tests with their nodes. -/
def tests (net : Network) : List (NodeId × FieldTest) :=
  net.objectTypes.values.flatMap fun o => o.routes.tests

def entryNodes (net : Network) : List NodeId := net.allEntries.map Entry.node

/-- Links lead from the one node to the other, by the given tests. -/
inductive Leads (net : Network) : NodeId → List FieldTest → NodeId → Prop
  | last {p n : NodeId} (h : (p, n) ∈ net.links) : Leads net p [] n
  | test {p m n : NodeId} {t : FieldTest} {path : List FieldTest} (h : (p, m) ∈ net.links)
      (ht : (m, t) ∈ net.tests) (hpath : Leads net m path n) : Leads net p (t :: path) n

/-- For each entry for facts of the type, the tests that lead to it. -/
def pathsFor (net : Network) (T : String) : List (NodeId × List FieldTest) :=
  Builder.pathsOf net.objectTypes T

variable {rules : List Rule} {schemas : SchemaRegistry} {config : Config} {net : Network}

theorem map_fst_pathsFor (net : Network) (T : String) :
    (net.pathsFor T).map Prod.fst = net.entriesFor T := by
  unfold pathsFor Builder.pathsOf entriesFor objectType?
  cases net.objectTypes.get? T with
  | none => rfl
  | some o => exact o.routes.map_fst_paths

/-- Where a path of the routes leads, links lead. -/
theorem leads_of_mem_paths {level : Routes} {parent n : NodeId} {path : List FieldTest}
    (hlinks : ∀ x ∈ level.links parent, x ∈ net.links) (htests : ∀ x ∈ level.tests, x ∈ net.tests)
    (h : (n, path) ∈ level.paths) : net.Leads parent path n := by
  induction level generalizing parent path with
  | nil => cases h
  | entry m rest ih =>
      rcases List.mem_cons.mp h with h | h
      · cases h
        exact .last (hlinks _ List.mem_cons_self)
      · exact ih (fun x hx => hlinks x (List.mem_cons_of_mem _ hx)) htests h
  | test m t below rest ihb ihr =>
      simp only [Routes.links, Routes.tests, List.cons_append, List.forall_mem_cons,
        List.forall_mem_append] at hlinks htests
      obtain ⟨hlink, hbelow, hrest⟩ := hlinks
      obtain ⟨htest, hbelow', hrest'⟩ := htests
      rcases List.mem_append.mp h with h | h
      · obtain ⟨⟨n', path'⟩, hpath, heq⟩ := List.mem_map.mp h
        cases heq
        exact .test hlink htest (ihb hbelow hbelow' hpath)
      · exact ihr hrest hrest' h

/-- The nodes of all sorts are numbered without gaps. -/
theorem perm_range_build (h : build rules schemas config = .ok net) :
    (net.rules.flatMap CompiledRule.nodes ++ (net.typeNodes ++ net.testNodes)).Perm
      (List.range net.nodeCount) := by
  obtain ⟨b, hb, rfl⟩ := routed_build h
  refine (List.Perm.append_left _ ?_).trans hb.numbered.nodes
  rw [typeNodes, List.map_eq_flatMap]
  exact List.flatMap_append_perm _ _ _

/-- A test or an entry is below one node. -/
theorem map_snd_links_build (h : build rules schemas config = .ok net) :
    (net.links.map Prod.snd).Perm (net.testNodes ++ net.entryNodes) := by
  obtain ⟨b, hb, rfl⟩ := routed_build h
  rw [links, List.map_flatMap]
  refine (List.Perm.flatMap_left _ fun o _ => o.routes.map_snd_links o.node).trans ?_
  refine (List.flatMap_append_perm _ _ _).symm.trans (List.Perm.append_left _ ?_)
  exact hb.numbered.led

theorem nodup_nodes_build (h : build rules schemas config = .ok net) :
    (net.entryNodes ++ (net.typeNodes ++ net.testNodes)).Nodup := by
  have hall := (perm_range_build h).nodup_iff.mpr List.nodup_range
  exact hall.sublist ((CompiledRule.sublist_nodes net.rules).append_right _)

theorem fst_mem_of_mem_links {p n : NodeId} (h : (p, n) ∈ net.links) :
    p ∈ net.typeNodes ++ net.testNodes := by
  obtain ⟨o, ho, hlink⟩ := List.mem_flatMap.mp h
  rcases List.mem_cons.mp (Routes.fst_mem_of_mem_links hlink) with rfl | hp
  · exact List.mem_append_left _ (List.mem_map_of_mem ho)
  · exact List.mem_append_right _ (List.mem_flatMap.mpr ⟨o, ho, hp⟩)

/-- Numbers grow along the links, except to entries. -/
theorem lt_or_mem_entryNodes_of_mem_links (h : build rules schemas config = .ok net) {p n : NodeId}
    (hlink : (p, n) ∈ net.links) : p < n ∨ n ∈ net.entryNodes := by
  obtain ⟨b, hb, rfl⟩ := routed_build h
  obtain ⟨o, ho, hlink⟩ := List.mem_flatMap.mp hlink
  obtain ⟨⟨T, o⟩, hT, rfl⟩ := List.mem_map.mp ho
  have htree := hb.forest.tree T o (b.objectTypes.get?_eq_some_iff.mpr hT)
  refine (htree.ascending.lt_or_mem_entries hlink).imp id fun hn => ?_
  exact hb.numbered.led.mem_iff.mp (List.mem_flatMap.mpr ⟨o, ho, hn⟩)

/-- **The links have no cycle.** -/
theorem acyclic_build (h : build rules schemas config = .ok net) (n : NodeId) :
    ¬ Relation.TransGen (fun p n => (p, n) ∈ net.links) n n := by
  have hleaf : ∀ {p m}, p ∈ net.entryNodes → (p, m) ∉ net.links := fun hp hlink =>
    (List.nodup_append.mp (nodup_nodes_build h)).2.2 _ hp _ (fst_mem_of_mem_links hlink) rfl
  -- A chain of links ends in an entry, below which there is nothing, or with a larger number.
  have hchain : ∀ {p m}, Relation.TransGen (fun p n => (p, n) ∈ net.links) p m → p < m ∨
      m ∈ net.entryNodes := by
    intro p m hpm
    induction hpm with
    | single hlink => exact lt_or_mem_entryNodes_of_mem_links h hlink
    | tail _ hlink ih =>
        rcases ih with hlt | hentry
        · exact (lt_or_mem_entryNodes_of_mem_links h hlink).imp (Nat.lt_trans hlt) id
        · exact absurd hlink (hleaf hentry)
  intro hcycle
  rcases hchain hcycle with hlt | hentry
  · exact Nat.lt_irrefl n hlt
  · obtain ⟨m, hlink, -⟩ := Relation.TransGen.head'_iff.mp hcycle
    exact hleaf hentry hlink

/-! ## Entries -/

/-- The entry `e` of the pattern `p` at position `i` of a rule. -/
structure EntryLaidOut (net : Network) (schemas : SchemaRegistry) (depth : Nat) (rule : Rule)
    (r : CompiledRule) (i : Nat) (p : Pattern) (e : Entry) : Prop where
  node : e.node = r.first.node + i
  position : e.position = i
  factType : e.factType = p.factType
  adapter : i = 0 → e = r.first ∧ e.condition = .empty
  join : i ≠ 0 → r.joins[i - 1]? = some e ∧
    e.condition = .ofTests (p.joinTests schemas (rule.patterns.take i)) depth
  /-- No clause is lost. -/
  clauses : ∃ schema, schemas.get? p.factType = some schema ∧ ∀ c ∈ p.clauses,
    (∃ t, c.fieldTest? schema = some t) ∨
    ∃ t, c.joinTest? schemas (rule.patterns.take i) schema = some t
  /-- It passes its matches on to the next entry, the last one to the terminal. -/
  place : net.place? e.node = some ⟨r, e, r.entries.drop (i + 1)⟩
  sink : r.sinkAfter (r.entries.drop (i + 1)) = (r.entries[i + 1]?.map Entry.node).getD r.terminal
  /-- One path leads to it, from the node of its type. Its tests ask for what the clauses of the
  pattern on its fact alone ask for, in order. -/
  path : ∃ o path, net.objectType? p.factType = some o ∧ net.Leads o.node path e.node ∧
    (∀ T path', (e.node, path') ∈ net.pathsFor T ↔ T = p.factType ∧ path' = path) ∧
    path.map FieldTest.content = p.content schemas
  relevantFields : ∀ field, field ∈ e.relevantFields ↔
    ∃ (j : Nat) (q : Pattern), rule.patterns[j]? = some q ∧
      ∃ c ∈ q.clauses, (i, field) ∈ c.reads rule.patterns j
  sorted : e.relevantFields.Pairwise (· < ·)
  /-- It lists what the joins read of the pattern's fact, in the order of the joins and their
  clauses, and no field twice for one join. -/
  reads : e.readFields =
    (readsOfPattern rule.patterns i).eraseDups.map fun x => (r.first.node + x.1, x.2)
  nodup_reads : e.readFields.Nodup
  accessor : ∀ read ∈ e.reads, ∃ schema, schemas.get? p.factType = some schema ∧
    Accessor.resolve schema read.accessor.field = .ok read.accessor

/-- The compiled rule `r` at position `k`. -/
structure RuleLaidOut (net : Network) (schemas : SchemaRegistry) (depth : Nat) (k : Nat)
    (rule : Rule) (r : CompiledRule) : Prop where
  id : r.id = k
  name : r.name = rule.name
  /-- The entries and the terminal have consecutive numbers. -/
  nodes : r.nodes = List.range' r.first.node (rule.patterns.length + 1)
  arity : r.arity = rule.patterns.length
  entry : ∀ (i : Nat) p, rule.patterns[i]? = some p →
    ∃ e, r.entries[i]? = some e ∧ net.EntryLaidOut schemas depth rule r i p e

/-- The layout of a network for the rules. -/
structure LaidOut (rules : List Rule) (schemas : SchemaRegistry) (depth : Nat) (net : Network) :
    Prop where
  length_rules : net.rules.length = rules.length
  rule : ∀ (k : Nat) rule, rules[k]? = some rule →
    ∃ r, net.rules[k]? = some r ∧ net.RuleLaidOut schemas depth k rule r
  numbers : (net.rules.flatMap CompiledRule.nodes ++ (net.typeNodes ++ net.testNodes)).Perm
    (List.range net.nodeCount)
  /-- Nothing but tests and entries is below a node, and each is below one, that of a
  type or a test. -/
  children : (net.links.map Prod.snd).Perm (net.testNodes ++ net.entryNodes)
  nodup_children : (net.links.map Prod.snd).Nodup
  parent : ∀ n ∈ net.testNodes ++ net.entryNodes, ∃! p, (p, n) ∈ net.links
  parents : ∀ p n, (p, n) ∈ net.links → p ∈ net.typeNodes ++ net.testNodes
  acyclic : ∀ n, ¬ Relation.TransGen (fun p n => (p, n) ∈ net.links) n n

/-- The tests of one path lead to an entry. -/
theorem exists_path_build (h : build rules schemas config = .ok net) {k i : Nat} {rule : Rule}
    {r : CompiledRule} {p : Pattern} {e : Entry} (hk : rules[k]? = some rule)
    (hr : net.rules[k]? = some r) (hp : rule.patterns[i]? = some p) (he : r.entries[i]? = some e)
    (htype : e.factType = p.factType) :
    ∃ o path, net.objectType? p.factType = some o ∧ net.Leads o.node path e.node ∧
      (∀ T path', (e.node, path') ∈ net.pathsFor T ↔ T = p.factType ∧ path' = path) ∧
      path.map FieldTest.content = p.content schemas := by
  have hnet := wellFormed_build h
  obtain ⟨path, hpath, hcontent⟩ : ∃ path, (e.node, path) ∈ net.pathsFor p.factType ∧
      path.map FieldTest.content = p.content schemas := by
    obtain ⟨b, hb, rfl⟩ := routed_build h
    have hmem := (hb.speaks p.factType e.node (p.content schemas)).mpr
      ⟨k, i, rule, p, hk, hp, ⟨rfl, rfl⟩, by rw [entryNode?, hr, Option.bind_some, he]; rfl⟩
    rw [Builder.contentsOf_eq_map_pathsOf] at hmem
    obtain ⟨⟨n, path⟩, hpath, heq⟩ := List.mem_map.mp hmem
    obtain ⟨rfl, hcontent⟩ := Prod.mk.inj heq
    exact ⟨path, hpath, hcontent⟩
  obtain ⟨o, ho, hroute⟩ : ∃ o, net.objectType? p.factType = some o ∧
      (e.node, path) ∈ o.routes.paths := by
    unfold pathsFor Builder.pathsOf at hpath
    unfold objectType?
    cases ho : net.objectTypes.get? p.factType with
    | none =>
        rw [ho] at hpath
        cases hpath
    | some o =>
        rw [ho] at hpath
        exact ⟨o, rfl, hpath⟩
  have hvalue : o ∈ net.objectTypes.values :=
    List.mem_map_of_mem (net.objectTypes.get?_eq_some_iff.mp ho)
  refine ⟨o, path, ho, leads_of_mem_paths (fun x hx => List.mem_flatMap.mpr ⟨o, hvalue, hx⟩)
    (fun x hx => List.mem_flatMap.mpr ⟨o, hvalue, hx⟩) hroute,
    fun T path' => ⟨fun hpath' => ?_, ?_⟩, hcontent⟩
  -- The routes of another type lead elsewhere, and those of the type lead to the entry once.
  · have hentries : e.node ∈ net.entriesFor T := by
      rw [← map_fst_pathsFor]
      exact List.mem_map_of_mem hpath'
    obtain ⟨e', he', hnode, htype'⟩ := hnet.mem_entriesFor T e.node hentries
    have hmem : e ∈ net.allEntries :=
      List.mem_flatMap.mpr ⟨r, List.mem_of_getElem? hr, List.mem_of_getElem? he⟩
    have hT : T = p.factType := by rw [← htype', hnet.eq_of_node_eq he' hmem hnode, htype]
    subst hT
    have hnodup := hnet.nodup_entriesFor p.factType
    rw [← map_fst_pathsFor] at hnodup
    exact ⟨rfl, congrArg Prod.snd (List.inj_on_of_nodup_map hnodup hpath' hpath rfl)⟩
  · rintro ⟨rfl, rfl⟩
    exact hpath

theorem entryLaidOut_build (h : build rules schemas config = .ok net) {k i : Nat} {rule : Rule}
    {r : CompiledRule} {p : Pattern} {e : Entry} (hk : rules[k]? = some rule)
    (hr : net.rules[k]? = some r) (hcompiled : Builder.IsCompiled schemas config.keyDepth k rule r)
    (hp : rule.patterns[i]? = some p) (he : r.entries[i]? = some e) :
    net.EntryLaidOut schemas config.keyDepth rule r i p e := by
  have hnet := wellFormed_build h
  obtain ⟨hnode, hposition, htype, hcond⟩ := hcompiled.entry_eq hp he
  have hreads := hcompiled.readFields_eq he
  have haccessor := fun read (hread : read ∈ e.reads) => hcompiled.accessor_of_mem_reads he hread
  exact {
    node := hnode
    position := hposition
    factType := htype
    adapter := fun hi => by
      subst hi
      have hfirst : r.first = e := Option.some.inj he
      refine ⟨hfirst.symm, ?_⟩
      have htests := (hnet.rule r (List.mem_of_getElem? hr)).first_tests
      rw [hfirst, hcond] at htests
      rw [hcond, show p.joinTests schemas (rule.patterns.take 0) = [] from htests]
      simp [JoinCondition.empty, JoinCondition.ofTests]
    join := fun hi => by
      obtain ⟨j, rfl⟩ := Nat.exists_eq_succ_of_ne_zero hi
      exact ⟨he, hcond⟩
    clauses := hcompiled.exists_tests hp
    place := hnet.place?_eq (Cut.of_getElem? (List.mem_of_getElem? hr) he)
    sink := by
      cases hnext : r.entries[i + 1]? with
      | none =>
          rw [List.drop_eq_nil_of_le (List.getElem?_eq_none_iff.mp hnext)]
          rfl
      | some e' =>
          obtain ⟨hlt, rfl⟩ := List.getElem?_eq_some_iff.mp hnext
          rw [List.drop_eq_getElem_cons hlt]
          rfl
    path := exists_path_build h hk hr hp he htype
    relevantFields := fun field => by
      simp only [Entry.mem_relevantFields_iff, ← mem_readsOfPattern_iff, hreads, List.mem_map,
        List.mem_eraseDups, Prod.mk.injEq]
      constructor
      · rintro ⟨n, ⟨j, field⟩, hx, -, rfl⟩
        exact ⟨j, hx⟩
      · rintro ⟨j, hx⟩
        exact ⟨_, (j, field), hx, rfl, rfl⟩
    sorted := List.pairwise_map.mpr (NameMap.ofList _).sorted
    reads := hreads
    nodup_reads := by
      rw [hreads]
      -- A read is numbered from the first entry on, so different reads of the pattern
      -- stay different.
      refine (nodup_eraseDups _).map fun x y heq => ?_
      exact Prod.ext (Nat.add_left_cancel (Prod.mk.inj heq).1) (Prod.mk.inj heq).2
    accessor := fun read hread => by
      obtain ⟨q, schema, hq, hschema, ha⟩ := haccessor read hread
      rw [hp, Option.some.injEq] at hq
      exact ⟨schema, hq ▸ hschema, ha⟩ }

/-- **Compilation lays out every network.** -/
theorem laidOut_build (h : build rules schemas config = .ok net) :
    LaidOut rules schemas config.keyDepth net := by
  have hchildren := map_snd_links_build h
  have hnodup : (net.links.map Prod.snd).Nodup := by
    refine hchildren.nodup_iff.mpr (List.nodup_append_comm.mp ?_)
    exact (nodup_nodes_build h).sublist ((List.sublist_append_right _ _).append_left _)
  refine ⟨length_rules_build h, fun k rule hk => ?_, perm_range_build h, hchildren, hnodup,
    fun n hn => ?_, fun p n => fst_mem_of_mem_links, acyclic_build h⟩
  · obtain ⟨r, hr⟩ : ∃ r, net.rules[k]? = some r := by
      have hlt := (List.getElem?_eq_some_iff.mp hk).1
      exact ⟨_, List.getElem?_eq_getElem (length_rules_build h ▸ hlt)⟩
    obtain ⟨rule', hk', hcompiled⟩ := rules_build h k hr
    rw [hk, Option.some.injEq] at hk'
    subst hk'
    refine ⟨r, hr, hcompiled.id_eq, hcompiled.name_eq, hcompiled.nodes_eq, hcompiled.length_entries,
      fun i p hp => ?_⟩
    have hlt := (List.getElem?_eq_some_iff.mp hp).1
    have he := List.getElem?_eq_getElem (hcompiled.length_entries ▸ hlt)
    exact ⟨_, he, entryLaidOut_build h hk hr hcompiled hp he⟩
  · obtain ⟨⟨p, m⟩, hlink, rfl⟩ := List.mem_map.mp (hchildren.mem_iff.mpr hn)
    exact ⟨p, hlink, fun q hq => congrArg Prod.fst (List.inj_on_of_nodup_map hnodup hq hlink rfl)⟩

/-- Payments are made from an account. -/
def accountSchemas : SchemaRegistry :=
  .ofSchemas [⟨"payment", .ofList [("account", .integer), ("amount", .float)]⟩]

/-- Growing payments of a hundred or more from one account. -/
def growingRule : Rule :=
  ⟨"growing", [⟨"payment", some "a", [.literal "amount" .greaterOrEqual (.integer 100)]⟩,
    ⟨"payment", none, [.literal "amount" .greaterOrEqual (.float ⟨0x4059000000000000⟩),
      .join "account" .equal "a" "account", .join "amount" .greaterOrEqual "a" "amount",
      .join "amount" .notEqual "a" "amount"]⟩]⟩

/-- Both patterns share a test, and the join reads the amounts twice. -/
theorem laidOut_payments : ∃ net, build [growingRule] accountSchemas .standard = .ok net ∧
    net.links = [(3, 4), (4, 0), (4, 1)] ∧
    (net.entry? 0).map Entry.readFields = some [(1, "account"), (1, "amount")] ∧
    LaidOut [growingRule] accountSchemas Config.standard.keyDepth net := by
  have hshape : (build [growingRule] accountSchemas .standard).toOption.map
      (fun net => (net.links, (net.entry? 0).map Entry.readFields)) =
      some ([(3, 4), (4, 0), (4, 1)], some [(1, "account"), (1, "amount")]) := by decide +kernel
  cases hnet : build [growingRule] accountSchemas .standard with
  | error err =>
      rw [hnet] at hshape
      cases hshape
  | ok net =>
      rw [hnet] at hshape
      obtain ⟨hlinks, hreads⟩ := Prod.mk.inj (Option.some.inj hshape)
      exact ⟨net, rfl, hlinks, hreads, laidOut_build hnet⟩

end Network

end RuleMatching
