import RuleMatching.Proofs.Network.Chain

set_option autoImplicit false

/-! # The rules of a compiled network

The rules of a compiled network are those that are given, in order, each with the clauses of its
patterns resolved (`Network.rules_build`). The routes to their entries are added afterwards and
change no rule. -/

namespace RuleMatching

open Outcome

namespace Builder

/-! ## Steps that keep the rules -/

/-- A step of the construction that adds no rule and no type of facts. -/
structure Keeps (b b' : Builder) : Prop where
  rules : b'.rules = b.rules
  objectTypes : b'.objectTypes = b.objectTypes

theorem Keeps.trans {b b' b'' : Builder} (h : b.Keeps b') (h' : b'.Keeps b'') : b.Keeps b'' :=
  ⟨h'.rules.trans h.rules, h'.objectTypes.trans h.objectTypes⟩

theorem keeps_findShared (share : Bool) (b : Builder) (parent : NodeId) (t : FieldTest) :
    b.Keeps (findShared share b parent t).2 := by
  unfold findShared
  split <;> exact ⟨rfl, rfl⟩

theorem keeps_newTest (share : Bool) (b : Builder) (parent : NodeId) (t : FieldTest) :
    b.Keeps (newTest share b parent t).2 := ⟨rfl, rfl⟩

theorem keeps_objectType (b : Builder) (T : String) : b.Keeps (b.objectType T).2 := by
  unfold objectType
  split <;> exact ⟨rfl, rfl⟩

theorem keeps_addRoute (share : Bool) (entry parent : NodeId) (b : Builder) (level : Routes)
    (tests : List FieldTest) : b.Keeps (addRoute share entry parent b level tests).1 := by
  -- On the tests of the route, each of which leads one level down, by a shared test or
  -- by a new one.
  induction tests generalizing parent b level with
  | nil => exact ⟨rfl, rfl⟩
  | cons t rest ih =>
      have hfind := keeps_findShared share b parent t
      unfold addRoute
      split
      · next node b' heq =>
        rw [heq] at hfind
        exact hfind.trans (ih node b' (level.under node))
      · next b' heq =>
        rw [heq] at hfind
        exact (hfind.trans (keeps_newTest share b' parent t)).trans (ih _ _ .nil)

theorem rules_addPatterns (share : Bool) (b : Builder) (node : NodeId)
    (patterns : List CompiledPattern) : (addPatterns share b node patterns).rules = b.rules := by
  induction patterns generalizing b node with
  | nil => rfl
  | cons p rest ih =>
      rw [addPatterns, ih]
      exact (keeps_addRoute share node _ _ _ p.fieldTests).rules.trans
        (keeps_objectType b p.factType).rules

/-- A compiled rule comes after the others. -/
theorem rules_addCompiled (config : Config) (b : Builder) (name : String) (first : CompiledPattern)
    (rest : List CompiledPattern) : (addCompiled config b name first rest).rules =
      b.rules ++ [ruleOf config.keyDepth b.rules.length b.nextNode name first rest] :=
  rules_addPatterns _ _ _ _

/-! ## Rules -/

/-- The rule is compiled from the patterns of the given one, under the given number. -/
def IsCompiled (schemas : SchemaRegistry) (depth : Nat) (id : RuleId) (rule : Rule)
    (r : CompiledRule) : Prop :=
  ∃ node first rest, Compile.compilePatterns schemas rule.name 0 [] rule.patterns =
    .ok (first :: rest) ∧
    r = ruleOf depth id node rule.name first rest

section IsCompiled

variable {schemas : SchemaRegistry} {depth : Nat} {id : RuleId} {rule : Rule} {r : CompiledRule}

theorem IsCompiled.wellFormed (h : IsCompiled schemas depth id rule r) : r.WellFormed := by
  obtain ⟨node, first, rest, hcompile, rfl⟩ := h
  exact wellFormed_ruleOf fun i p hp => Compile.tests_of_compilePatterns hcompile i hp

/-- Each entry of a compiled rule has the tests of its pattern. -/
theorem IsCompiled.entries (h : IsCompiled schemas depth id rule r) :
    ∃ patterns, Compile.compilePatterns schemas rule.name 0 [] rule.patterns = .ok patterns ∧
      r.entries.length = patterns.length ∧ ∀ (i : Nat) e, r.entries[i]? = some e →
        ∃ p, patterns[i]? = some p ∧ e.condition.tests = p.joinTests := by
  obtain ⟨node, first, rest, hcompile, rfl⟩ := h
  refine ⟨first :: rest, hcompile, length_entries_ruleOf, fun i e he => ?_⟩
  obtain ⟨p, hp, -, -, -, hcond, -⟩ := getElem?_entries_ruleOf he
  refine ⟨p, hp, ?_⟩
  rw [hcond]
  split
  · next hi =>
    -- The first pattern has no tests, since there is no pattern before it.
    subst hi
    have hlt := Compile.tests_of_compilePatterns hcompile 0 hp
    exact (List.eq_nil_iff_forall_not_mem.mpr fun t ht => Nat.not_lt_zero _ (hlt t ht)).symm
  · rfl

theorem IsCompiled.length_entries (h : IsCompiled schemas depth id rule r) :
    r.entries.length = rule.patterns.length := by
  obtain ⟨patterns, hcompile, hlength, -⟩ := h.entries
  rw [hlength, Compile.eq_resolvedAfter hcompile, length_resolvedAfter]

/-- The tests of an entry are those of the clauses of its pattern that refer to earlier patterns. -/
theorem IsCompiled.tests_eq (h : IsCompiled schemas depth id rule r) {i : Nat} {e : Entry}
    (he : r.entries[i]? = some e) : ∃ p, rule.patterns[i]? = some p ∧
      e.condition.tests = p.joinTests schemas (rule.patterns.take i) := by
  obtain ⟨patterns, hcompile, -, hentries⟩ := h.entries
  obtain ⟨c, hc, htests⟩ := hentries i e he
  rw [Compile.eq_resolvedAfter hcompile, getElem?_resolvedAfter] at hc
  obtain ⟨p, hp, rfl⟩ := Option.map_eq_some_iff.mp hc
  exact ⟨p, hp, htests⟩

theorem IsCompiled.id_eq (h : IsCompiled schemas depth id rule r) : r.id = id := by
  obtain ⟨_, _, _, -, rfl⟩ := h
  rfl

theorem IsCompiled.name_eq (h : IsCompiled schemas depth id rule r) : r.name = rule.name := by
  obtain ⟨_, _, _, -, rfl⟩ := h
  rfl

theorem IsCompiled.nodes_eq (h : IsCompiled schemas depth id rule r) :
    r.nodes = List.range' r.first.node (rule.patterns.length + 1) := by
  rw [← h.length_entries]
  obtain ⟨node, first, rest, -, rfl⟩ := h
  rw [nodes_ruleOf, length_entries_ruleOf]
  rfl

/-- What is at a position of the chain. -/
theorem IsCompiled.entry_eq (h : IsCompiled schemas depth id rule r) {i : Nat} {p : Pattern}
    {e : Entry} (hp : rule.patterns[i]? = some p) (he : r.entries[i]? = some e) :
    e.node = r.first.node + i ∧ e.position = i ∧ e.factType = p.factType ∧
      e.condition = .ofTests (p.joinTests schemas (rule.patterns.take i)) depth := by
  obtain ⟨q, hq, htests⟩ := h.tests_eq he
  rw [hp, Option.some.injEq] at hq
  subst hq
  obtain ⟨node, first, rest, hcompile, rfl⟩ := h
  obtain ⟨c, hc, hnode, hposition, htype, hcond, -⟩ := getElem?_entries_ruleOf he
  rw [Compile.eq_resolvedAfter hcompile, getElem?_resolvedAfter, hp, Option.map_some,
    Option.some.injEq] at hc
  subst hc
  refine ⟨hnode, hposition, htype, ?_⟩
  rw [hcond] at htests ⊢
  split
  · next hi =>
    rw [if_pos hi] at htests
    rw [← htests]
    exact congrArg (JoinCondition.mk []) (by simp [JoinCondition.ofTests, JoinCondition.empty])
  · rfl

theorem IsCompiled.respectsIdentity (h : IsCompiled schemas depth id rule r)
    (hid : ∀ p ∈ rule.patterns, ∀ c ∈ p.clauses, c.RespectsIdentity) :
    ∀ e ∈ r.entries, ∀ t ∈ e.condition.tests, t.RespectsIdentity := by
  intro e he t ht
  obtain ⟨i, hi⟩ := List.mem_iff_getElem?.mp he
  obtain ⟨p, hp, htests⟩ := h.tests_eq hi
  obtain ⟨schema, -, c, hc, ht⟩ := exists_clause_of_mem_joinTests (htests ▸ ht)
  exact Clause.respectsIdentity_of_joinTest? ht (hid p (List.mem_of_getElem? hp) c hc)

end IsCompiled

/-- What the construction has made of the rules so far. -/
structure Fits (schemas : SchemaRegistry) (depth : Nat) (done : List Rule) (b : Builder) :
    Prop where
  length_eq : b.rules.length = done.length
  compiled : ∀ (k : Nat) r, b.rules[k]? = some r →
    ∃ rule, done[k]? = some rule ∧ IsCompiled schemas depth k rule r
  nodup_names : (b.rules.map CompiledRule.name).Nodup

variable {schemas : SchemaRegistry} {config : Config}

theorem fits_empty (depth : Nat) : Fits schemas depth [] empty :=
  ⟨rfl, fun _ _ hr => (nomatch hr), List.nodup_nil⟩

namespace Fits

variable {done : List Rule} {b : Builder} {rule : Rule} {r : CompiledRule}

theorem compiled_append {depth : Nat} (hb : Fits schemas depth done b)
    (hr : IsCompiled schemas depth b.rules.length rule r) (k : Nat) {q : CompiledRule}
    (hq : (b.rules ++ [r])[k]? = some q) :
    ∃ rule', (done ++ [rule])[k]? = some rule' ∧ IsCompiled schemas depth k rule' q := by
  by_cases hk : k < b.rules.length
  · rw [List.getElem?_append_left hk] at hq
    obtain ⟨rule', hrule', hcomp⟩ := hb.compiled k q hq
    exact ⟨rule', by rw [List.getElem?_append_left (hb.length_eq ▸ hk)]; exact hrule', hcomp⟩
  · have hk' : k = b.rules.length := by
      have hlt := (List.getElem?_eq_some_iff.mp hq).1
      simp only [List.length_append, List.length_singleton] at hlt
      omega
    subst hk'
    rw [List.getElem?_concat_length, Option.some.injEq] at hq
    exact ⟨rule, by rw [hb.length_eq, List.getElem?_concat_length], hq ▸ hr⟩

theorem nodup_names_append {depth : Nat} (hb : Fits schemas depth done b)
    (hname : r.name ∉ b.rules.map CompiledRule.name) :
    ((b.rules ++ [r]).map CompiledRule.name).Nodup := by
  rw [List.map_append, List.nodup_append]
  refine ⟨hb.nodup_names, by simp, fun n hn n' hn' heq => hname ?_⟩
  rw [List.map_singleton, List.mem_singleton] at hn'
  rwa [heq, hn'] at hn

end Fits

theorem fits_addCompiled {done : List Rule} {b : Builder} (hb : Fits schemas config.keyDepth done b)
    {rule : Rule} (hname : rule.name ∉ b.rules.map CompiledRule.name) {first : CompiledPattern}
    {rest : List CompiledPattern}
    (hcompile : Compile.compilePatterns schemas rule.name 0 [] rule.patterns =
      .ok (first :: rest)) :
    Fits schemas config.keyDepth (done ++ [rule]) (addCompiled config b rule.name first rest) := by
  have hrules := rules_addCompiled config b rule.name first rest
  refine ⟨?_, ?_, ?_⟩ <;> rw [hrules]
  · rw [List.length_append, List.length_append, hb.length_eq]
    rfl
  · exact fun k q => hb.compiled_append ⟨b.nextNode, first, rest, hcompile, rfl⟩ k
  · exact hb.nodup_names_append hname

/-- A rule can be added iff its name is new and it has a pattern and its patterns can
be compiled. -/
theorem addRule_eq_ok_iff {b b' : Builder} {rule : Rule} : addRule schemas config b rule = .ok b' ↔
    rule.name ∉ b.rules.map CompiledRule.name ∧ ∃ first rest,
      Compile.compilePatterns schemas rule.name 0 [] rule.patterns = .ok (first :: rest) ∧
        b' = addCompiled config b rule.name first rest := by
  have hname : b.rules.any (·.name == rule.name) = true ↔
      rule.name ∈ b.rules.map CompiledRule.name := by
    simp
  unfold addRule
  split
  · next hany => exact iff_of_false (fun h => nomatch h) fun ⟨hnot, _⟩ => hnot (hname.mp hany)
  · next hany =>
    have hnot := mt hname.mpr hany
    split
    · next hempty =>
      rw [List.isEmpty_iff.mp hempty]
      exact iff_of_false (fun h => nomatch h) fun ⟨_, _, _, h, _⟩ => nomatch h
    · rw [bind_eq_ok_iff]
      constructor
      · rintro ⟨compiled, hcompile, h⟩
        cases compiled with
        | nil => cases h
        | cons first rest =>
            cases h
            exact ⟨hnot, first, rest, hcompile, rfl⟩
      · rintro ⟨-, first, rest, hcompile, rfl⟩
        exact ⟨_, hcompile, rfl⟩

theorem fits_addRule {done : List Rule} {b b' : Builder} (hb : Fits schemas config.keyDepth done b)
    {rule : Rule} (h : addRule schemas config b rule = .ok b') :
    Fits schemas config.keyDepth (done ++ [rule]) b' := by
  obtain ⟨hname, first, rest, hcompile, rfl⟩ := addRule_eq_ok_iff.mp h
  exact fits_addCompiled hb hname hcompile

end Builder

/-! ## The network -/

namespace Network

variable {rules : List Rule} {schemas : SchemaRegistry} {config : Config} {net : Network}

theorem build_eq_ok_iff : build rules schemas config = .ok net ↔
    config.validate = .ok () ∧ ∃ b, rules.foldlM (Builder.addRule schemas config) .empty = .ok b ∧
      net = ⟨b.objectTypes, b.rules, config, schemas, b.sharing.counts, b.nextNode⟩ := by
  unfold build
  rw [bind_eq_ok_iff]
  simp only [bind_eq_ok_iff, pure_eq_ok_iff]
  constructor
  · rintro ⟨_, hvalid, h⟩
    exact ⟨hvalid, h⟩
  · rintro ⟨hvalid, h⟩
    exact ⟨_, hvalid, h⟩

theorem fits_build (h : build rules schemas config = .ok net) :
    ∃ b, Builder.Fits schemas config.keyDepth rules b ∧
      net = ⟨b.objectTypes, b.rules, config, schemas, b.sharing.counts, b.nextNode⟩ := by
  obtain ⟨-, b, hfold, h⟩ := build_eq_ok_iff.mp h
  have hfits := foldlM_induction (P := Builder.Fits schemas config.keyDepth)
    (fun _ _ _ _ hb hadd => Builder.fits_addRule hb hadd) [] (Builder.fits_empty _) hfold
  exact ⟨b, hfits, h⟩

/-- The rule at a position is compiled from the given rule at that position. -/
theorem rules_build (h : build rules schemas config = .ok net) (k : Nat) {r : CompiledRule}
    (hr : net.rules[k]? = some r) :
    ∃ rule, rules[k]? = some rule ∧ Builder.IsCompiled schemas config.keyDepth k rule r := by
  obtain ⟨b, hb, rfl⟩ := fits_build h
  exact hb.compiled k r hr

theorem length_rules_build (h : build rules schemas config = .ok net) :
    net.rules.length = rules.length := by
  obtain ⟨b, hb, rfl⟩ := fits_build h
  exact hb.length_eq

/-- The joins respect identity if the clauses of all rules do. -/
theorem respectsIdentity_build (h : build rules schemas config = .ok net)
    (hid : ∀ rule ∈ rules, ∀ p ∈ rule.patterns, ∀ c ∈ p.clauses, c.RespectsIdentity) :
    net.RespectsIdentity := by
  intro e he t ht
  obtain ⟨r, hr, he⟩ := List.mem_flatMap.mp he
  obtain ⟨k, hk⟩ := List.mem_iff_getElem?.mp hr
  obtain ⟨rule, hrule, hcomp⟩ := rules_build h k hk
  exact hcomp.respectsIdentity (hid rule (List.mem_of_getElem? hrule)) e he t ht

/-- A rule is found under its name. -/
theorem ruleNamed?_build (h : build rules schemas config = .ok net) {r : CompiledRule}
    (hr : r ∈ net.rules) : net.ruleNamed? r.name = some r := by
  obtain ⟨b, hb, rfl⟩ := fits_build h
  unfold ruleNamed?
  cases hf : b.rules.find? (·.name == r.name) with
  | none =>
      have := List.find?_eq_none.mp hf r hr
      simp at this
  | some r' =>
      have hn := List.find?_some hf
      rw [beq_iff_eq] at hn
      rw [List.inj_on_of_nodup_map hb.nodup_names (List.mem_of_find?_eq_some hf) hr hn]

end Network

end RuleMatching
