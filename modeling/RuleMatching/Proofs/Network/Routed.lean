import RuleMatching.Proofs.Network.Forest

set_option autoImplicit false

/-! # The routes of a compiled network

In a compiled network the routes for each type lead to the entries of its patterns, by tests that
ask for what the clauses of these patterns ask for (`Builder.Speaks`), and the nodes of all sorts
are numbered without gaps (`Builder.Numbered`). The network is therefore well-formed
(`Network.wellFormed_build`). -/

namespace RuleMatching

open Outcome

/-- The entry of the pattern at position `i` of the rule at position `k`. -/
def entryNode? (rules : List CompiledRule) (k i : Nat) : Option NodeId :=
  rules[k]?.bind fun r => r.entries[i]?.map Entry.node

/-- The node is the entry of a pattern with the given property. -/
def IsEntryOf (given : List Rule) (compiled : List CompiledRule) (property : Pattern → Prop)
    (n : NodeId) : Prop :=
  ∃ k i rule p, given[k]? = some rule ∧ rule.patterns[i]? = some p ∧ property p ∧
    entryNode? compiled k i = some n

/-- The entries of the patterns of one more rule. -/
theorem isEntryOf_concat {given : List Rule} {compiled : List CompiledRule}
    (hlen : compiled.length = given.length) {rule : Rule} {r : CompiledRule}
    {property : Pattern → Prop} {n : NodeId} :
    IsEntryOf (given ++ [rule]) (compiled ++ [r]) property n ↔
      IsEntryOf given compiled property n ∨ ∃ (i : Nat) (p : Pattern), rule.patterns[i]? = some p ∧
        property p ∧ r.entries[i]?.map Entry.node = some n := by
  constructor
  · rintro ⟨k, i, rule', p, hk, hp, hprop, hn⟩
    by_cases hlt : k < given.length
    · rw [List.getElem?_append_left hlt] at hk
      rw [entryNode?, List.getElem?_append_left (hlen ▸ hlt)] at hn
      exact Or.inl ⟨k, i, rule', p, hk, hp, hprop, hn⟩
    · have hk' : k = given.length := by
        have := (List.getElem?_eq_some_iff.mp hk).1
        simp only [List.length_append, List.length_singleton] at this
        omega
      subst hk'
      rw [List.getElem?_concat_length, Option.some.injEq] at hk
      rw [entryNode?, ← hlen, List.getElem?_concat_length] at hn
      exact Or.inr ⟨i, p, hk ▸ hp, hprop, hn⟩
  · rintro (⟨k, i, rule', p, hk, hp, hprop, hn⟩ | ⟨i, p, hp, hprop, hn⟩)
    · have hlt := (List.getElem?_eq_some_iff.mp hk).1
      refine ⟨k, i, rule', p, by rwa [List.getElem?_append_left hlt], hp, hprop, ?_⟩
      rwa [entryNode?, List.getElem?_append_left (hlen ▸ hlt)]
    · refine ⟨given.length, i, rule, p, List.getElem?_concat_length, hp, hprop, ?_⟩
      rw [entryNode?, ← hlen, List.getElem?_concat_length]
      exact hn

namespace Builder

variable {schemas : SchemaRegistry} {config : Config}

/-- The routes for each type ask on the way to each entry for what the clauses of its
pattern ask for. -/
def Speaks (schemas : SchemaRegistry) (done : List Rule) (b : Builder) : Prop :=
  ∀ T n l, (n, l) ∈ contentsOf b.objectTypes T ↔
    IsEntryOf done b.rules (fun p => p.factType = T ∧ l = p.content schemas) n

/-- The numbers of the nodes have no gaps, and routes lead to each entry once. -/
structure Numbered (b : Builder) : Prop where
  nodes : (b.rules.flatMap CompiledRule.nodes ++ b.treesNodes).Perm (List.range b.nextNode)
  led : b.led.Perm ((b.rules.flatMap CompiledRule.entries).map Entry.node)

namespace Numbered

variable {b : Builder} (h : b.Numbered)

include h

theorem nodup_nodes : (b.rules.flatMap CompiledRule.nodes).Nodup :=
  (List.nodup_append.mp (h.nodes.nodup_iff.mpr List.nodup_range)).1

theorem nodup_led : b.led.Nodup :=
  h.led.nodup_iff.mpr (h.nodup_nodes.sublist (CompiledRule.sublist_nodes b.rules))

end Numbered

theorem speaks_empty : Speaks schemas [] empty := by
  intro T n l
  refine iff_of_false (by simp [contentsOf, empty]) ?_
  rintro ⟨k, i, rule, p, hk, -⟩
  simp at hk

theorem numbered_empty : empty.Numbered := ⟨List.Perm.refl _, List.Perm.refl _⟩

/-- The entries of a compiled rule are numbered in the order of the patterns. -/
theorem node_getElem?_ruleOf {depth : Nat} {id : RuleId} {node : NodeId} {name : String}
    {first : CompiledPattern} {rest : List CompiledPattern} (i : Nat) :
    (ruleOf depth id node name first rest).entries[i]?.map Entry.node =
      (first :: rest)[i]?.map fun _ => node + i := by
  cases h : (ruleOf depth id node name first rest).entries[i]? with
  | some e =>
      obtain ⟨p, hp, hn, -⟩ := getElem?_entries_ruleOf h
      rw [hp, Option.map_some, Option.map_some, hn]
  | none =>
      rw [List.getElem?_eq_none_iff, length_entries_ruleOf] at h
      rw [List.getElem?_eq_none h]
      rfl

/-- The compiled patterns ask for what the patterns of the rule ask for, and their entries are
numbered alike. -/
theorem exists_compiled_iff {rule : Rule} {first : CompiledPattern} {rest : List CompiledPattern}
    (hcompile : Compile.compilePatterns schemas rule.name 0 [] rule.patterns = .ok (first :: rest))
    (depth : Nat) (id : RuleId) (node : NodeId) {T : String} {n : NodeId}
    {l : List (TestSignature ⊕ (Accessor × ValueTest))} :
    (∃ (i : Nat) (c : CompiledPattern), (first :: rest)[i]? = some c ∧ c.factType = T ∧
        (n, l) = (node + i, c.fieldTests.map FieldTest.content)) ↔
      ∃ (i : Nat) (p : Pattern), rule.patterns[i]? = some p ∧
        (p.factType = T ∧ l = p.content schemas) ∧
        (ruleOf depth id node rule.name first rest).entries[i]?.map Entry.node = some n := by
  -- The pattern at a position and the compiled one have the same type and the same tests
  -- on their fact.
  have hpattern : ∀ i : Nat, (first :: rest)[i]?.map (fun c => (c.factType, c.fieldTests)) =
      rule.patterns[i]?.map fun p => (p.factType, p.fieldTests schemas) := by
    intro i
    rw [Compile.eq_resolvedAfter hcompile, getElem?_resolvedAfter, Option.map_map]
    rfl
  constructor
  · rintro ⟨i, c, hc, rfl, hx⟩
    cases hx
    have hi := hpattern i
    rw [hc, Option.map_some, eq_comm, Option.map_eq_some_iff] at hi
    obtain ⟨p, hp, hpc⟩ := hi
    obtain ⟨htype, htests⟩ := Prod.mk.inj hpc
    refine ⟨i, p, hp, ⟨htype, by rw [Pattern.content, htests]⟩, ?_⟩
    rw [node_getElem?_ruleOf, hc]
    rfl
  · rintro ⟨i, p, hp, ⟨rfl, rfl⟩, hn⟩
    have hi := hpattern i
    rw [hp, Option.map_some, Option.map_eq_some_iff] at hi
    obtain ⟨c, hc, hcp⟩ := hi
    obtain ⟨htype, htests⟩ := Prod.mk.inj hcp
    rw [node_getElem?_ruleOf, hc, Option.map_some, Option.some.injEq] at hn
    exact ⟨i, c, hc, htype, by rw [← hn, Pattern.content, htests]⟩

/-- The construction with the rule added and its routes still missing. -/
def withRule (config : Config) (b : Builder) (name : String) (first : CompiledPattern)
    (rest : List CompiledPattern) : Builder :=
  { b with
    nextNode := b.nextNode + ((first :: rest).length + 1)
    rules := b.rules ++ [ruleOf config.keyDepth b.rules.length b.nextNode name first rest] }

section Rule

variable {b : Builder} {name : String} {first : CompiledPattern} {rest : List CompiledPattern}

/-- Adding a compiled rule adds a route for each of its patterns. -/
theorem Forest.addCompiled (h : b.Forest) (config : Config) (name : String)
    (first : CompiledPattern) (rest : List CompiledPattern) :
    PlantedAll (withRule config b name first rest)
      (addCompiled config b name first rest) b.nextNode (first :: rest) := by
  have hforest : (withRule config b name first rest).Forest := h.mono rfl rfl (Nat.le_add_right _ _)
  exact hforest.addPatterns config.shareTests b.nextNode (first :: rest)

theorem speaks_addCompiled {done : List Rule} (hlen : b.rules.length = done.length)
    (hforest : b.Forest) (hb : Speaks schemas done b) {rule : Rule}
    (hcompile : Compile.compilePatterns schemas rule.name 0 [] rule.patterns =
      .ok (first :: rest)) :
    Speaks schemas (done ++ [rule]) (addCompiled config b rule.name first rest) := by
  intro T n l
  rw [(hforest.addCompiled config rule.name first rest).contents, rules_addCompiled,
    isEntryOf_concat hlen]
  exact or_congr (hb T n l) (exists_compiled_iff hcompile _ _ _)

/-- The rule has the numbers from the first free one on, and what is new on its routes has
the next ones. -/
theorem numbered_addCompiled (hforest : b.Forest) (hb : b.Numbered) :
    (addCompiled config b name first rest).Numbered := by
  obtain ⟨-, -, hled, count, hcount, hnodes⟩ := hforest.addCompiled config name first rest
  obtain ⟨r, hr⟩ : ∃ r, r = ruleOf config.keyDepth b.rules.length b.nextNode name first rest :=
    ⟨_, rfl⟩
  have hrules : (addCompiled config b name first rest).rules = b.rules ++ [r] := by
    rw [rules_addCompiled, hr]
  refine ⟨?_, ?_⟩ <;> rw [hrules]
  · have hrange : List.range ((withRule config b name first rest).nextNode + count) =
        List.range b.nextNode ++ r.nodes ++
          List.range' (withRule config b name first rest).nextNode count := by
      rw [hr, nodes_ruleOf, withRule, List.range_eq_range', List.range_eq_range',
        ← List.range'_append_1,
        ← List.range'_append_1, Nat.zero_add, Nat.zero_add]
    rw [hcount, hrange, List.flatMap_append, List.flatMap_singleton]
    refine List.perm_iff_count.mpr fun n => ?_
    have hold := hb.nodes.count_eq n
    have hnew := hnodes.count_eq n
    rw [show (withRule config b name first rest).treesNodes = b.treesNodes from rfl] at hnew
    simp only [List.count_append] at hold hnew ⊢
    omega
  · rw [List.flatMap_append, List.flatMap_singleton, List.map_append, hr, map_node_entries_ruleOf]
    exact hled.trans (hb.led.append_right _)

end Rule

/-- What the construction has made of the rules so far, with the routes to their entries. -/
structure Routed (schemas : SchemaRegistry) (depth : Nat) (done : List Rule) (b : Builder) :
    Prop where
  fits : Fits schemas depth done b
  forest : b.Forest
  speaks : Speaks schemas done b
  numbered : b.Numbered

theorem routed_empty (depth : Nat) : Routed schemas depth [] empty :=
  ⟨fits_empty depth, forest_empty, speaks_empty, numbered_empty⟩

theorem routed_addRule {done : List Rule} {b b' : Builder}
    (hb : Routed schemas config.keyDepth done b) {rule : Rule}
    (h : addRule schemas config b rule = .ok b') :
    Routed schemas config.keyDepth (done ++ [rule]) b' := by
  have hfits := fits_addRule hb.fits h
  obtain ⟨-, first, rest, hcompile, rfl⟩ := addRule_eq_ok_iff.mp h
  exact ⟨hfits, (hb.forest.addCompiled config rule.name first rest).forest,
    speaks_addCompiled hb.fits.length_eq hb.forest hb.speaks hcompile,
    numbered_addCompiled hb.forest hb.numbered⟩

end Builder

namespace Network

variable {rules : List Rule} {schemas : SchemaRegistry} {config : Config} {net : Network}

theorem routed_build (h : build rules schemas config = .ok net) :
    ∃ b, Builder.Routed schemas config.keyDepth rules b ∧
      net = ⟨b.objectTypes, b.rules, config, schemas, b.sharing.counts, b.nextNode⟩ := by
  obtain ⟨-, b, hfold, h⟩ := build_eq_ok_iff.mp h
  exact ⟨b, foldlM_induction (P := Builder.Routed schemas config.keyDepth)
    (fun _ _ _ _ hb hadd => Builder.routed_addRule hb hadd) [] (Builder.routed_empty _) hfold, h⟩

/-- **Compilation makes a well-formed network.** -/
theorem wellFormed_build (h : build rules schemas config = .ok net) : net.WellFormed := by
  obtain ⟨b, hb, rfl⟩ := routed_build h
  refine ⟨hb.numbered.nodup_nodes, fun r hr => ?_, fun T => ?_, fun T n hn => ?_⟩
  · obtain ⟨k, hk⟩ := List.mem_iff_getElem?.mp hr
    obtain ⟨_, _, hcomp⟩ := hb.fits.compiled k r hk
    exact hcomp.wellFormed
  · unfold entriesFor objectType?
    split
    · next o ho =>
      have hvalue : o ∈ b.objectTypes.values :=
        List.mem_map_of_mem (b.objectTypes.get?_eq_some_iff.mp ho)
      exact (List.nodup_flatMap.mp hb.numbered.nodup_led).1 o hvalue
    · exact List.nodup_nil
  · unfold entriesFor objectType? at hn
    split at hn
    · next o ho =>
      rw [← Routes.map_fst_contents] at hn
      obtain ⟨⟨n, l⟩, hmem, rfl⟩ := List.mem_map.mp hn
      have hcontents : (n, l) ∈ Builder.contentsOf b.objectTypes T := by
        rw [Builder.contentsOf, ho]
        exact hmem
      -- What the trees of a type lead to is the entry of a pattern of that type.
      obtain ⟨k, i, rule, p, hk, hp, ⟨htype, -⟩, hnode⟩ := (hb.speaks T n l).mp hcontents
      obtain ⟨r, hr, hnode⟩ := Option.bind_eq_some_iff.mp hnode
      obtain ⟨e, he, rfl⟩ := Option.map_eq_some_iff.mp hnode
      obtain ⟨rule', hk', hcomp⟩ := hb.fits.compiled k r hr
      rw [hk, Option.some.injEq] at hk'
      subst hk'
      obtain ⟨-, -, htype', -⟩ := hcomp.entry_eq hp he
      exact ⟨e, List.mem_flatMap.mpr ⟨r, List.mem_of_getElem? hr, List.mem_of_getElem? he⟩, rfl,
        htype'.trans htype⟩
    · cases hn

end Network

end RuleMatching
