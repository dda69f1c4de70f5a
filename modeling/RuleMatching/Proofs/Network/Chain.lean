import Mathlib.Data.List.Range
import RuleMatching.Proofs.Network.Resolution
import RuleMatching.Proofs.Network.Shape

set_option autoImplicit false

/-! # The chain of a compiled rule

The tests of a pattern read patterns before it (`Compile.tests_of_compilePatterns`), so the chain of
entries that is made of compiled patterns is well-formed (`Builder.wellFormed_ruleOf`): its nodes
are consecutive numbers, and every read of a test is listed at the entry whose fact it reads. -/

namespace RuleMatching

open Outcome

/-- A relation of the clause answers alike on identical values. -/
def Clause.RespectsIdentity : Clause → Prop
  | .relation _ _ _ r => r.RespectsIdentity
  | _ => True

theorem Clause.respectsIdentity_of_joinTest? {schemas : SchemaRegistry} {earlier : List Pattern}
    {schema : Schema} {c : Clause} {t : JoinTest} (h : c.joinTest? schemas earlier schema = some t)
    (hc : c.RespectsIdentity) : t.RespectsIdentity := by
  cases c with
  | literal => cases h
  | valueTest => cases h
  | join field op name other =>
      obtain ⟨a, -, h⟩ := Option.bind_eq_some_iff.mp h
      obtain ⟨d, -, h⟩ := Option.bind_eq_some_iff.mp h
      cases h
      trivial
  | relation field name other r =>
      obtain ⟨a, -, h⟩ := Option.bind_eq_some_iff.mp h
      obtain ⟨d, -, h⟩ := Option.bind_eq_some_iff.mp h
      cases h
      exact hc

/-- **The tests of a pattern read patterns before it.** -/
theorem Compile.tests_of_compilePatterns {schemas : SchemaRegistry} {rule : String}
    {patterns : List Pattern} {compiled : List CompiledPattern}
    (h : compilePatterns schemas rule 0 [] patterns = .ok compiled) (i : Nat) {p : CompiledPattern}
    (hp : compiled[i]? = some p) : ∀ t ∈ p.joinTests, t.declaration.pattern < i := by
  rw [eq_resolvedAfter h, getElem?_resolvedAfter] at hp
  obtain ⟨pattern, -, rfl⟩ := Option.map_eq_some_iff.mp hp
  intro t ht
  obtain ⟨schema, -, c, -, ht⟩ := exists_clause_of_mem_joinTests ht
  obtain ⟨-, name, field, hd⟩ := Clause.of_joinTest?_eq_some ht
  obtain ⟨q, -, hq, -⟩ := of_declaration?_eq_some hd
  have hlt := (List.getElem?_eq_some_iff.mp hq).1
  rw [List.nil_append, List.length_take] at hlt
  exact (Nat.lt_min.mp hlt).1

/-! ## The chain of a rule -/

namespace Builder

theorem mem_readsAt {reads : List (Nat × FieldRead)} {position : Nat} {read : FieldRead} :
    read ∈ readsAt reads position ↔ (position, read) ∈ reads := by
  rw [readsAt, List.mem_eraseDups, List.mem_map]
  constructor
  · rintro ⟨⟨q, read⟩, hmem, rfl⟩
    obtain ⟨hmem, hq⟩ := List.mem_filter.mp hmem
    rw [beq_iff_eq] at hq
    exact hq ▸ hmem
  · intro hmem
    exact ⟨_, List.mem_filter.mpr ⟨hmem, beq_self_eq_true _⟩, rfl⟩

/-- Both reads of a test are listed, at the pattern of the test and at the one that it refers to. -/
theorem mem_readsFrom (node position : Nat) {i : Nat} {patterns : List CompiledPattern}
    {p : CompiledPattern} (hp : patterns[i]? = some p) {t : JoinTest} (ht : t ∈ p.joinTests) :
    (position + i, ⟨node + i, t.accessor⟩) ∈ readsFrom node position patterns ∧
      (t.declaration.pattern, ⟨node + i, t.declaration.accessor⟩) ∈
        readsFrom node position patterns := by
  induction patterns generalizing node position i with
  | nil => simp at hp
  | cons q rest ih =>
      rw [readsFrom]
      cases i with
      | zero =>
          rw [List.getElem?_cons_zero, Option.some.injEq] at hp
          subst hp
          have hsub : ∀ r ∈ [(position, FieldRead.mk node t.accessor),
              (t.declaration.pattern, ⟨node, t.declaration.accessor⟩)],
              r ∈ readsOf node position q.joinTests := fun r hr => List.mem_flatMap.mpr ⟨t, ht, hr⟩
          exact ⟨List.mem_append_left _ (hsub _ (by simp)),
            List.mem_append_left _ (hsub _ (by simp))⟩
      | succ i =>
          rw [List.getElem?_cons_succ] at hp
          have h := ih (node + 1) (position + 1) hp
          rw [show node + 1 + i = node + (i + 1) by omega,
            show position + 1 + i = position + (i + 1) by omega] at h
          exact ⟨List.mem_append_right _ h.1, List.mem_append_right _ h.2⟩

/-- The join of the pattern at the given position. -/
def joinOf (depth : Nat) (reads : List (Nat × FieldRead)) (node position : Nat)
    (p : CompiledPattern) : Entry :=
  ⟨node, position, p.factType, .ofTests p.joinTests depth, readsAt reads position⟩

theorem joinsFrom_eq_mapIdx (depth : Nat) (reads : List (Nat × FieldRead)) (node position : Nat)
    (patterns : List CompiledPattern) :
    joinsFrom depth reads node position patterns =
      patterns.mapIdx fun i p => joinOf depth reads (node + i) (position + i) p := by
  induction patterns generalizing node position with
  | nil => rfl
  | cons p rest ih =>
      rw [joinsFrom, ih, List.mapIdx_cons]
      refine congrArg₂ _ rfl (List.mapIdx_eq_mapIdx_iff.mpr fun i _ => ?_)
      rw [show node + 1 + i = node + (i + 1) by omega,
        show position + 1 + i = position + (i + 1) by omega]

/-- The nodes of a rule whose patterns are compiled, numbered from `node` on. -/
def ruleOf (depth : Nat) (id : RuleId) (node : NodeId) (name : String) (first : CompiledPattern)
    (rest : List CompiledPattern) : CompiledRule :=
  let reads := readsFrom node 0 (first :: rest)
  ⟨id, name, ⟨node, 0, first.factType, .empty, readsAt reads 0⟩,
    joinsFrom depth reads (node + 1) 1 rest, node + (first :: rest).length⟩

section Chain

variable {depth : Nat} {id : RuleId} {node : NodeId} {name : String} {first : CompiledPattern}
  {rest : List CompiledPattern}

/-- What is at a position of the chain. -/
theorem getElem?_entries_ruleOf {i : Nat} {e : Entry}
    (h : (ruleOf depth id node name first rest).entries[i]? = some e) :
    ∃ p, (first :: rest)[i]? = some p ∧ e.node = node + i ∧ e.position = i ∧
      e.factType = p.factType ∧
      e.condition = (if i = 0 then .empty else .ofTests p.joinTests depth) ∧
      e.reads = readsAt (readsFrom node 0 (first :: rest)) i := by
  cases i with
  | zero =>
      cases h
      exact ⟨first, rfl, rfl, rfl, rfl, rfl, rfl⟩
  | succ i =>
      rw [CompiledRule.entries, List.getElem?_cons_succ] at h
      simp only [ruleOf] at h
      rw [joinsFrom_eq_mapIdx, List.getElem?_mapIdx] at h
      obtain ⟨p, hp, rfl⟩ := Option.map_eq_some_iff.mp h
      refine ⟨p, hp, ?_, ?_, rfl, rfl, ?_⟩
      · rw [joinOf, Nat.add_assoc, Nat.add_comm 1 i]
      · rw [joinOf, Nat.add_comm 1 i]
      · rw [joinOf, Nat.add_comm 1 i]

theorem length_entries_ruleOf :
    (ruleOf depth id node name first rest).entries.length = (first :: rest).length := by
  rw [CompiledRule.entries, List.length_cons, List.length_cons]
  simp [ruleOf, joinsFrom_eq_mapIdx]

theorem getElem?_of_split {r : CompiledRule} {before later : List Entry} {e : Entry}
    (h : r.entries = before ++ e :: later) : r.entries[before.length]? = some e := by
  rw [h, List.getElem?_append_right (Nat.le_refl _), Nat.sub_self]
  rfl

theorem map_node_entries_ruleOf : (ruleOf depth id node name first rest).entries.map Entry.node =
    List.range' node (first :: rest).length := by
  apply List.ext_getElem?
  intro i
  rw [List.getElem?_map]
  cases h : (ruleOf depth id node name first rest).entries[i]? with
  | none =>
      rw [List.getElem?_eq_none_iff, length_entries_ruleOf] at h
      rw [Option.map_none, eq_comm, List.getElem?_eq_none_iff, List.length_range']
      exact h
  | some e =>
      obtain ⟨_, _, hn, _⟩ := getElem?_entries_ruleOf h
      have hlt := (List.getElem?_eq_some_iff.mp h).1
      rw [length_entries_ruleOf] at hlt
      rw [Option.map_some, List.getElem?_range' hlt, hn, Nat.one_mul]

/-- The entries and the terminal have consecutive numbers. -/
theorem nodes_ruleOf :
    (ruleOf depth id node name first rest).nodes =
      List.range' node ((first :: rest).length + 1) := by
  rw [CompiledRule.nodes, map_node_entries_ruleOf, List.range'_concat, Nat.one_mul]
  rfl

/-- **The chain of a compiled rule is well-formed.** -/
theorem wellFormed_ruleOf (hp : ∀ (i : Nat) (p : CompiledPattern), (first :: rest)[i]? = some p →
    ∀ t ∈ p.joinTests, t.declaration.pattern < i) :
    (ruleOf depth id node name first rest).WellFormed := by
  refine ⟨?_, rfl, ?_, ?_⟩
  · intro before e later h
    obtain ⟨_, _, _, hpos, _⟩ := getElem?_entries_ruleOf (getElem?_of_split h)
    exact hpos
  · intro e he
    obtain ⟨i, hi⟩ := List.mem_iff_getElem?.mp he
    obtain ⟨p, _, _, _, _, hcond, _⟩ := getElem?_entries_ruleOf hi
    rw [hcond]
    split
    · exact JoinCondition.indexable_ofTests [] 0
    · exact JoinCondition.indexable_ofTests _ _
  · intro before e later h t ht
    obtain ⟨p, hpi, hnode, _, _, hcond, hreads⟩ := getElem?_entries_ruleOf (getElem?_of_split h)
    have ht' : t ∈ p.joinTests := by
      rw [hcond] at ht
      split at ht
      · cases ht
      · exact ht
    have hmem := mem_readsFrom node 0 hpi ht'
    rw [Nat.zero_add] at hmem
    -- The pattern that the test declares comes before the one it belongs to, so its entry is among
    -- those before.
    have hlt := hp _ p hpi t ht'
    refine ⟨?_, before[t.declaration.pattern], List.getElem?_eq_getElem hlt, ?_⟩
    · rw [hreads, hnode]
      exact mem_readsAt.mpr hmem.1
    · have hb : (ruleOf depth id node name first rest).entries[t.declaration.pattern]? =
          some before[t.declaration.pattern] := by
        rw [h, List.getElem?_append_left hlt, List.getElem?_eq_getElem hlt]
      obtain ⟨_, _, _, _, _, _, hbreads⟩ := getElem?_entries_ruleOf hb
      rw [hbreads, hnode]
      exact mem_readsAt.mpr hmem.2

end Chain

end Builder

end RuleMatching
