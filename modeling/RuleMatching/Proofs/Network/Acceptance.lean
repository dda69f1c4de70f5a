import RuleMatching.Proofs.Network.Reached
import RuleMatching.Proofs.Network.Resolution

set_option autoImplicit false

/-! # The rule sets that compile

A rule is admissible if it has patterns of known types, which are bound to different names, with
clauses that fit where they stand (`Rule.Admissible`). **A rule set compiles iff its rules are
admissible and have different names and its limit on the length of keys is allowed**
(`Network.exists_build_iff`). The compiled rules then have the tests of their clauses
(`Network.carriesOut_build`). -/

namespace RuleMatching

open Outcome

/-! ## Rules -/

/-- The clause refers to an earlier pattern. -/
def Clause.IsJoin : Clause → Prop
  | .join .. | .relation .. => True
  | .literal .. | .valueTest .. => False

/-- The rule makes sense on its own. -/
structure Rule.Admissible (schemas : SchemaRegistry) (rule : Rule) : Prop where
  patterns : rule.patterns ≠ []
  registered : ∀ p ∈ rule.patterns, ∃ schema, schemas.get? p.factType = some schema
  names : (rule.patterns.filterMap Pattern.binding).Nodup
  clauses : ∀ (i : Nat) p, rule.patterns[i]? = some p → ∀ c ∈ p.clauses,
    c.Fits schemas (rule.patterns.take i) p.factType

/-- The rules make sense together. -/
structure Admissible (rules : List Rule) (schemas : SchemaRegistry) (config : Config) : Prop where
  keyDepth : config.keyDepth ≤ Config.maxKeyDepth
  names : (rules.map Rule.name).Nodup
  rule : ∀ rule ∈ rules, rule.Admissible schemas

variable {rules : List Rule} {schemas : SchemaRegistry} {config : Config}

/-- A rule has patterns that can be compiled iff it is admissible. -/
theorem exists_compilePatterns_iff {rule : Rule} :
    (∃ first rest, Compile.compilePatterns schemas rule.name 0 [] rule.patterns =
      .ok (first :: rest)) ↔
      rule.Admissible schemas := by
  constructor
  · rintro ⟨first, rest, hcompile⟩
    obtain ⟨hregistered, hnames, hclauses, hresolved⟩ :=
      Compile.compilePatterns_start_iff.mp hcompile
    refine ⟨fun hnil => ?_, hregistered, hnames, hclauses⟩
    rw [hnil] at hresolved
    cases hresolved
  · rintro ⟨hne, hregistered, hnames, hclauses⟩
    obtain ⟨p, rest, hp⟩ := List.exists_cons_of_ne_nil hne
    exact ⟨p.resolved schemas [], resolvedAfter schemas [p] rest,
      Compile.compilePatterns_start_iff.mpr ⟨hregistered, hnames,
        hclauses, by rw [hp, resolvedAfter_cons]; rfl⟩⟩

namespace Builder

theorem names_addCompiled (config : Config) (b : Builder) (name : String) (first : CompiledPattern)
    (rest : List CompiledPattern) :
    (addCompiled config b name first rest).rules.map CompiledRule.name =
      b.rules.map CompiledRule.name ++ [name] := by
  rw [rules_addCompiled, List.map_append]
  rfl

/-- Rules can be added iff they are admissible, and no name is that of two of them or was
there before. -/
theorem exists_foldlM_addRule_iff {b : Builder} (hnames : (b.rules.map CompiledRule.name).Nodup) :
    (∃ b', rules.foldlM (addRule schemas config) b = .ok b') ↔
      (b.rules.map CompiledRule.name ++ rules.map Rule.name).Nodup ∧
        ∀ rule ∈ rules, rule.Admissible schemas := by
  induction rules generalizing b with
  | nil => simp [hnames, pure, Except.pure]
  | cons rule rest ih =>
      have hsplit : b.rules.map CompiledRule.name ++ (rule :: rest).map Rule.name =
          (b.rules.map CompiledRule.name ++ [rule.name]) ++ rest.map Rule.name := by simp
      -- The names that are in use grow along the induction, so that the next rule is checked
      -- against them all.
      have hnew : rule.name ∉ b.rules.map CompiledRule.name ↔
          (b.rules.map CompiledRule.name ++ [rule.name]).Nodup := by
        rw [List.nodup_append_comm, List.singleton_append, List.nodup_cons]
        exact ⟨fun h => ⟨h, hnames⟩, fun h => h.1⟩
      simp only [List.foldlM_cons, bind_eq_ok_iff, List.forall_mem_cons, hsplit]
      constructor
      · rintro ⟨b', b₁, hadd, hrest⟩
        obtain ⟨hname, first, later, hcompile, rfl⟩ := addRule_eq_ok_iff.mp hadd
        have hnames' := names_addCompiled config b rule.name first later
        obtain ⟨hnodup, hadmissible⟩ := (ih (hnames' ▸ hnew.mp hname)).mp ⟨b', hrest⟩
        exact ⟨hnames' ▸ hnodup, exists_compilePatterns_iff.mp ⟨first, later, hcompile⟩,
          hadmissible⟩
      · rintro ⟨hnodup, hrule, hadmissible⟩
        have hname := (List.nodup_append.mp hnodup).1
        obtain ⟨first, later, hcompile⟩ := exists_compilePatterns_iff.mpr hrule
        have hnames' := names_addCompiled config b rule.name first later
        obtain ⟨b', hrest⟩ := (ih (hnames' ▸ hname)).mpr ⟨hnames' ▸ hnodup, hadmissible⟩
        exact ⟨b', _, addRule_eq_ok_iff.mpr ⟨hnew.mpr hname, first, later, hcompile, rfl⟩, hrest⟩

end Builder

namespace Network

/-- **The rule sets that compile are the admissible ones.** -/
theorem exists_build_iff :
    (∃ net, build rules schemas config = .ok net) ↔ Admissible rules schemas config := by
  have hrules : (∃ b, rules.foldlM (Builder.addRule schemas config) .empty = .ok b) ↔
      (rules.map Rule.name).Nodup ∧ ∀ rule ∈ rules, rule.Admissible schemas :=
    Builder.exists_foldlM_addRule_iff List.nodup_nil
  have hvalid : config.validate = .ok () ↔ config.keyDepth ≤ Config.maxKeyDepth := by
    unfold Config.validate
    split
    · next hlt => exact iff_of_false (fun h => nomatch h) (Nat.not_le_of_lt hlt)
    · next hle => exact iff_of_true rfl (Nat.le_of_not_lt hle)
  simp only [build_eq_ok_iff, hvalid]
  constructor
  · rintro ⟨net, hdepth, b, hfold, -⟩
    obtain ⟨hnames, hadmissible⟩ := hrules.mp ⟨b, hfold⟩
    exact ⟨hdepth, hnames, hadmissible⟩
  · rintro ⟨hdepth, hnames, hadmissible⟩
    obtain ⟨b, hfold⟩ := hrules.mpr ⟨hnames, hadmissible⟩
    exact ⟨_, hdepth, b, hfold, rfl⟩

/-- The tests of a rule, compiled, read facts of earlier patterns as these declare them. -/
structure CarriesOut (schemas : SchemaRegistry) (rule : Rule) (r : CompiledRule) : Prop where
  /-- There is an entry for each pattern, and it has the tests of the clauses that refer to
  earlier patterns. -/
  tests : r.entries.map (·.condition.tests) =
    rule.patterns.mapIdx fun i p => p.joinTests schemas (rule.patterns.take i)
  /-- No clause of the first pattern refers to another one. -/
  first : ∀ p, rule.patterns.head? = some p → ∀ c ∈ p.clauses, ¬ c.IsJoin
  declared : ∀ (i : Nat) e, r.entries[i]? = some e → ∀ t ∈ e.condition.tests,
    t.declaration.pattern < i ∧
    ∃ q schema, rule.patterns[t.declaration.pattern]? = some q ∧
      q.binding = some t.declaration.identifier ∧ schemas.get? q.factType = some schema ∧
        Accessor.resolve schema t.declaration.accessor.field = .ok t.declaration.accessor

/-- **The compiled rules carry out the rules.** -/
theorem carriesOut_build {net : Network} (h : build rules schemas config = .ok net) (k : Nat)
    {r : CompiledRule} (hr : net.rules[k]? = some r) :
    ∃ rule, rules[k]? = some rule ∧ CarriesOut schemas rule r := by
  obtain ⟨rule, hk, hcompiled⟩ := rules_build h k hr
  have hlength := hcompiled.length_entries
  have htests := fun (i : Nat) e (he : r.entries[i]? = some e) => hcompiled.tests_eq he
  obtain ⟨-, first, rest, hcompile, -⟩ := hcompiled
  have hclauses := (exists_compilePatterns_iff.mp ⟨first, rest, hcompile⟩).clauses
  refine ⟨rule, hk, List.ext_getElem? fun i => ?_, fun p hp c hc hjoin => ?_, fun i e he t ht => ?_⟩
  · rw [List.getElem?_map, List.getElem?_mapIdx]
    cases he : r.entries[i]? with
    | none =>
        rw [List.getElem?_eq_none_iff, hlength] at he
        rw [List.getElem?_eq_none he]
        rfl
    | some e =>
        obtain ⟨p, hp, htests⟩ := htests i e he
        rw [hp, Option.map_some, Option.map_some, htests]
  · -- There is no pattern before the first one.
    have hfits := hclauses 0 p (List.head?_eq_getElem? ▸ hp) c hc
    cases hfits with
    | literal => exact hjoin
    | valueTest => exact hjoin
    | join _ _ hq => cases hq
    | relation _ hq => cases hq
  · obtain ⟨p, -, htests⟩ := htests i e he
    obtain ⟨schema, -, c, -, hc⟩ := exists_clause_of_mem_joinTests (htests ▸ ht)
    obtain ⟨-, name, field, hd⟩ := Clause.of_joinTest?_eq_some hc
    obtain ⟨q, schema, hq, hname, hschema, rfl, ha⟩ := of_declaration?_eq_some hd
    rw [List.getElem?_take] at hq
    split at hq
    · next hlt =>
      refine ⟨hlt, q, schema, hq, hname, hschema, ?_⟩
      rw [(Accessor.resolve_eq_ok_iff.mp ha).2.2]
      exact ha
    · cases hq

end Network

end RuleMatching
