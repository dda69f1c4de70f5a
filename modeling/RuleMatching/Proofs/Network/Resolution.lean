import Mathlib.Data.List.Nodup
import RuleMatching.Proofs.Network.Verdict

set_option autoImplicit false

/-! # The resolution of patterns

A clause fits after some patterns if its fields are declared, the name that it refers to is bound by
one of these patterns, and its operator, its literal and its kinds go together (`Clause.Fits`).
**Patterns can be compiled iff all clauses fit where they stand and no name is bound twice, and then
each pattern has the tests of its clauses, in order** (`Compile.compilePatterns_eq_ok_iff`). -/

namespace RuleMatching

open Outcome

/-! ## Clauses that fit -/

/-- The clause makes sense for facts of the given type, after the given patterns. -/
inductive Clause.Fits (schemas : SchemaRegistry) (earlier : List Pattern) (factType : String) :
    Clause → Prop
  | literal {field : String} {op : Operator} {value v : Value} {kind : Kind}
      (hown : schemas.kind? factType field = some kind)
      (hop : op.isOrdering = true → kind.isOrdered = true)
      (hvalue : value.coerce? kind = some v) :
      Fits schemas earlier factType (.literal field op value)
  | valueTest {field : String} {test : ValueTest} {kind : Kind}
      (hown : schemas.kind? factType field = some kind) :
      Fits schemas earlier factType (.valueTest field test)
  | join {field name other : String} {op : Operator} {kind kind' : Kind} {q : Pattern}
      (hown : schemas.kind? factType field = some kind) (hop : op.isOrdering = true →
        kind.isOrdered = true)
      (hq : q ∈ earlier) (hname : q.binding = some name) (hother : schemas.kind? q.factType other =
        some kind')
      (hkinds : kind = kind' ∨ (kind.isNumeric = true ∧ kind'.isNumeric = true)) :
      Fits schemas earlier factType (.join field op name other)
  | relation {field name other : String} {r : ValueRelation} {kind kind' : Kind} {q : Pattern}
      (hown : schemas.kind? factType field = some kind) (hq : q ∈ earlier) (hname : q.binding =
        some name)
      (hother : schemas.kind? q.factType other = some kind') :
      Fits schemas earlier factType (.relation field name other r)

/-! ## What clauses become -/

/-- What the name stands for after the given patterns. -/
def binding? (schemas : SchemaRegistry) (earlier : List Pattern) (name : String) : Option Binding :=
  earlier.zipIdx.findSome? fun (p, i) =>
    if p.binding = some name then (schemas.get? p.factType).map (⟨name, i, ·⟩) else none

/-- The field of the facts that the name stands for after the given patterns. -/
def declaration? (schemas : SchemaRegistry) (earlier : List Pattern) (name field : String) :
    Option Declaration := do
  let b ← binding? schemas earlier name
  return ⟨name, b.position, ← (Accessor.resolve b.schema field).toOption⟩

/-- The test of the clause against the facts of earlier patterns, if it has one. -/
def Clause.joinTest? (schemas : SchemaRegistry) (earlier : List Pattern) (schema : Schema) :
    Clause → Option JoinTest
  | .join field op name other => do
    let accessor ← (Accessor.resolve schema field).toOption
    return .compare accessor op (← declaration? schemas earlier name other)
  | .relation field name other r => do
    let accessor ← (Accessor.resolve schema field).toOption
    return .related accessor (← declaration? schemas earlier name other) r
  | .literal .. | .valueTest .. => none

/-- The tests of the pattern against the facts of earlier patterns, in the order of the clauses. -/
def Pattern.joinTests (schemas : SchemaRegistry) (earlier : List Pattern) (p : Pattern) :
    List JoinTest :=
  match schemas.get? p.factType with
  | some schema => p.clauses.filterMap (Clause.joinTest? schemas earlier schema)
  | none => []

/-- The pattern with its clauses resolved. -/
def Pattern.resolved (schemas : SchemaRegistry) (earlier : List Pattern) (p : Pattern) :
    CompiledPattern :=
  ⟨p.factType, p.fieldTests schemas, p.joinTests schemas earlier⟩

/-- The clauses of the patterns make sense where they stand, after the earlier patterns and
those before them. -/
def ClausesFit (schemas : SchemaRegistry) (earlier patterns : List Pattern) : Prop :=
  ∀ (i : Nat) p, patterns[i]? = some p → ∀ c ∈ p.clauses,
    c.Fits schemas (earlier ++ patterns.take i) p.factType

/-- The patterns with their clauses resolved, after the earlier ones. -/
def resolvedAfter (schemas : SchemaRegistry) (earlier patterns : List Pattern) :
    List CompiledPattern :=
  patterns.mapIdx fun i p => p.resolved schemas (earlier ++ patterns.take i)

variable {schemas : SchemaRegistry} {earlier : List Pattern} {name field : String}

theorem clausesFit_nil (schemas : SchemaRegistry) (earlier : List Pattern) :
    ClausesFit schemas earlier [] :=
  fun _ _ hp => nomatch hp

/-- The first pattern stands after the earlier ones, and the others after it as well. -/
theorem clausesFit_cons_iff {p : Pattern} {rest : List Pattern} :
    ClausesFit schemas earlier (p :: rest) ↔
    (∀ c ∈ p.clauses, c.Fits schemas earlier p.factType) ∧
    ClausesFit schemas (earlier ++ [p]) rest := by
  have hshift : ∀ i, earlier ++ (p :: rest).take (i + 1) = earlier ++ [p] ++ rest.take i := by simp
  constructor
  · intro hall
    refine ⟨fun c hc => ?_, fun i q hq c hc => ?_⟩
    · have hfirst := hall 0 p rfl c hc
      rwa [List.take_zero, List.append_nil] at hfirst
    · rw [← hshift]
      exact hall (i + 1) q hq c hc
  · rintro ⟨hfirst, hrest⟩ i q hq c hc
    cases i with
    | zero =>
        cases hq
        rw [List.take_zero, List.append_nil]
        exact hfirst c hc
    | succ i =>
        rw [hshift]
        exact hrest i q hq c hc

theorem resolvedAfter_cons (p : Pattern) (rest : List Pattern) :
    resolvedAfter schemas earlier (p :: rest) =
    p.resolved schemas earlier :: resolvedAfter schemas (earlier ++ [p]) rest := by
  simp [resolvedAfter, List.mapIdx_cons]

theorem getElem?_resolvedAfter (schemas : SchemaRegistry) (earlier patterns : List Pattern)
    (i : Nat) :
    (resolvedAfter schemas earlier patterns)[i]? =
      patterns[i]?.map fun p => p.resolved schemas (earlier ++ patterns.take i) :=
  List.getElem?_mapIdx

theorem length_resolvedAfter (schemas : SchemaRegistry) (earlier patterns : List Pattern) :
    (resolvedAfter schemas earlier patterns).length = patterns.length := List.length_mapIdx

theorem Accessor.resolve_eq_ok_iff {s : Schema} {a : Accessor} :
    Accessor.resolve s field = .ok a ↔ s.kind? field = some a.kind ∧ a.factType = s.name ∧
    a.field = field := by
  unfold Accessor.resolve
  cases s.kind? field with
  | none => exact ⟨fun h => (nomatch h), fun ⟨h, _⟩ => (nomatch h)⟩
  | some kind =>
      constructor
      · intro h
        cases h
        exact ⟨rfl, rfl, rfl⟩
      · rintro ⟨hkind, htype, hfield⟩
        cases hkind
        rw [← htype, ← hfield]

/-- The kind of a field is that with which it is resolved. -/
theorem SchemaRegistry.kind?_eq_some_iff {factType : String} {schema : Schema} {kind : Kind}
    (hschema : schemas.get? factType = some schema) : schemas.kind? factType field = some kind ↔
      Accessor.resolve schema field = .ok ⟨schema.name, field, kind⟩ := by
  rw [SchemaRegistry.kind?, hschema, Option.bind_some, Accessor.resolve_eq_ok_iff]
  simp

theorem SchemaRegistry.kind?_of_resolve {factType : String} {schema : Schema} {a : Accessor}
    (hschema : schemas.get? factType = some schema) (ha : Accessor.resolve schema field = .ok a) :
    schemas.kind? factType field = some a.kind := by
  obtain ⟨-, htype, hfield⟩ := Accessor.resolve_eq_ok_iff.mp ha
  subst hfield
  rw [kind?_eq_some_iff hschema, ← htype]
  exact ha

/-! ## Names -/

theorem binding?_concat (p : Pattern) (name : String) : binding? schemas (earlier ++ [p]) name =
    (binding? schemas earlier name).or
      (if p.binding = some name then (schemas.get? p.factType).map (⟨name, earlier.length, ·⟩)
        else none) := by
  rw [binding?, List.zipIdx_append, List.findSome?_append, Nat.zero_add]
  rw [List.zipIdx_singleton, List.findSome?_singleton]
  rfl

/-- What a name stands for is one of the patterns that are bound to it. -/
theorem of_binding?_eq_some {b : Binding} (h : binding? schemas earlier name = some b) :
    b.name = name ∧ ∃ p, earlier[b.position]? = some p ∧ p.binding = some name ∧
      schemas.get? p.factType = some b.schema := by
  obtain ⟨⟨p, i⟩, hmem, hb⟩ := List.exists_of_findSome?_eq_some h
  simp only at hb
  split at hb
  · next hname =>
    obtain ⟨schema, hschema, rfl⟩ := Option.map_eq_some_iff.mp hb
    exact ⟨rfl, p, List.mk_mem_zipIdx_iff_getElem?.mp hmem, hname, hschema⟩
  · cases hb

/-- A declaration reads a field that a pattern with the name declares. -/
theorem of_declaration?_eq_some {d : Declaration}
    (h : declaration? schemas earlier name field = some d) :
    ∃ q schema, earlier[d.pattern]? = some q ∧ q.binding = some name ∧
      schemas.get? q.factType = some schema ∧
      d.identifier = name ∧ Accessor.resolve schema field = .ok d.accessor := by
  obtain ⟨b, hb, h⟩ := Option.bind_eq_some_iff.mp h
  obtain ⟨-, q, hq, hname, hschema⟩ := of_binding?_eq_some hb
  cases ha : Accessor.resolve b.schema field with
  | error err =>
      rw [ha] at h
      cases h
  | ok a =>
      rw [ha] at h
      cases h
      exact ⟨q, b.schema, hq, hname, hschema, rfl, ha⟩

/-- Each pattern is bound to a name of its own. -/
theorem eq_of_binding_eq (hnames : (earlier.filterMap Pattern.binding).Nodup) {i j : Nat}
    {p q : Pattern} (hp : earlier[i]? = some p) (hq : earlier[j]? = some q)
    (hpn : p.binding = some name) (hqn : q.binding = some name) : i = j := by
  obtain ⟨hi, rfl⟩ := List.getElem?_eq_some_iff.mp hp
  obtain ⟨hj, rfl⟩ := List.getElem?_eq_some_iff.mp hq
  have hpairwise := List.pairwise_iff_getElem.mp (List.pairwise_filterMap.mp hnames)
  rcases Nat.lt_trichotomy i j with hij | hij | hij
  · exact absurd rfl (hpairwise i j hi hj hij name hpn name hqn)
  · exact hij
  · exact absurd rfl (hpairwise j i hj hi hij name hqn name hpn)

/-- The patterns are of known types, and each name is bound by one of them. -/
structure Introduced (schemas : SchemaRegistry) (earlier : List Pattern) : Prop where
  registered : ∀ p ∈ earlier, ∃ schema, schemas.get? p.factType = some schema
  names : (earlier.filterMap Pattern.binding).Nodup

namespace Introduced

variable (h : Introduced schemas earlier)

include h

theorem take (i : Nat) : Introduced schemas (earlier.take i) :=
  ⟨fun p hp => h.registered p (List.mem_of_mem_take hp),
    h.names.sublist ((List.take_sublist i _).filterMap _)⟩

/-- A name stands for something iff one of the patterns is bound to it. -/
theorem isSome_binding?_iff (name : String) : (binding? schemas earlier name).isSome = true ↔
    name ∈ earlier.filterMap Pattern.binding := by
  rw [List.mem_filterMap, binding?, List.isSome_findSome?, List.any_eq_true]
  constructor
  · rintro ⟨⟨p, i⟩, hmem, hp⟩
    refine ⟨p, List.mem_of_getElem? (List.mk_mem_zipIdx_iff_getElem?.mp hmem), ?_⟩
    by_contra hname
    simp [hname] at hp
  · rintro ⟨p, hp, hname⟩
    obtain ⟨i, hi⟩ := List.mem_iff_getElem?.mp hp
    obtain ⟨schema, hschema⟩ := h.registered p hp
    exact ⟨(p, i), List.mk_mem_zipIdx_iff_getElem?.mpr hi, by simp [hname, hschema]⟩

/-- A declaration reads a field that the pattern with the name declares, and no other pattern
has this name. -/
theorem declaration?_eq_some_iff {d : Declaration} :
    declaration? schemas earlier name field = some d ↔
    ∃ q schema, earlier[d.pattern]? = some q ∧ q.binding = some name ∧
      schemas.get? q.factType = some schema ∧
      d.identifier = name ∧ Accessor.resolve schema field = .ok d.accessor := by
  refine ⟨of_declaration?_eq_some, fun ⟨q, schema, hq, hname, hschema, hid, ha⟩ => ?_⟩
  have hmem : name ∈ earlier.filterMap Pattern.binding :=
    List.mem_filterMap.mpr ⟨q, List.mem_of_getElem? hq, hname⟩
  obtain ⟨b, hb⟩ := Option.isSome_iff_exists.mp ((h.isSome_binding?_iff name).mpr hmem)
  obtain ⟨-, q', hq', hname', hschema'⟩ := of_binding?_eq_some hb
  have hpos := eq_of_binding_eq h.names hq' hq hname' hname
  rw [hpos, hq, Option.some.injEq] at hq'
  rw [← hq', hschema, Option.some.injEq] at hschema'
  rw [declaration?, hb]
  simp only [Option.bind_eq_bind, Option.bind_some]
  rw [← hschema', ha, hpos, ← hid]
  rfl

/-- A name can be referred to iff a pattern is bound to it that declares the field. -/
theorem exists_declaration?_iff {P : Kind → Prop} :
    (∃ d, declaration? schemas earlier name field = some d ∧ P d.accessor.kind) ↔
      ∃ q ∈ earlier, q.binding = some name ∧
      ∃ kind, schemas.kind? q.factType field = some kind ∧ P kind := by
  constructor
  · rintro ⟨d, hd, hP⟩
    obtain ⟨q, schema, hq, hname, hschema, -, ha⟩ := h.declaration?_eq_some_iff.mp hd
    refine ⟨q, List.mem_of_getElem? hq, hname, d.accessor.kind, ?_, hP⟩
    rw [SchemaRegistry.kind?, hschema, Option.bind_some]
    exact (Accessor.resolve_eq_ok_iff.mp ha).1
  · rintro ⟨q, hq, hname, kind, hkind, hP⟩
    obtain ⟨schema, hschema, hfield⟩ := Option.bind_eq_some_iff.mp hkind
    obtain ⟨i, hi⟩ := List.mem_iff_getElem?.mp hq
    exact ⟨⟨name, i, ⟨schema.name, field, kind⟩⟩, h.declaration?_eq_some_iff.mpr
      ⟨q, schema, hi, hname, hschema, rfl, Accessor.resolve_eq_ok_iff.mpr ⟨hfield, rfl, rfl⟩⟩, hP⟩

end Introduced

/-- The bindings tell what the names stand for after the given patterns. -/
structure Scope (schemas : SchemaRegistry) (earlier : List Pattern) (bindings : List Binding) : Prop
    extends Introduced schemas earlier where
  find? : ∀ name, bindings.find? (·.name == name) = binding? schemas earlier name

theorem scope_nil (schemas : SchemaRegistry) : Scope schemas [] [] :=
  ⟨⟨fun _ hp => (List.not_mem_nil hp).elim, List.nodup_nil⟩, fun _ => rfl⟩

namespace Scope

variable {bindings : List Binding} (h : Scope schemas earlier bindings)

include h

theorem any_iff (name : String) :
    bindings.any (·.name == name) = true ↔ name ∈ earlier.filterMap Pattern.binding := by
  rw [List.any_eq_true, ← List.find?_isSome, h.find?, h.isSome_binding?_iff]

/-- A pattern brings its name into scope, which must be a new one. -/
theorem addBinding_eq_ok_iff {rule : String} {p : Pattern} {schema : Schema}
    {bindings' : List Binding} :
    Compile.addBinding rule earlier.length schema bindings p.binding = .ok bindings' ↔
      ((earlier ++ [p]).filterMap Pattern.binding).Nodup ∧
        bindings' = (p.binding.map (⟨·, earlier.length, schema⟩)).toList ++ bindings := by
  rw [List.filterMap_append]
  unfold Compile.addBinding
  cases hname : p.binding with
  | none =>
      rw [List.filterMap_cons_none hname, List.filterMap_nil, List.append_nil]
      exact ⟨fun heq => ⟨h.names, by cases heq; rfl⟩, fun ⟨_, heq⟩ => congrArg Except.ok heq.symm⟩
  | some name =>
      rw [List.filterMap_cons_some hname, List.filterMap_nil]
      simp only
      split
      · next hany =>
        refine iff_of_false (fun heq => nomatch heq) fun ⟨hnodup, _⟩ => ?_
        exact (List.nodup_append.mp hnodup).2.2 name ((h.any_iff name).mp hany) name (by simp) rfl
      · next hany =>
        have hnot := mt (h.any_iff name).mpr hany
        have hnodup : (earlier.filterMap Pattern.binding ++ [name]).Nodup :=
          List.nodup_append.mpr ⟨h.names, List.nodup_singleton _, fun a ha b hb heq => hnot
            (List.mem_singleton.mp hb ▸ heq ▸ ha)⟩
        exact ⟨fun heq => ⟨hnodup, by cases heq; rfl⟩, fun ⟨_, heq⟩ => congrArg Except.ok heq.symm⟩

theorem concat {p : Pattern} {schema : Schema} (hschema : schemas.get? p.factType = some schema)
    (hnames : ((earlier ++ [p]).filterMap Pattern.binding).Nodup) :
    Scope schemas (earlier ++ [p])
      ((p.binding.map (⟨·, earlier.length, schema⟩)).toList ++ bindings) := by
  refine ⟨⟨fun q hq => ?_, hnames⟩, fun name => ?_⟩
  · rcases List.mem_append.mp hq with hq | hq
    · exact h.registered q hq
    · exact ⟨schema, List.mem_singleton.mp hq ▸ hschema⟩
  · rw [binding?_concat, ← h.find?, hschema]
    cases hname : p.binding with
    | none => simp
    | some own =>
        by_cases heq : own = name
        · subst heq
          -- The name is new, so it stands for nothing yet.
          rw [List.filterMap_append, List.filterMap_cons_some hname] at hnames
          have hnot := fun hmem => (List.nodup_append.mp hnames).2.2 own hmem own (by simp) rfl
          have hnone : bindings.find? (·.name == own) = none := by
            rw [h.find?, ← Option.not_isSome_iff_eq_none]
            exact mt (h.isSome_binding?_iff own).mp hnot
          simp [hnone]
        · simp [heq]

end Scope

/-! ## Clauses -/

/-- A test against earlier patterns comes from a clause. -/
theorem exists_clause_of_mem_joinTests {p : Pattern} {t : JoinTest}
    (ht : t ∈ p.joinTests schemas earlier) :
    ∃ schema, schemas.get? p.factType = some schema ∧
      ∃ c ∈ p.clauses, c.joinTest? schemas earlier schema = some t := by
  unfold Pattern.joinTests at ht
  split at ht
  · next schema hschema =>
    obtain ⟨c, hc, ht⟩ := List.mem_filterMap.mp ht
    exact ⟨schema, hschema, c, hc, ht⟩
  · cases ht

/-- The test of a clause reads a field of its own fact, and of an earlier one what a
name stands for. -/
theorem Clause.of_joinTest?_eq_some {c : Clause} {schema : Schema} {t : JoinTest}
    (h : c.joinTest? schemas earlier schema = some t) :
    Accessor.resolve schema t.accessor.field = .ok t.accessor ∧
      ∃ name field, declaration? schemas earlier name field = some t.declaration := by
  have hown : ∀ {field a}, (Accessor.resolve schema field).toOption = some a →
      Accessor.resolve schema a.field = .ok a := by
    intro field a ha
    cases hresolve : Accessor.resolve schema field with
    | error err =>
        rw [hresolve] at ha
        cases ha
    | ok b =>
        rw [hresolve] at ha
        cases ha
        rw [(Accessor.resolve_eq_ok_iff.mp hresolve).2.2]
        exact hresolve
  cases c with
  | literal => cases h
  | valueTest => cases h
  | join field op name other =>
      obtain ⟨a, ha, h⟩ := Option.bind_eq_some_iff.mp h
      obtain ⟨d, hd, h⟩ := Option.bind_eq_some_iff.mp h
      cases h
      exact ⟨hown ha, name, other, hd⟩
  | relation field name other r =>
      obtain ⟨a, ha, h⟩ := Option.bind_eq_some_iff.mp h
      obtain ⟨d, hd, h⟩ := Option.bind_eq_some_iff.mp h
      cases h
      exact ⟨hown ha, name, other, hd⟩

/-- **A clause that fits has a test**, of its fact alone or against an earlier one. -/
theorem Clause.Fits.exists_test (hearlier : Introduced schemas earlier) {factType : String}
    {schema : Schema} (hschema : schemas.get? factType = some schema) {c : Clause}
    (h : c.Fits schemas earlier factType) :
    (∃ t, c.fieldTest? schema = some t) ∨ ∃ t, c.joinTest? schemas earlier schema = some t := by
  have hown : ∀ {field kind}, schemas.kind? factType field = some kind →
      Accessor.resolve schema field = .ok ⟨schema.name, field, kind⟩ :=
    (SchemaRegistry.kind?_eq_some_iff hschema).mp
  have hother : ∀ {q name field kind}, q ∈ earlier → q.binding = some name →
      schemas.kind? q.factType field = some kind →
      ∃ d, declaration? schemas earlier name field = some d := by
    intro q name field kind hq hname hkind
    obtain ⟨d, hd, -⟩ := (hearlier.exists_declaration?_iff (P := fun _ => True)).mpr
      ⟨q, hq, hname, kind, hkind, trivial⟩
    exact ⟨d, hd⟩
  cases h with
  | literal hkind _ hvalue =>
      exact Or.inl (by simp [Clause.fieldTest?, hown hkind, Except.toOption, hvalue])
  | valueTest hkind => exact Or.inl (by simp [Clause.fieldTest?, hown hkind, Except.toOption])
  | join hkind _ hq hname hkind' =>
      obtain ⟨d, hd⟩ := hother hq hname hkind'
      exact Or.inr (by simp [Clause.joinTest?, hown hkind, Except.toOption, hd])
  | relation hkind hq hname hkind' =>
      obtain ⟨d, hd⟩ := hother hq hname hkind'
      exact Or.inr (by simp [Clause.joinTest?, hown hkind, Except.toOption, hd])

namespace Compile

variable {rule : String} {bindings : List Binding} (h : Scope schemas earlier bindings)

include h

theorem resolveDeclaration_eq_ok_iff {d : Declaration} :
    resolveDeclaration rule earlier.length bindings name field = .ok d ↔
      declaration? schemas earlier name field = some d := by
  rw [resolveDeclaration, h.find?, declaration?]
  cases binding? schemas earlier name with
  | none => exact ⟨fun heq => (nomatch heq), fun heq => (nomatch heq)⟩
  | some b =>
      simp only [Option.bind_eq_bind, Option.bind_some]
      cases Accessor.resolve b.schema field with
      | error err => exact ⟨fun heq => (nomatch heq), fun heq => (nomatch heq)⟩
      | ok a => exact ⟨fun heq => by cases heq; rfl, fun heq => by cases heq; rfl⟩

omit h in
theorem checkOperator_eq_ok_iff {a : Accessor} {op : Operator} :
    checkOperator a op = .ok () ↔ (op.isOrdering = true → a.kind.isOrdered = true) := by
  unfold checkOperator
  cases op.isOrdering <;> cases a.kind.isOrdered <;> simp

omit h in
theorem checkOperands_eq_ok_iff {a b : Accessor} : checkOperands a b = .ok () ↔
    (a.kind = b.kind ∨ (a.kind.isNumeric = true ∧ b.kind.isNumeric = true)) := by
  unfold checkOperands Kind.isComparableWith
  rw [← Bool.and_eq_true, ← beq_iff_eq (a := a.kind), ← Bool.or_eq_true]
  cases (a.kind == b.kind || a.kind.isNumeric && b.kind.isNumeric) <;> simp

section AddClause

variable {factType : String} {schema : Schema} (hschema : schemas.get? factType = some schema)
  {p p' : CompiledPattern}

include hschema

omit h in
/-- A literal has a test if its value can be converted to the kind of the field. -/
theorem addLiteral_eq_ok_iff {op : Operator} {value : Value} :
    addClause rule earlier.length schema bindings p (.literal field op value) = .ok p' ↔
      (Clause.literal field op value).Fits schemas earlier factType ∧
        p' =
          ⟨p.factType, p.fieldTests ++ ((Clause.literal field op value).fieldTest? schema).toList,
          p.joinTests ++
          ((Clause.literal field op value).joinTest? schemas earlier schema).toList⟩ := by
  unfold addClause
  simp only [bind_eq_ok_iff, Clause.field]
  constructor
  · rintro ⟨a, ha, u, hop, hp⟩
    cases hv : value.coerce? a.kind with
    | none =>
        rw [hv] at hp
        cases hp
    | some v =>
        rw [hv] at hp
        cases hp
        refine ⟨.literal (SchemaRegistry.kind?_of_resolve hschema ha)
          (checkOperator_eq_ok_iff.mp hop) hv, ?_⟩
        simp [Clause.fieldTest?, Clause.joinTest?, ha, Except.toOption, hv]
  · rintro ⟨hfits, rfl⟩
    cases hfits with
    | literal hkind hop hvalue =>
        have ha := (SchemaRegistry.kind?_eq_some_iff hschema).mp hkind
        refine ⟨_, ha, (), checkOperator_eq_ok_iff.mpr hop, ?_⟩
        simp [Clause.fieldTest?, Clause.joinTest?, ha, Except.toOption, hvalue, pure_eq_ok_iff]

omit h in
theorem addValueTest_eq_ok_iff {test : ValueTest} :
    addClause rule earlier.length schema bindings p (.valueTest field test) = .ok p' ↔
      (Clause.valueTest field test).Fits schemas earlier factType ∧
        p' = ⟨p.factType, p.fieldTests ++ ((Clause.valueTest field test).fieldTest? schema).toList,
          p.joinTests ++
            ((Clause.valueTest field test).joinTest? schemas earlier schema).toList⟩ := by
  unfold addClause
  simp only [bind_eq_ok_iff, pure_eq_ok_iff, Clause.field]
  constructor
  · rintro ⟨a, ha, rfl⟩
    refine ⟨.valueTest (SchemaRegistry.kind?_of_resolve hschema ha), ?_⟩
    simp [Clause.fieldTest?, Clause.joinTest?, ha, Except.toOption]
  · rintro ⟨hfits, rfl⟩
    cases hfits with
    | valueTest hkind =>
        have ha := (SchemaRegistry.kind?_eq_some_iff hschema).mp hkind
        refine ⟨_, ha, ?_⟩
        simp [Clause.fieldTest?, Clause.joinTest?, ha, Except.toOption]

/-- A join has a test if the other field is declared, and of a kind that can be compared. -/
theorem addJoin_eq_ok_iff {op : Operator} {other : String} :
    addClause rule earlier.length schema bindings p (.join field op name other) = .ok p' ↔
      (Clause.join field op name other).Fits schemas earlier factType ∧
        p' =
          ⟨p.factType, p.fieldTests ++ ((Clause.join field op name other).fieldTest? schema).toList,
          p.joinTests ++
          ((Clause.join field op name other).joinTest? schemas earlier schema).toList⟩ := by
  unfold addClause
  simp only [bind_eq_ok_iff, pure_eq_ok_iff, Clause.field, resolveDeclaration_eq_ok_iff h]
  constructor
  · rintro ⟨a, ha, d, hd, u, hop, u', hkinds, rfl⟩
    obtain ⟨q, hq, hname, kind', hother, hkinds⟩ := (h.exists_declaration?_iff
      (P := fun k => a.kind = k ∨ (a.kind.isNumeric = true ∧ k.isNumeric = true))).mp
      ⟨d, hd, checkOperands_eq_ok_iff.mp hkinds⟩
    refine ⟨.join (SchemaRegistry.kind?_of_resolve hschema ha) (checkOperator_eq_ok_iff.mp hop) hq
      hname hother hkinds, ?_⟩
    simp [Clause.fieldTest?, Clause.joinTest?, ha, Except.toOption, hd]
  · rintro ⟨hfits, rfl⟩
    cases hfits with
    | @join _ _ _ _ kind _ q hkind hop hq hname hother hkinds =>
        have ha := (SchemaRegistry.kind?_eq_some_iff hschema).mp hkind
        obtain ⟨d, hd, hkinds⟩ := (h.exists_declaration?_iff
          (P := fun k => kind = k ∨ (kind.isNumeric = true ∧ k.isNumeric = true))).mpr
          ⟨q, hq, hname, _, hother, hkinds⟩
        refine ⟨_, ha, d, hd, (), checkOperator_eq_ok_iff.mpr hop, (),
          checkOperands_eq_ok_iff.mpr hkinds, ?_⟩
        simp [Clause.fieldTest?, Clause.joinTest?, ha, Except.toOption, hd]

/-- A relation has a test if the other field is declared. -/
theorem addRelation_eq_ok_iff {other : String} {r : ValueRelation} :
    addClause rule earlier.length schema bindings p (.relation field name other r) = .ok p' ↔
      (Clause.relation field name other r).Fits schemas earlier factType ∧
        p' =
          ⟨p.factType,
          p.fieldTests ++ ((Clause.relation field name other r).fieldTest? schema).toList,
          p.joinTests ++
          ((Clause.relation field name other r).joinTest? schemas earlier schema).toList⟩ := by
  unfold addClause
  simp only [bind_eq_ok_iff, pure_eq_ok_iff, Clause.field, resolveDeclaration_eq_ok_iff h]
  constructor
  · rintro ⟨a, ha, d, hd, rfl⟩
    obtain ⟨q, hq, hname, kind', hother, -⟩ := (h.exists_declaration?_iff (P := fun _ => True)).mp
      ⟨d, hd, trivial⟩
    refine ⟨.relation (SchemaRegistry.kind?_of_resolve hschema ha) hq hname hother, ?_⟩
    simp [Clause.fieldTest?, Clause.joinTest?, ha, Except.toOption, hd]
  · rintro ⟨hfits, rfl⟩
    cases hfits with
    | @relation _ _ _ _ _ _ q hkind hq hname hother =>
        have ha := (SchemaRegistry.kind?_eq_some_iff hschema).mp hkind
        obtain ⟨d, hd, -⟩ := (h.exists_declaration?_iff (P := fun _ => True)).mpr
          ⟨q, hq, hname, _, hother, trivial⟩
        refine ⟨_, ha, d, hd, ?_⟩
        simp [Clause.fieldTest?, Clause.joinTest?, ha, Except.toOption, hd]

/-- **A clause can be added iff it fits, and then the pattern has its test.** -/
theorem addClause_eq_ok_iff {c : Clause} :
    addClause rule earlier.length schema bindings p c = .ok p' ↔ c.Fits schemas earlier factType ∧
      p' = ⟨p.factType, p.fieldTests ++ (c.fieldTest? schema).toList,
        p.joinTests ++ (c.joinTest? schemas earlier schema).toList⟩ := by
  cases c with
  | literal field op value => exact addLiteral_eq_ok_iff hschema
  | valueTest field test => exact addValueTest_eq_ok_iff hschema
  | join field op name other => exact addJoin_eq_ok_iff h hschema
  | relation field name other r => exact addRelation_eq_ok_iff h hschema

end AddClause

theorem addClauses_eq_ok_iff {factType : String} {schema : Schema}
    (hschema : schemas.get? factType = some schema) {clauses : List Clause}
    {p p' : CompiledPattern} :
    clauses.foldlM (addClause rule earlier.length schema bindings) p = .ok p' ↔
      (∀ c ∈ clauses, c.Fits schemas earlier factType) ∧
        p' = ⟨p.factType, p.fieldTests ++ clauses.filterMap (Clause.fieldTest? schema),
          p.joinTests ++ clauses.filterMap (Clause.joinTest? schemas earlier schema)⟩ := by
  have hfilter : ∀ {α : Type} (f : Clause → Option α) (c : Clause) (rest : List Clause),
      (c :: rest).filterMap f = (f c).toList ++ rest.filterMap f := by
    intro α f c rest
    rw [List.filterMap_cons]
    cases f c <;> rfl
  induction clauses generalizing p with
  | nil =>
      rw [List.foldlM_nil, pure_eq_ok_iff]
      simp
  | cons c rest ih =>
      simp only [List.foldlM_cons, bind_eq_ok_iff, addClause_eq_ok_iff h hschema, ih,
        List.forall_mem_cons, hfilter, ← List.append_assoc]
      constructor
      · rintro ⟨q, ⟨hc, rfl⟩, hrest, rfl⟩
        exact ⟨⟨hc, hrest⟩, rfl⟩
      · rintro ⟨⟨hc, hrest⟩, rfl⟩
        exact ⟨_, ⟨hc, rfl⟩, hrest, rfl⟩

omit h in
/-- **Patterns can be compiled iff all clauses fit where they stand and no name is bound twice, and
then each pattern has the tests of its clauses.** -/
theorem compilePatterns_eq_ok_iff {bindings : List Binding} (h : Scope schemas earlier bindings)
    {patterns : List Pattern} {compiled : List CompiledPattern} :
    compilePatterns schemas rule earlier.length bindings patterns = .ok compiled ↔
      (∀ p ∈ patterns, ∃ schema, schemas.get? p.factType = some schema) ∧
        ((earlier ++ patterns).filterMap Pattern.binding).Nodup ∧
        ClausesFit schemas earlier patterns ∧
        compiled = resolvedAfter schemas earlier patterns := by
  -- The pattern that is compiled joins the earlier ones, so the scope grows along the induction:
  -- its names are what the later patterns may refer to.
  induction patterns generalizing earlier bindings compiled with
  | nil =>
      unfold compilePatterns
      rw [List.append_nil]
      constructor
      · intro heq
        cases heq
        exact ⟨List.forall_mem_nil _, h.names, clausesFit_nil schemas earlier, rfl⟩
      · rintro ⟨-, -, -, rfl⟩
        rfl
  | cons p rest ih =>
      rw [clausesFit_cons_iff, resolvedAfter_cons, List.forall_mem_cons]
      unfold compilePatterns
      cases hschema : schemas.get? p.factType with
      | none => exact iff_of_false (fun heq => nomatch heq) fun ⟨⟨⟨_, heq⟩, _⟩, _⟩ => nomatch heq
      | some schema =>
          have hresolved : ∀ q : CompiledPattern, q = ⟨p.factType, [] ++ p.clauses.filterMap
              (Clause.fieldTest? schema),
              [] ++ p.clauses.filterMap (Clause.joinTest? schemas earlier schema)⟩ ↔
              q = p.resolved schemas earlier := by
            intro q
            rw [Pattern.resolved, Pattern.fieldTests, Pattern.joinTests, hschema, List.nil_append,
              List.nil_append]
          have hsplit : earlier ++ p :: rest = earlier ++ [p] ++ rest := by simp
          have hlength : (earlier ++ [p]).length = earlier.length + 1 := by simp
          simp only [bind_eq_ok_iff, pure_eq_ok_iff, addClauses_eq_ok_iff h hschema,
            h.addBinding_eq_ok_iff, hresolved, hsplit, ← hlength]
          constructor
          · rintro ⟨_, ⟨hfits, rfl⟩, _, ⟨hnames, rfl⟩, others, hothers, rfl⟩
            obtain ⟨hregistered, hnames, hrest, rfl⟩ := (ih (h.concat hschema hnames)).mp hothers
            exact ⟨⟨⟨schema, rfl⟩, hregistered⟩, hnames, ⟨hfits, hrest⟩, rfl⟩
          · rintro ⟨⟨-, hregistered⟩, hnames, ⟨hfits, hrest⟩, rfl⟩
            have hfirst : ((earlier ++ [p]).filterMap Pattern.binding).Nodup := by
              rw [List.filterMap_append] at hnames
              exact (List.nodup_append.mp hnames).1
            exact ⟨_, ⟨hfits, rfl⟩, _, ⟨hfirst, rfl⟩, _,
              (ih (h.concat hschema hfirst)).mpr ⟨hregistered, hnames, hrest, rfl⟩, rfl⟩

omit h in
/-- The patterns of a rule can be compiled iff they are registered under different names and
their clauses fit. -/
theorem compilePatterns_start_iff {patterns : List Pattern} {compiled : List CompiledPattern} :
    compilePatterns schemas rule 0 [] patterns = .ok compiled ↔
      (∀ p ∈ patterns, ∃ schema, schemas.get? p.factType = some schema) ∧
        (patterns.filterMap Pattern.binding).Nodup ∧ ClausesFit schemas [] patterns ∧
        compiled = resolvedAfter schemas [] patterns :=
  compilePatterns_eq_ok_iff (scope_nil schemas)

omit h in
theorem eq_resolvedAfter {patterns : List Pattern} {compiled : List CompiledPattern}
    (hcompile : compilePatterns schemas rule 0 [] patterns = .ok compiled) :
    compiled = resolvedAfter schemas [] patterns :=
  (compilePatterns_start_iff.mp hcompile).2.2.2

end Compile

end RuleMatching
