import RuleMatching.Proofs.Fact
import RuleMatching.Proofs.Network.Build

set_option autoImplicit false

/-! # The reads of a rule

A clause that refers to an earlier pattern reads a field of each of the two facts (`Clause.reads`).
**The reads of an entry are those of its pattern's fact that the clauses of the rule make, each
once, in the order of the joins and their clauses** (`Builder.IsCompiled.readFields_eq`), and the
relevant fields are the fields that are read (`Entry.mem_relevantFields_iff`). -/

namespace RuleMatching

/-- The fields that are read of the pattern's fact, each with the node of the join. -/
def Entry.readFields (e : Entry) : List (NodeId × String) :=
  e.reads.map fun read => (read.node, read.accessor.field)

theorem Entry.exists_mem_readFields_iff {e : Entry} {field : String} :
    (∃ n, (n, field) ∈ e.readFields) ↔ ∃ read ∈ e.reads, read.accessor.field = field := by
  simp only [readFields, List.mem_map, Prod.mk.injEq]
  constructor
  · rintro ⟨_, read, hread, -, hfield⟩
    exact ⟨read, hread, hfield⟩
  · rintro ⟨read, hread, hfield⟩
    exact ⟨read.node, read, hread, rfl, hfield⟩

/-- The relevant fields of an entry are those that are read. -/
theorem Entry.mem_relevantFields_iff {e : Entry} {field : String} :
    field ∈ e.relevantFields ↔ ∃ n, (n, field) ∈ e.readFields := by
  rw [relevantFields, NameMap.mem_names_ofList, List.map_map, exists_mem_readFields_iff]
  exact List.mem_map

/-! ## What clauses read -/

/-- The fields that the clause, in the pattern at position `i`, reads when facts are joined, each
with the position of the pattern that the fact belongs to. -/
def Clause.reads (patterns : List Pattern) (i : Nat) : Clause → List (Nat × String)
  | .join field _ name other | .relation field name other _ =>
    (i, field) :: (((patterns.take i).findIdx? (·.binding == some name)).map (·, other)).toList
  | .literal .. | .valueTest .. => []

/-- All fields that the clauses read when facts are joined, in order: the position of the pattern
that the fact belongs to, that of the pattern with the clause, and the field. -/
def readsOfRule (patterns : List Pattern) : List (Nat × Nat × String) :=
  (patterns.mapIdx fun i p =>
    p.clauses.flatMap fun c => (c.reads patterns i).map fun x => (x.1, i, x.2)).flatten

/-- The fields of the fact of one pattern that are read, each with the position of the pattern
with the clause. -/
def readsOfPattern (patterns : List Pattern) (position : Nat) : List (Nat × String) :=
  ((readsOfRule patterns).filter (·.1 == position)).map Prod.snd

theorem mem_readsOfPattern_iff {patterns : List Pattern} {position i : Nat} {field : String} :
    (i, field) ∈ readsOfPattern patterns position ↔
      ∃ p, patterns[i]? = some p ∧ ∃ c ∈ p.clauses, (position, field) ∈ c.reads patterns i := by
  simp only [readsOfPattern, readsOfRule, List.mem_map, List.mem_filter, List.mem_flatten,
    List.mem_mapIdx, Prod.exists]
  constructor
  · rintro ⟨at', j, f, ⟨⟨l, ⟨j', hj', rfl⟩, hmem⟩, hat⟩, heq⟩
    obtain ⟨rfl, rfl⟩ := Prod.mk.inj heq
    rw [beq_iff_eq] at hat
    subst hat
    obtain ⟨c, hc, hmem⟩ := List.mem_flatMap.mp hmem
    obtain ⟨read, hread, heq⟩ := List.mem_map.mp hmem
    cases heq
    exact ⟨patterns[j], List.getElem?_eq_getElem hj', c, hc, hread⟩
  · rintro ⟨p, hp, c, hc, hread⟩
    obtain ⟨hlt, rfl⟩ := List.getElem?_eq_some_iff.mp hp
    exact ⟨position, i, field, ⟨⟨_, ⟨i, hlt, rfl⟩, List.mem_flatMap.mpr ⟨c, hc, List.mem_map.mpr
      ⟨(position, field), hread, rfl⟩⟩⟩, beq_self_eq_true _⟩, rfl⟩

variable {schemas : SchemaRegistry} {patterns : List Pattern}

/-- The name of a pattern finds the pattern. -/
theorem Introduced.findIdx?_eq {earlier : List Pattern} (h : Introduced schemas earlier) {i : Nat}
    {q : Pattern} {name : String} (hq : earlier[i]? = some q) (hname : q.binding = some name) :
    earlier.findIdx? (·.binding == some name) = some i := by
  obtain ⟨hlt, hget⟩ := List.getElem?_eq_some_iff.mp hq
  refine List.findIdx?_eq_some_iff_getElem.mpr
    ⟨hlt, by rw [hget, hname, beq_self_eq_true], fun j hj hbinding => ?_⟩
  rw [beq_iff_eq] at hbinding
  have hji :=
    eq_of_binding_eq h.names (List.getElem?_eq_getElem (Nat.lt_trans hj hlt)) hq hbinding hname
  exact absurd hji (Nat.ne_of_lt hj)

/-- **A clause reads what its test reads.** -/
theorem Clause.Fits.reads_eq {i : Nat} (hpatterns : Introduced schemas patterns) {factType : String}
    {schema : Schema} (hschema : schemas.get? factType = some schema) {c : Clause}
    (h : c.Fits schemas (patterns.take i) factType) :
    c.reads patterns i = (c.joinTest? schemas (patterns.take i) schema).toList.flatMap fun t =>
      [(i, t.accessor.field), (t.declaration.pattern, t.declaration.accessor.field)] := by
  have hearlier := hpatterns.take i
  have hown : ∀ {field kind}, schemas.kind? factType field = some kind →
      Accessor.resolve schema field = .ok ⟨schema.name, field, kind⟩ :=
    (SchemaRegistry.kind?_eq_some_iff hschema).mp
  have hother : ∀ {q name field kind}, q ∈ patterns.take i → q.binding = some name →
      schemas.kind? q.factType field = some kind →
        ∃ d, declaration? schemas (patterns.take i) name field = some d ∧
        (patterns.take i).findIdx? (·.binding == some name) = some d.pattern ∧
        d.accessor.field = field := by
    intro q name field kind hq hname hkind
    obtain ⟨d, hd, -⟩ := (hearlier.exists_declaration?_iff (P := fun _ => True)).mpr
      ⟨q, hq, hname, kind, hkind, trivial⟩
    obtain ⟨q', schema', hq', hname', -, -, ha⟩ := hearlier.declaration?_eq_some_iff.mp hd
    exact ⟨d, hd, hearlier.findIdx?_eq hq' hname', (Accessor.resolve_eq_ok_iff.mp ha).2.2⟩
  cases h with
  | literal => rfl
  | valueTest => rfl
  | join hkind _ hq hname hkind' =>
      obtain ⟨d, hd, hfind, hfield⟩ := hother hq hname hkind'
      simp [Clause.reads, Clause.joinTest?, hown hkind, hd, hfind, hfield, Except.toOption,
        JoinTest.accessor, JoinTest.declaration]
  | relation hkind hq hname hkind' =>
      obtain ⟨d, hd, hfind, hfield⟩ := hother hq hname hkind'
      simp [Clause.reads, Clause.joinTest?, hown hkind, hd, hfind, hfield, Except.toOption,
        JoinTest.accessor, JoinTest.declaration]

/-- Values that a function tells apart are dropped alike before and after it. -/
theorem map_eraseDups_of_inj {α β : Type} [BEq α] [LawfulBEq α] [BEq β] [LawfulBEq β] {f : α → β}
    (l : List α) (hf : ∀ a ∈ l, ∀ b ∈ l, f a = f b → a = b) :
    l.eraseDups.map f = (l.map f).eraseDups := by
  match l with
  | [] => rfl
  | a :: rest =>
      have hshorter := List.length_filter_le (fun b => !b == a) rest
      have hfilter : (rest.map f).filter (fun b => !b == f a) =
          (rest.filter fun b => !b == a).map f := by
        rw [List.filter_map]
        refine congrArg _ (List.filter_congr fun b hb => ?_)
        rw [Function.comp_apply, Bool.eq_iff_iff, Bool.not_eq_true', Bool.not_eq_true',
          beq_eq_false_iff_ne, beq_eq_false_iff_ne, not_iff_not]
        exact ⟨hf b (List.mem_cons_of_mem _ hb) a List.mem_cons_self, congrArg f⟩
      rw [List.eraseDups_cons, List.map_cons, List.map_cons, List.eraseDups_cons, hfilter,
        map_eraseDups_of_inj _ fun b hb c hc =>
          hf b (List.mem_cons_of_mem _ (List.mem_of_mem_filter hb)) c
            (List.mem_cons_of_mem _ (List.mem_of_mem_filter hc))]
termination_by l.length

theorem nodup_eraseDups {α : Type} [BEq α] [LawfulBEq α] (l : List α) : l.eraseDups.Nodup := by
  match l with
  | [] => exact List.nodup_nil
  | a :: rest =>
      have hshorter := List.length_filter_le (fun b => !b == a) rest
      rw [List.eraseDups_cons, List.nodup_cons, List.mem_eraseDups]
      exact ⟨by simp, nodup_eraseDups _⟩
termination_by l.length

namespace Builder

theorem readsFrom_eq_flatten (node position : Nat) (compiled : List CompiledPattern) :
    readsFrom node position compiled =
      (compiled.mapIdx fun i c => readsOf (node + i) (position + i) c.joinTests).flatten := by
  induction compiled generalizing node position with
  | nil => rfl
  | cons c rest ih =>
      rw [readsFrom, ih, List.mapIdx_cons, List.flatten_cons]
      refine congrArg₂ _ rfl (congrArg _ (List.mapIdx_eq_mapIdx_iff.mpr fun i _ => ?_))
      rw [show node + 1 + i = node + (i + 1) by omega,
        show position + 1 + i = position + (i + 1) by omega]

/-- The joins of a rule read what its clauses read. -/
theorem map_readsFrom_resolvedAfter (hpatterns : Introduced schemas patterns)
    (hfits : ClausesFit schemas [] patterns) (node : NodeId) :
    (readsFrom node 0 (resolvedAfter schemas [] patterns)).map
      (fun x => (x.1, x.2.node, x.2.accessor.field)) =
      (readsOfRule patterns).map fun x => (x.1, node + x.2.1, x.2.2) := by
  rw [readsFrom_eq_flatten, readsOfRule, List.map_flatten, List.map_flatten, resolvedAfter,
    List.mapIdx_mapIdx]
  refine congrArg _ (List.ext_getElem? fun i => ?_)
  rw [List.getElem?_map, List.getElem?_map, List.getElem?_mapIdx, List.getElem?_mapIdx]
  cases hp : patterns[i]? with
  | none => rfl
  | some p =>
      obtain ⟨schema, hschema⟩ := hpatterns.registered p (List.mem_of_getElem? hp)
      simp only [Option.map_some, Function.comp_apply, Option.some.injEq, Pattern.resolved,
        List.nil_append, Nat.zero_add, Pattern.joinTests, hschema, readsOf,
        List.filterMap_eq_flatMap_toList, List.flatMap_assoc, List.map_flatMap]
      refine List.flatMap_congr fun c hc => ?_
      rw [(hfits i p hp c hc).reads_eq hpatterns hschema]
      simp only [List.map_flatMap]
      rfl

/-- What the joins read of a pattern's fact are fields that the type of the fact declares. -/
theorem accessor_of_mem_readsFrom {node : NodeId} {i : Nat} {read : FieldRead}
    (h : (i, read) ∈ readsFrom node 0 (resolvedAfter schemas [] patterns)) :
      ∃ p schema, patterns[i]? = some p ∧
      schemas.get? p.factType = some schema ∧ Accessor.resolve schema read.accessor.field =
        .ok read.accessor := by
  rw [readsFrom_eq_flatten, resolvedAfter, List.mapIdx_mapIdx] at h
  obtain ⟨l, hl, hread⟩ := List.mem_flatten.mp h
  obtain ⟨j, hj, rfl⟩ := List.mem_mapIdx.mp hl
  obtain ⟨t, ht, hread⟩ := List.mem_flatMap.mp hread
  simp only [Pattern.resolved, List.nil_append, Nat.zero_add] at ht hread
  obtain ⟨schema, hschema, c, -, hc⟩ := exists_clause_of_mem_joinTests ht
  obtain ⟨ha, name, field, hd⟩ := Clause.of_joinTest?_eq_some hc
  rcases List.mem_cons.mp hread with heq | hread
  · cases heq
    exact ⟨patterns[i], schema, List.getElem?_eq_getElem hj, hschema, ha⟩
  · cases List.mem_singleton.mp hread
    obtain ⟨q, schema', hq, -, hschema', -, ha'⟩ := of_declaration?_eq_some hd
    rw [List.getElem?_take] at hq
    split at hq
    · rw [(Accessor.resolve_eq_ok_iff.mp ha').2.2]
      exact ⟨q, schema', hq, hschema', ha'⟩
    · cases hq

section IsCompiled

variable {depth : Nat} {id : RuleId} {rule : Rule} {r : CompiledRule}
    (h : IsCompiled schemas depth id rule r)
  {i : Nat} {e : Entry} (he : r.entries[i]? = some e)

include h he

theorem IsCompiled.accessor_of_mem_reads {read : FieldRead} (hread : read ∈ e.reads) :
    ∃ p schema, rule.patterns[i]? = some p ∧ schemas.get? p.factType = some schema ∧
      Accessor.resolve schema read.accessor.field = .ok read.accessor := by
  obtain ⟨node, first, rest, hcompile, rfl⟩ := h
  obtain ⟨-, -, -, -, -, -, hreads⟩ := getElem?_entries_ruleOf he
  rw [hreads, mem_readsAt, Compile.eq_resolvedAfter hcompile] at hread
  exact accessor_of_mem_readsFrom hread

/-- **The reads of an entry are those that the clauses of the rule make of its pattern's fact**,
each once and in order. -/
theorem IsCompiled.readFields_eq : e.readFields =
    (readsOfPattern rule.patterns i).eraseDups.map fun x => (r.first.node + x.1, x.2) := by
  have haccessor := fun read (hread : read ∈ e.reads) => h.accessor_of_mem_reads he hread
  obtain ⟨node, first, rest, hcompile, rfl⟩ := h
  obtain ⟨-, -, -, -, -, -, hreads⟩ := getElem?_entries_ruleOf he
  obtain ⟨hregistered, hnames, hfits, hresolved⟩ := Compile.compilePatterns_start_iff.mp hcompile
  have hmap := map_readsFrom_resolvedAfter ⟨hregistered, hnames⟩ hfits node
  rw [← hresolved] at hmap
  have hraw : (((readsFrom node 0 (first :: rest)).filter (·.1 == i)).map Prod.snd).map
      (fun read => (read.node, read.accessor.field)) =
      (readsOfPattern rule.patterns i).map fun x => (node + x.1, x.2) := by
    have hfilter := congrArg (fun l => (l.filter (·.1 == i)).map Prod.snd) hmap
    simp only [List.filter_map, List.map_map] at hfilter
    rw [readsOfPattern, List.map_map, List.map_map]
    exact hfilter
  rw [Entry.readFields, hreads, readsAt, map_eraseDups_of_inj, hraw, ← map_eraseDups_of_inj]
  · rfl
  · rintro ⟨j, field⟩ - ⟨j', field'⟩ - heq
    obtain ⟨hj, hfield⟩ := Prod.mk.inj heq
    exact Prod.ext (Nat.add_left_cancel hj) hfield
  -- One field of the fact is read through one accessor.
  · intro read hread read' hread' heq
    obtain ⟨hnode, hfield⟩ := Prod.mk.inj heq
    obtain ⟨p, schema, hp, hschema, ha⟩ :=
      haccessor read (hreads ▸ List.mem_eraseDups.mpr hread)
    obtain ⟨p', schema', hp', hschema', ha'⟩ :=
      haccessor read' (hreads ▸ List.mem_eraseDups.mpr hread')
    rw [hp, Option.some.injEq] at hp'
    subst hp'
    rw [hschema, Option.some.injEq] at hschema'
    subst hschema'
    rw [← hfield, ha, Except.ok.injEq] at ha'
    show FieldRead.mk read.node read.accessor = ⟨read'.node, read'.accessor⟩
    rw [hnode, ha']

end IsCompiled

end Builder

end RuleMatching
