import RuleMatching.Network.Summary
import RuleMatching.Proofs.Network.Layout
import RuleMatching.Proofs.Network.Reached

set_option autoImplicit false

/-! # How many tests are shared

A route to an entry uses the tests that the index knows and adds new ones for the rest
(`Builder.Lays`). So every test of a clause is a new node or a find that is counted, the index knows
every test with a signature that can be found below its parent, and a test without a signature is
never found. **The counts add up to the clauses, and no two tests below one node have one
signature** (`Network.sharing_build`). -/

namespace RuleMatching

open Outcome

namespace Routes

/-- All tests with their nodes and what is below them. -/
def branches : Routes → List (NodeId × FieldTest × Routes)
  | nil => []
  | entry _ rest => rest.branches
  | test n t below rest => (n, t, below) :: below.branches ++ rest.branches

theorem tests_append (s t : Routes) : (s.append t).tests = s.tests ++ t.tests := by
  induction s with
  | nil => rfl
  | entry n rest ih => exact ih
  | test n t below rest _ ih => rw [append, tests, tests, ih, List.append_assoc]

theorem entries_append (s t : Routes) : (s.append t).entries = s.entries ++ t.entries := by
  induction s with
  | nil => rfl
  | entry n rest ih => exact congrArg (n :: ·) ih
  | test n t below rest _ ih => rw [append, entries, entries, ih, List.append_assoc]

theorem branches_append (s t : Routes) : (s.append t).branches = s.branches ++ t.branches := by
  induction s with
  | nil => rfl
  | entry n rest ih => exact ih
  | test n t below rest _ ih => rw [append, branches, branches, ih, List.append_assoc]

/-- The tests are those of the edges. -/
theorem map_snd_edges (parent : NodeId) (level : Routes) :
    (level.edges parent).map Prod.snd = level.tests := by
  induction level generalizing parent with
  | nil => rfl
  | entry n rest ih => exact ih parent
  | test n t below rest ihb ihr =>
      rw [edges, tests, List.cons_append, List.map_cons, List.map_append, ihb, ihr]
      rfl

end Routes

/-! ## Routes and the index -/

/-- The test has no signature, so that nothing can be said of what it has in common
with another one. -/
def FieldTest.isUnsigned (t : FieldTest) : Bool := t.signature?.isNone

theorem FieldTest.isUnsigned_of_signature? {t : FieldTest} {s : TestSignature}
    (h : t.signature? = some s) : t.isUnsigned = false := by
  rw [isUnsigned, h]
  rfl

namespace Builder

/-- A find in the index is counted. -/
def countShared (b : Builder) : Builder :=
  { b with
    sharing :=
      { b.sharing with counts := { b.sharing.counts with shared := b.sharing.counts.shared + 1 } } }

/-- The index knows the test, if it has a signature. -/
def Registers (b : Builder) (e : NodeId × NodeId × FieldTest) : Prop :=
  ∀ s, e.2.2.signature? = some s → b.sharing.nodes.get? (e.1, s) = some e.2.1

/-- One entry alone is reached through the test, unless tests are shared and it has a signature. -/
def IsOwn (share : Bool) (branch : NodeId × FieldTest × Routes) : Prop :=
  share = false ∨ branch.2.1.isUnsigned = true → branch.2.2.entries.length = 1

/-- The test is looked for only if tests are shared and it has a signature. -/
theorem findShared_cases (share : Bool) (b : Builder) (parent : NodeId) (t : FieldTest) :
    (∃ s n, share = true ∧ t.signature? = some s ∧ b.sharing.nodes.get? (parent, s) = some n ∧
      findShared share b parent t = (some n, b.countShared)) ∨
    ((∀ s, share = true → t.signature? = some s → b.sharing.nodes.get? (parent, s) = none) ∧
      findShared share b parent t = (none, b)) := by
  unfold findShared
  split
  · next s hs =>
    cases hget : b.sharing.nodes.get? (parent, s) with
    | some n =>
        refine Or.inl ⟨s, n, rfl, hs, hget, ?_⟩
        simp only [SharingIndex.find, hget]
        rfl
    | none =>
        refine Or.inr ⟨fun s' _ hs' => ?_, ?_⟩
        · rw [hs, Option.some.injEq] at hs'
          rw [← hs', hget]
        · simp only [SharingIndex.find, hget]
  · next hno => exact Or.inr ⟨fun s hshare hs => absurd hs (hno s hshare), rfl⟩

/-- The level below `parent` gets one more route to the entry, by way of these tests, of which the
index knows some and the others are new. -/
inductive Lays (share : Bool) (entry : NodeId) : NodeId → Builder → Routes → List FieldTest →
    List (NodeId × FieldTest) → Builder → Routes → Prop
  | entry (parent : NodeId) (b : Builder) (level : Routes) :
      Lays share entry parent b level [] [] b (level.append (.entry entry .nil))
  | shared {parent n : NodeId} {b b' : Builder} {t t' : FieldTest} {s : TestSignature}
      {rest : List FieldTest} {fresh : List (NodeId × FieldTest)} {pre below below' post : Routes}
      (hshare : share = true) (ht : t.signature? = some s) (ht' : t'.signature? = some s)
      (h : Lays share entry n b.countShared below rest fresh b' below') :
      Lays share entry parent b (pre.append (.test n t' below post)) (t :: rest) fresh b'
        (pre.append (.test n t' below' post))
  | new {parent : NodeId} {b b' : Builder} {t : FieldTest} {rest : List FieldTest}
      {fresh : List (NodeId × FieldTest)} {level below : Routes}
      (hnew : ∀ s, share = true → t.signature? = some s → b.sharing.nodes.get? (parent, s) = none)
      (h : Lays share entry b.nextNode (newTest share b parent t).2 .nil rest fresh b' below) :
      Lays share entry parent b level (t :: rest) ((b.nextNode, t) :: fresh) b'
        (level.append (.test b.nextNode t below .nil))

/-- **A route is added in this way.** -/
theorem addRoute_lays (share : Bool) (entry : NodeId) (tests : List FieldTest) {b : Builder}
    {parent : NodeId} {level : Routes} (hb : b.Bounded) (h : b.Rooted parent level) :
    ∃ fresh,
      Lays share entry parent b level tests fresh (addRoute share entry parent b level tests).1
      (addRoute share entry parent b level tests).2 := by
  induction tests generalizing b parent level with
  | nil => exact ⟨[], .entry parent b level⟩
  | cons t rest ih =>
      rcases findShared_cases share b parent t with ⟨s, n, hshare, ht, hget, hfind⟩ | ⟨hnew, hfind⟩
      · obtain ⟨t', hedge, ht'⟩ := h.indexed parent s n List.mem_cons_self hget
        obtain ⟨pre, below, post, rfl⟩ := Routes.exists_split (List.nodup_cons.mp h.nodup).1 hedge
        have hn : n ∉ pre.testNodes := fun hmem =>
          h.apart (Or.inl (List.mem_cons_of_mem _ hmem)) List.mem_cons_self
        have hcounted : b.countShared.Bounded := hb.mono rfl (Nat.le_refl _)
        have hrooted : b.countShared.Rooted parent (pre.append (.test n t' below post)) :=
          Rooted.mono (b := b) rfl (Nat.le_refl _) h
        obtain ⟨fresh, hlays⟩ := ih hcounted hrooted.subtree
        refine ⟨fresh, ?_⟩
        simp only [addRoute, hfind, Routes.under_append hn, Routes.setUnder_append hn]
        exact .shared hshare ht ht' hlays
      · have hgrown := grown_newTest share t hb h
        obtain ⟨fresh, hlays⟩ := ih hgrown.bounded hgrown.rooted.subtree
        refine ⟨(b.nextNode, t) :: fresh, ?_⟩
        simp only [addRoute, hfind]
        exact .new hnew hlays

namespace Lays

variable {share : Bool} {entry parent : NodeId} {b b' : Builder} {level level' : Routes}
    {tests : List FieldTest}
  {fresh : List (NodeId × FieldTest)}

theorem tests_perm (h : Lays share entry parent b level tests fresh b' level') :
    level'.tests.Perm (level.tests ++ fresh) := by
  induction h with
  | entry parent b level =>
      rw [Routes.tests_append]
      exact List.Perm.refl _
  | @shared _ _ _ _ _ _ _ _ fresh pre below below' post _ _ _ _ ih =>
      have hbelow : (below'.tests ++ post.tests).Perm (below.tests ++ post.tests ++ fresh) :=
        calc (below'.tests ++ post.tests).Perm ((below.tests ++ fresh) ++ post.tests) :=
                ih.append_right _
          _ = below.tests ++ (fresh ++ post.tests) := List.append_assoc _ _ _
          List.Perm _ (below.tests ++ (post.tests ++ fresh)) := List.perm_append_comm.append_left _
          _ = below.tests ++ post.tests ++ fresh := (List.append_assoc _ _ _).symm
      simp only [Routes.tests_append, Routes.tests, List.append_assoc, List.cons_append] at hbelow ⊢
      exact (hbelow.cons _).append_left _
  | new _ _ ih =>
      simp only [Routes.tests_append, Routes.tests, List.append_nil]
      exact (ih.cons _).append_left _

/-- **Every test of the route is a new node or a find.** -/
theorem counts (h : Lays share entry parent b level tests fresh b' level') :
    b'.sharing.counts.created = b.sharing.counts.created + fresh.length ∧
      b'.sharing.counts.created + b'.sharing.counts.shared =
        b.sharing.counts.created + b.sharing.counts.shared + tests.length ∧
      (share = false → b'.sharing.counts.shared = b.sharing.counts.shared) := by
  have hnewTest : ∀ (b : Builder) (parent : NodeId) (t : FieldTest),
      (newTest share b parent t).2.sharing.counts.created = b.sharing.counts.created + 1 ∧
        (newTest share b parent t).2.sharing.counts.shared = b.sharing.counts.shared := by
    intro b parent t
    unfold newTest
    dsimp only
    split <;> exact ⟨rfl, rfl⟩
  induction h with
  | entry parent b level => exact ⟨rfl, rfl, fun _ => rfl⟩
  | @shared _ _ b _ _ _ _ _ _ _ _ _ _ hshare _ _ _ ih =>
      obtain ⟨hcreated, htotal, -⟩ := ih
      have hmade : b.countShared.sharing.counts.created = b.sharing.counts.created := rfl
      have hfound : b.countShared.sharing.counts.shared = b.sharing.counts.shared + 1 := rfl
      rw [List.length_cons]
      exact ⟨by omega, by omega, fun hunshared => absurd (hshare.symm.trans hunshared) (by decide)⟩
  | @new parent b _ t _ _ _ _ _ _ ih =>
      obtain ⟨hcreated, htotal, hunshared⟩ := ih
      obtain ⟨hmade, hfound⟩ := hnewTest b parent t
      rw [List.length_cons, List.length_cons]
      exact ⟨by omega, by omega, fun hshare => (hunshared hshare).trans hfound⟩

/-- Every test without a signature is a new node. -/
theorem countP_fresh (h : Lays share entry parent b level tests fresh b' level') :
    (fresh.countP fun x => x.2.isUnsigned) = tests.countP FieldTest.isUnsigned := by
  induction h with
  | entry parent b level => rfl
  | shared _ ht _ _ ih => rw [ih, List.countP_cons, FieldTest.isUnsigned_of_signature? ht]; rfl
  | new _ _ ih => rw [List.countP_cons, List.countP_cons, ih]

theorem length_entries (h : Lays share entry parent b level tests fresh b' level') :
    level'.entries.length = level.entries.length + 1 := by
  induction h with
  | entry parent b level =>
      rw [Routes.entries_append, List.length_append]
      rfl
  | shared _ _ _ _ ih =>
      simp only [Routes.entries_append, Routes.entries, List.length_append, ih]
      omega
  | new _ _ ih =>
      simp only [Routes.entries_append, Routes.entries, List.length_append, ih]
      rfl

/-- No route but its own leads through a test that is not shared. -/
theorem isOwn (h : Lays share entry parent b level tests fresh b' level')
    (hlevel : ∀ x ∈ level.branches, IsOwn share x) : ∀ x ∈ level'.branches, IsOwn share x := by
  induction h with
  | entry parent b level =>
      rw [Routes.branches_append, show (Routes.entry _ Routes.nil).branches = [] from rfl,
        List.append_nil]
      exact hlevel
  | shared hshare _ ht' _ ih =>
      simp only [Routes.branches_append, Routes.branches, List.cons_append, List.forall_mem_append,
        List.forall_mem_cons] at hlevel ⊢
      obtain ⟨hpre, -, hbelow, hpost⟩ := hlevel
      refine ⟨hpre, fun hown => ?_, ih hbelow, hpost⟩
      -- A test that was found is shared and has a signature.
      rcases hown with hunshared | hunsigned
      · rw [hshare] at hunshared
        cases hunshared
      · rw [FieldTest.isUnsigned_of_signature? ht'] at hunsigned
        cases hunsigned
  | new _ hbelow ih =>
      simp only [Routes.branches_append, Routes.branches, List.append_nil, List.forall_mem_append,
        List.forall_mem_cons]
      exact ⟨hlevel, fun _ => hbelow.length_entries, ih (List.forall_mem_nil _)⟩

/-- The index forgets nothing. -/
theorem get?_mono (h : Lays share entry parent b level tests fresh b' level') {p n : NodeId}
    {s : TestSignature} (hget : b.sharing.nodes.get? (p, s) = some n) :
    b'.sharing.nodes.get? (p, s) = some n := by
  induction h with
  | entry parent b level => exact hget
  | shared _ _ _ _ ih => exact ih hget
  | new hnew _ ih =>
      apply ih
      rw [get?_newTest, if_neg]
      · exact hget
      · rintro ⟨rfl, hshare, hs⟩
        rw [hnew s hshare hs] at hget
        cases hget

/-- **The index knows every test that can be found.** -/
theorem registers (h : Lays share entry parent b level tests fresh b' level')
    (hshare : share = true) (hlevel : ∀ e ∈ level.edges parent, b.Registers e) :
    ∀ e ∈ level'.edges parent, b'.Registers e := by
  have hkeep : ∀ {parent b level tests fresh b' level'},
      Lays share entry parent b level tests fresh b' level' →
      ∀ {e}, b.Registers e → b'.Registers e := fun h _ he s hs => h.get?_mono (he s hs)
  induction h with
  | entry parent b level =>
      rw [Routes.edges_append, show (Routes.entry _ Routes.nil).edges _ = [] from rfl,
        List.append_nil]
      exact hlevel
  | shared _ _ _ hlays ih =>
      simp only [Routes.edges_append, Routes.edges, List.cons_append, List.forall_mem_append,
        List.forall_mem_cons] at hlevel ⊢
      obtain ⟨hpre, htest, hbelow, hpost⟩ := hlevel
      exact ⟨fun e he => hkeep hlays (hpre e he), hkeep hlays htest, ih hbelow,
        fun e he => hkeep hlays (hpost e he)⟩
  -- A new test is noted under a signature that was not known at its parent, so nothing is
  -- forgotten for it.
  | @new parent b _ t _ _ _ _ hnew hlays ih =>
      have hold : ∀ {e}, b.Registers e → (newTest share b parent t).2.Registers e := by
        intro e he s hs
        rw [get?_newTest, if_neg]
        · exact he s hs
        · rintro ⟨hparent, -, hs'⟩
          have hfound := he s hs
          rw [hparent, hnew s hshare hs'] at hfound
          cases hfound
      have hthis : (newTest share b parent t).2.Registers (parent, b.nextNode, t) := by
        intro s hs
        rw [get?_newTest, if_pos ⟨rfl, hshare, hs⟩]
      simp only [Routes.edges_append, Routes.edges, List.append_nil, List.forall_mem_append,
        List.forall_mem_cons]
      exact ⟨fun e he => hkeep hlays (hold (hlevel e he)), hkeep hlays hthis,
        ih (List.forall_mem_nil _)⟩

end Lays

/-! ## The counts of a construction -/

/-- All tests with their nodes. -/
def tests (b : Builder) : List (NodeId × FieldTest) :=
  b.objectTypes.values.flatMap fun o => o.routes.tests

/-- The construction has laid routes by way of `total` tests in all, `unsigned` of them
without a signature. -/
structure Counted (share : Bool) (total unsigned : Nat) (b : Builder) : Prop where
  created : b.sharing.counts.created = b.tests.length
  total : b.sharing.counts.created + b.sharing.counts.shared = total
  unshared : share = false → b.sharing.counts.shared = 0
  unsigned : (b.tests.countP fun x => x.2.isUnsigned) = unsigned
  registers : share = true → ∀ T o, b.objectTypes.get? T = some o → ∀ e ∈ o.routes.edges o.node,
    b.Registers e
  isOwn : ∀ T o, b.objectTypes.get? T = some o → ∀ x ∈ o.routes.branches, IsOwn share x

theorem counted_empty (share : Bool) : Counted share 0 0 empty := by
  have hnone : ∀ T o, ¬ empty.objectTypes.get? T = some o := by
    intro T o ho
    cases ho
  exact ⟨rfl, rfl, fun _ => rfl, rfl, fun _ T o ho => absurd ho (hnone T o),
    fun T o ho => absurd ho (hnone T o)⟩

/-- The routes of a type of which there are none yet have no tests. -/
theorem objectType_cases (b : Builder) (T : String) :
    (∃ o, b.objectTypes.get? T = some o ∧ b.objectType T = (o, b)) ∨
      (b.objectTypes.get? T = none ∧
        b.objectType T = (⟨b.nextNode, .nil⟩, { b with nextNode := b.nextNode + 1 })) := by
  unfold objectType
  cases b.objectTypes.get? T with
  | some o => exact Or.inl ⟨o, rfl, rfl⟩
  | none => exact Or.inr ⟨rfl, rfl⟩

namespace Counted

variable {share : Bool} {total unsigned : Nat} {b : Builder}

/-- Nodes of other sorts do not count. -/
theorem congr {b' : Builder} (h : Counted share total unsigned b)
    (hsharing : b'.sharing = b.sharing) (htypes : b'.objectTypes = b.objectTypes) :
    Counted share total unsigned b' := by
  obtain ⟨next, types, rules, sharing⟩ := b
  obtain ⟨next', types', rules', sharing'⟩ := b'
  dsimp only at hsharing htypes
  subst hsharing htypes
  exact ⟨h.created, h.total, h.unshared, h.unsigned, h.registers, h.isOwn⟩

/-- The tree of a type that gets one more route: it is there already, or it has no tests. -/
theorem objectType (h : Counted share total unsigned b) (T : String) :
    Counted share total unsigned (b.objectType T).2 ∧
      (b.objectType T).2.objectTypes = b.objectTypes ∧
      (b.objectType T).1.routes.tests =
        ((b.objectTypes.get? T).map fun o => o.routes.tests).getD [] ∧
      (share = true → ∀ e ∈ (b.objectType T).1.routes.edges (b.objectType T).1.node,
        (b.objectType T).2.Registers e) ∧
      ∀ x ∈ (b.objectType T).1.routes.branches, IsOwn share x := by
  rcases b.objectType_cases T with ⟨o, ho, hmade⟩ | ⟨hnone, hmade⟩
  · rw [hmade, ho]
    exact ⟨h, rfl, rfl, fun hshare => h.registers hshare T o ho, h.isOwn T o ho⟩
  · rw [hmade, hnone]
    exact ⟨h.congr rfl rfl, rfl, rfl, fun _ => List.forall_mem_nil _, List.forall_mem_nil _⟩

/-- **A pattern is counted with its tests.** -/
theorem addPattern (h : Counted share total unsigned b) (hforest : b.Forest) (entry : NodeId)
    (p : CompiledPattern) : Counted share (total + p.fieldTests.length)
      (unsigned + p.fieldTests.countP FieldTest.isUnsigned) (addPattern share b entry p) := by
  have hstarted := hforest.started p.factType
  have hmade := h.objectType p.factType
  unfold Builder.addPattern
  generalize b.objectType p.factType = made at hstarted hmade ⊢
  obtain ⟨o, b₁⟩ := made
  dsimp only at hmade ⊢
  obtain ⟨hcounted, htypes, htests, hregisters, hown⟩ := hmade
  have hkeeps := keeps_addRoute share entry o.node b₁ o.routes p.fieldTests
  obtain ⟨fresh, hlays⟩ :=
    addRoute_lays share entry p.fieldTests hstarted.forest.bounded hstarted.tree.rooted
  generalize addRoute share entry o.node b₁ o.routes p.fieldTests = laid at hkeeps hlays ⊢
  obtain ⟨b₂, routes⟩ := laid
  dsimp only at hkeeps hlays ⊢
  have htypes' : b₂.objectTypes = b.objectTypes := hkeeps.objectTypes.trans htypes
  obtain ⟨hcreated, htotal, hunshared⟩ := hlays.counts
  have hperm : (Builder.tests
      { b₂ with objectTypes := b₂.objectTypes.insert p.factType { o with routes } }).Perm
        (b.tests ++ fresh) := by
    unfold Builder.tests
    dsimp only
    rw [htypes']
    refine FiniteMap.flatMap_values_insert _ _ ?_
    rw [← htests]
    exact hlays.tests_perm
  have hsame : b₁.tests = b.tests := by rw [Builder.tests, Builder.tests, htypes]
  exact {
    created := by
      rw [hperm.length_eq, List.length_append, ← hsame, ← hcounted.created]
      exact hcreated
    total := by
      rw [← hcounted.total]
      exact htotal
    unshared := fun hshare => by
      rw [← hcounted.unshared hshare]
      exact hunshared hshare
    unsigned := by rw [hperm.countP_eq, List.countP_append, hlays.countP_fresh, h.unsigned]
    registers := fun hshare T o' ho' => by
      rw [FiniteMap.get?_insert, htypes'] at ho'
      split at ho'
      · cases ho'
        exact hlays.registers hshare (hregisters hshare)
      -- The trees of the other types stay, and the index forgets nothing.
      · intro e he s hs
        exact hlays.get?_mono (hcounted.registers hshare T o' (htypes ▸ ho') e he s hs)
    isOwn := fun T o' ho' => by
      rw [FiniteMap.get?_insert, htypes'] at ho'
      split at ho'
      · cases ho'
        exact hlays.isOwn hown
      · exact h.isOwn T o' ho' }

theorem addPatterns (h : Counted share total unsigned b) (hforest : b.Forest) (node : NodeId)
    (patterns : List CompiledPattern) :
    Counted share (total + (patterns.flatMap CompiledPattern.fieldTests).length)
      (unsigned + (patterns.flatMap CompiledPattern.fieldTests).countP FieldTest.isUnsigned)
      (addPatterns share b node patterns) := by
  induction patterns generalizing b node total unsigned with
  | nil => exact h
  | cons p rest ih =>
      have hrest :=
        ih (h.addPattern hforest node p) (hforest.addPattern share node p).forest (node + 1)
      rw [List.flatMap_cons, List.length_append, List.countP_append, ← Nat.add_assoc,
        ← Nat.add_assoc]
      exact hrest

end Counted

end Builder

/-! ## Clauses -/

/-- The clause is about the fact of its pattern alone. -/
def Clause.isFieldClause : Clause → Bool
  | .literal .. | .valueTest .. => true
  | _ => false

/-- The clause is a named test of the fact of its pattern alone. -/
def Clause.isValueTest : Clause → Bool
  | .valueTest .. => true
  | _ => false

def Rule.clauses (r : Rule) : List Clause := r.patterns.flatMap Pattern.clauses

section Clauses

variable {schemas : SchemaRegistry}

/-- A clause that fits becomes a test of one fact iff it is about one fact, without a signature iff
it is a named test. -/
theorem Clause.Fits.fieldTest?_cases {earlier : List Pattern} {factType : String} {schema : Schema}
    {c : Clause} (hschema : schemas.get? factType = some schema)
    (h : c.Fits schemas earlier factType) :
    (c.fieldTest? schema = none ∧ c.isFieldClause = false ∧ c.isValueTest = false) ∨
      ∃ t, c.fieldTest? schema = some t ∧ c.isFieldClause = true ∧
      t.isUnsigned = c.isValueTest := by
  cases h with
  | @literal field op value v kind hown hop hvalue =>
      rw [SchemaRegistry.kind?_eq_some_iff hschema] at hown
      refine Or.inr ⟨.literal ⟨schema.name, field, kind⟩ op v, ?_, rfl, rfl⟩
      simp [Clause.fieldTest?, hown, hvalue, Except.toOption]
  | @valueTest field test kind hown =>
      rw [SchemaRegistry.kind?_eq_some_iff hschema] at hown
      refine Or.inr ⟨.named ⟨schema.name, field, kind⟩ test, ?_, rfl, rfl⟩
      simp [Clause.fieldTest?, hown, Except.toOption]
  | join | relation => exact Or.inl ⟨rfl, rfl, rfl⟩

/-- Every clause of a pattern on its fact alone becomes a test. -/
theorem Pattern.counts_fieldTests {p : Pattern} {earlier : List Pattern}
    (hregistered : ∃ schema, schemas.get? p.factType = some schema)
    (hfits : ∀ c ∈ p.clauses, c.Fits schemas earlier p.factType) :
    (p.fieldTests schemas).length = p.clauses.countP Clause.isFieldClause ∧
      (p.fieldTests schemas).countP FieldTest.isUnsigned = p.clauses.countP Clause.isValueTest := by
  obtain ⟨schema, hschema⟩ := hregistered
  rw [Pattern.fieldTests, hschema]
  dsimp only
  generalize p.clauses = clauses at hfits ⊢
  induction clauses with
  | nil => exact ⟨rfl, rfl⟩
  | cons c rest ih =>
      obtain ⟨hlength, hcount⟩ := ih fun c' hc' => hfits c' (List.mem_cons_of_mem c hc')
      rw [List.filterMap_cons, List.countP_cons, List.countP_cons, ← hlength, ← hcount]
      rcases (hfits c List.mem_cons_self).fieldTest?_cases hschema with
        ⟨hnone, hfield, htest⟩ | ⟨t, ht, hfield, htest⟩
      · rw [hnone, hfield, htest]
        exact ⟨rfl, rfl⟩
      · rw [ht, hfield, ← htest]
        exact ⟨rfl, List.countP_cons⟩

/-- The tests of a rule that can be compiled. -/
theorem Rule.counts_fieldTests {rule : Rule} {compiled : List CompiledPattern}
    (hcompile : Compile.compilePatterns schemas rule.name 0 [] rule.patterns = .ok compiled) :
    (compiled.flatMap CompiledPattern.fieldTests).length =
      rule.clauses.countP Clause.isFieldClause ∧
      (compiled.flatMap CompiledPattern.fieldTests).countP FieldTest.isUnsigned =
        rule.clauses.countP Clause.isValueTest := by
  obtain ⟨hregistered, -, hfits, hresolved⟩ := Compile.compilePatterns_start_iff.mp hcompile
  have htests : compiled.map CompiledPattern.fieldTests =
      rule.patterns.map (Pattern.fieldTests schemas) := by
    refine List.ext_getElem? fun i => ?_
    rw [List.getElem?_map, List.getElem?_map, hresolved, getElem?_resolvedAfter, Option.map_map]
    rfl
  have hall : ∀ p ∈ rule.patterns, ∃ earlier, ∀ c ∈ p.clauses,
      c.Fits schemas earlier p.factType := by
    intro p hp
    obtain ⟨i, hi⟩ := List.mem_iff_getElem?.mp hp
    exact ⟨_, hfits i p hi⟩
  rw [List.flatMap_def, htests, Rule.clauses, List.flatMap_def]
  generalize rule.patterns = patterns at hregistered hall
  induction patterns with
  | nil => exact ⟨rfl, rfl⟩
  | cons p rest ih =>
      obtain ⟨earlier, hp⟩ := hall p List.mem_cons_self
      obtain ⟨hlength, hcount⟩ := Pattern.counts_fieldTests (hregistered p List.mem_cons_self) hp
      obtain ⟨hlength', hcount'⟩ := ih (fun q hq => hregistered q (List.mem_cons_of_mem p hq))
        fun q hq => hall q (List.mem_cons_of_mem p hq)
      simp only [List.map_cons, List.flatten_cons, List.length_append, List.countP_append, hlength,
        hcount, hlength', hcount', and_self]

end Clauses

/-! ## The counts of a network -/

/-- The nodes of a rule are no tests. -/
theorem CompiledRule.kind_ne_alpha (r : CompiledRule) {s : NodeSummary} (h : s ∈ r.summaries) :
    s.kind ≠ .alpha := by
  have hlater : ∀ later : List Entry, ∀ s ∈ r.summariesFrom later, s.kind ≠ .alpha := by
    intro later
    induction later with
    | nil => simp [summariesFrom]
    | cons e later ih => simpa [summariesFrom] using ih
  rcases List.mem_cons.mp h with rfl | h
  · exact nofun
  · exact hlater r.joins s h

theorem ObjectType.countP_summaries (o : ObjectType) (T : String) :
    ((o.summaries T).countP fun s => s.kind = .alpha) = o.routes.tests.length := by
  rw [summaries, List.countP_cons_of_neg (by simp), List.countP_map]
  exact List.countP_eq_length.mpr fun x _ => rfl

namespace Builder

variable {schemas : SchemaRegistry} {config : Config} {b b' : Builder}

/-- A rule is counted with its clauses. -/
theorem Counted.addRule {total unsigned : Nat} (h : Counted config.shareTests total unsigned b)
    (hforest : b.Forest) {rule : Rule} (hadd : addRule schemas config b rule = .ok b') :
    Counted config.shareTests (total + rule.clauses.countP Clause.isFieldClause)
      (unsigned + rule.clauses.countP Clause.isValueTest) b' := by
  obtain ⟨-, first, rest, hcompile, rfl⟩ := addRule_eq_ok_iff.mp hadd
  obtain ⟨hlength, hcount⟩ := Rule.counts_fieldTests hcompile
  have hforest' : (withRule config b rule.name first rest).Forest :=
    hforest.mono rfl rfl (Nat.le_add_right _ _)
  have hcounted :
      Counted config.shareTests total unsigned (withRule config b rule.name first rest) :=
    h.congr rfl rfl
  rw [← hlength, ← hcount]
  exact hcounted.addPatterns hforest' b.nextNode (first :: rest)

end Builder

namespace Network

/-- The tests with their nodes and the nodes that they are just below of. -/
def edges (net : Network) : List (NodeId × NodeId × FieldTest) :=
  net.objectTypes.values.flatMap fun o => o.routes.edges o.node

/-- The tests with their nodes and what is below them. -/
def branches (net : Network) : List (NodeId × FieldTest × Routes) :=
  net.objectTypes.values.flatMap fun o => o.routes.branches

variable {rules : List Rule} {schemas : SchemaRegistry} {config : Config} {net : Network}

theorem counted_build (h : build rules schemas config = .ok net) :
    ∃ b,
      Builder.Counted config.shareTests ((rules.flatMap Rule.clauses).countP Clause.isFieldClause)
      ((rules.flatMap Rule.clauses).countP Clause.isValueTest) b ∧
      net = ⟨b.objectTypes, b.rules, config, schemas, b.sharing.counts, b.nextNode⟩ := by
  obtain ⟨-, b, hfold, h⟩ := build_eq_ok_iff.mp h
  have hstep : ∀ (done : List Rule) (b : Builder) (rule : Rule) (b' : Builder),
      (Builder.Routed schemas config.keyDepth done b ∧
        Builder.Counted config.shareTests ((done.flatMap Rule.clauses).countP Clause.isFieldClause)
          ((done.flatMap Rule.clauses).countP Clause.isValueTest) b) →
      Builder.addRule schemas config b rule = .ok b' →
      Builder.Routed schemas config.keyDepth (done ++ [rule]) b' ∧
        Builder.Counted config.shareTests
          (((done ++ [rule]).flatMap Rule.clauses).countP Clause.isFieldClause)
          (((done ++ [rule]).flatMap Rule.clauses).countP Clause.isValueTest) b' := by
    intro done b rule b' hb hadd
    refine ⟨Builder.routed_addRule hb.1 hadd, ?_⟩
    rw [List.flatMap_append, List.flatMap_singleton, List.countP_append, List.countP_append]
    exact hb.2.addRule hb.1.forest hadd
  exact ⟨b, (foldlM_induction hstep [] ⟨Builder.routed_empty _, Builder.counted_empty _⟩ hfold).2,
    h⟩

/-- The edges are those of all tests. -/
theorem map_snd_edges (net : Network) : net.edges.map Prod.snd = net.tests := by
  rw [edges, tests, List.map_flatMap]
  exact List.flatMap_congr fun o _ => o.routes.map_snd_edges o.node

/-- **A network has a node for each of its tests.** -/
theorem countP_summaries (net : Network) :
    (net.summaries.countP fun s => s.kind = .alpha) = net.tests.length := by
  have hrules :
      ((net.rules.flatMap CompiledRule.summaries).countP fun s => s.kind = .alpha) = 0 := by
    refine List.countP_eq_zero.mpr fun s hs => ?_
    obtain ⟨r, -, hs⟩ := List.mem_flatMap.mp hs
    rw [decide_eq_true_eq]
    exact r.kind_ne_alpha hs
  rw [summaries, (List.mergeSort_perm _ _).countP_eq, List.countP_append, hrules, Nat.zero_add,
    List.countP_flatMap, tests, List.length_flatMap, FiniteMap.values, List.map_map]
  exact congrArg List.sum (List.map_congr_left fun x _ => x.2.countP_summaries x.1)

/-- **The counts add up to the clauses, and sharing leaves nothing to share.** In every network that
is built, the nodes that were created are those of its tests, and together with the finds they are
as many as the clauses of all patterns on their fact alone. Without sharing there are no finds; with
sharing no two tests just below one node have one signature. Every named test has a node of its own,
which leads to one entry, and so has every test if tests are not shared. -/
theorem sharing_build (h : build rules schemas config = .ok net) :
    let clauses := rules.flatMap Rule.clauses
    (net.sharing.created = net.summaries.countP fun s => s.kind = .alpha) ∧
    net.sharing.created + net.sharing.shared = clauses.countP Clause.isFieldClause ∧
    (config.shareTests = false → net.sharing.shared = 0) ∧
    net.edges.map Prod.snd = net.tests ∧
    (config.shareTests = true → ∀ p n n' t t' s, (p, n, t) ∈ net.edges → (p, n', t') ∈ net.edges →
      t.signature? = some s → t'.signature? = some s → n = n') ∧
    (net.tests.countP fun x => x.2.isUnsigned) = clauses.countP Clause.isValueTest ∧
    (∀ n t below, (n, t, below) ∈ net.branches → config.shareTests = false ∨ t.isUnsigned = true →
      below.entries.length = 1) := by
  intro clauses
  obtain ⟨b, hb, rfl⟩ := counted_build h
  refine ⟨?_, hb.total, hb.unshared, map_snd_edges _, fun hshare p n n' t t' s he he' hs hs' => ?_,
    hb.unsigned, fun n t below hmem => ?_⟩
  · rw [countP_summaries]
    exact hb.created
  -- The index knows one node for the parent and the signature.
  · have hregisters : ∀ e ∈ edges ⟨b.objectTypes, b.rules, config, schemas, b.sharing.counts,
      b.nextNode⟩,
        b.Registers e := by
      intro e he
      obtain ⟨o, ho, he⟩ := List.mem_flatMap.mp he
      obtain ⟨⟨T, o⟩, hT, rfl⟩ := List.mem_map.mp ho
      exact hb.registers hshare T o (b.objectTypes.get?_eq_some_iff.mpr hT) e he
    have hn := hregisters _ he s hs
    have hn' := hregisters _ he' s hs'
    exact Option.some.inj (hn.symm.trans hn')
  · obtain ⟨o, ho, hmem⟩ := List.mem_flatMap.mp hmem
    obtain ⟨⟨T, o⟩, hT, rfl⟩ := List.mem_map.mp ho
    exact hb.isOwn T o (b.objectTypes.get?_eq_some_iff.mpr hT) _ hmem

/-- Two rules ask for a large amount, and one of them for more: there are two tests for
three clauses. -/
theorem sharing_payments : ∃ net, build paymentRules paymentSchemas .standard = .ok net ∧
    net.sharing = ⟨2, 1⟩ ∧ (net.summaries.countP fun s => s.kind = .alpha) = 2 ∧
    (net.tests.countP fun x => x.2.isUnsigned) = 1 := by
  have hshape : (build paymentRules paymentSchemas .standard).toOption.map Network.sharing =
      some ⟨2, 1⟩ := by
    decide +kernel
  cases hnet : build paymentRules paymentSchemas .standard with
  | error err =>
      rw [hnet] at hshape
      cases hshape
  | ok net =>
      rw [hnet] at hshape
      have hsharing : net.sharing = ⟨2, 1⟩ := Option.some.inj hshape
      obtain ⟨hcreated, -, -, -, -, hunsigned, -⟩ := sharing_build hnet
      rw [hsharing] at hcreated
      exact ⟨net, rfl, hsharing, hcreated.symm, hunsigned⟩

end Network

end RuleMatching
