import RuleMatching.Proofs.Network.Trees

set_option autoImplicit false

/-! # The forest of tests

The tests for the facts of one type form a tree below the node of the type, and the index of shared
tests points from a parent and a signature to a test just below the parent (`Builder.Rooted`). So a
route that uses shared tests says what the tests of its pattern say, and with sharing or without the
routes of a type say of each entry what the clauses of its pattern say
(`Network.mem_verdictsFor_build`). -/

namespace RuleMatching

open Outcome

/-! ## The index of shared tests -/

namespace Builder

/-- The level below `parent` is a tree, with the tests that the index knows below its nodes. -/
structure Rooted (b : Builder) (parent : NodeId) (level : Routes) : Prop where
  nodup : (parent :: level.testNodes).Nodup
  lt : ∀ n ∈ parent :: level.testNodes, n < b.nextNode
  indexed : ∀ p s n, p ∈ parent :: level.testNodes → b.sharing.nodes.get? (p, s) = some n →
    ∃ t, (p, n, t) ∈ level.edges parent ∧ t.signature? = some s

/-- The index knows of no node that is still to come. -/
def Bounded (b : Builder) : Prop := ∀ p s n, b.sharing.nodes.get? (p, s) = some n → p < b.nextNode

section Mono

variable {b b' : Builder} {parent : NodeId} {level : Routes}
  (hnodes : b'.sharing.nodes = b.sharing.nodes) (hle : b.nextNode ≤ b'.nextNode)

include hnodes hle

theorem Rooted.mono (h : b.Rooted parent level) : b'.Rooted parent level :=
  ⟨h.nodup, fun n hn => Nat.lt_of_lt_of_le (h.lt n hn) hle, fun p s n hp hget =>
    h.indexed p s n hp (hnodes ▸ hget)⟩

theorem Bounded.mono (h : b.Bounded) : b'.Bounded := fun p s n hget =>
  Nat.lt_of_lt_of_le (h p s n (hnodes ▸ hget)) hle

end Mono

/-- The level below `parent` has become another, and the index has changed for its nodes only. -/
structure Grown (b b' : Builder) (parent : NodeId) (level level' : Routes) : Prop where
  bounded : b'.Bounded
  rooted : b'.Rooted parent level'
  nextNode : b.nextNode ≤ b'.nextNode
  nodes : ∀ n ∈ level'.testNodes, n ∈ level.testNodes ∨ b.nextNode ≤ n
  others : ∀ p s, p < b.nextNode → p ∉ parent :: level.testNodes →
    b'.sharing.nodes.get? (p, s) = b.sharing.nodes.get? (p, s)

theorem Grown.trans {b b' b'' : Builder} {parent : NodeId} {level level' level'' : Routes}
    (h : Grown b b' parent level level') (h' : Grown b' b'' parent level' level'') :
    Grown b b'' parent level level'' := by
  refine ⟨h'.bounded, h'.rooted, Nat.le_trans h.nextNode h'.nextNode, fun n hn => ?_,
    fun p s hp hnot => ?_⟩
  · rcases h'.nodes n hn with hn | hn
    · exact h.nodes n hn
    · exact Or.inr (Nat.le_trans h.nextNode hn)
  · rw [h'.others p s (Nat.lt_of_lt_of_le hp h.nextNode), h.others p s hp hnot]
    rw [List.mem_cons, not_or] at hnot ⊢
    refine ⟨hnot.1, fun hmem => ?_⟩
    rcases h.nodes p hmem with hold | hnew
    · exact hnot.2 hold
    · exact Nat.not_le_of_lt hp hnew

section Split

variable {b b' : Builder} {parent n : NodeId} {t : FieldTest} {pre below below' post : Routes}

/-- No node is in two parts of a tree. -/
theorem Rooted.apart (h : b.Rooted parent (pre.append (.test n t below post))) {m : NodeId}
    (hm : m ∈ parent :: pre.testNodes ∨ m ∈ post.testNodes) : m ∉ n :: below.testNodes := by
  have hnodup := h.nodup
  simp only [Routes.testNodes_append, Routes.testNodes_test, List.nodup_cons, List.nodup_append,
    List.mem_append, List.mem_cons] at hnodup hm ⊢
  grind

theorem Rooted.subtree (h : b.Rooted parent (pre.append (.test n t below post))) :
    b.Rooted n below := by
  have hmem : ∀ m ∈ n :: below.testNodes, m ∈ (pre.append (.test n t below post)).testNodes := by
    intro m hm
    rw [Routes.mem_testNodes_split]
    exact Or.inr ((List.mem_cons.mp hm).imp id Or.inl)
  refine ⟨?_, fun m hm => h.lt m (List.mem_cons_of_mem _ (hmem m hm)), fun p s m hp hget => ?_⟩
  · refine h.nodup.sublist ?_
    rw [Routes.testNodes_append, Routes.testNodes_test]
    exact (((List.sublist_append_left _ _).cons_cons n).trans (List.sublist_append_right _ _)).cons
      parent
  · obtain ⟨t', hedge, hsig⟩ := h.indexed p s m (List.mem_cons_of_mem _ (hmem p hp)) hget
    refine ⟨t', ?_, hsig⟩
    rcases Routes.mem_edges_split.mp hedge with hedge | hedge | hedge | hedge
    · exact absurd hp (h.apart (Or.inl (Routes.source_mem hedge)))
    · cases hedge
      exact absurd hp (h.apart (Or.inl List.mem_cons_self))
    · exact hedge
    · rcases List.mem_cons.mp (Routes.source_mem hedge) with rfl | hmem'
      · exact absurd hp (h.apart (Or.inl List.mem_cons_self))
      · exact absurd hp (h.apart (Or.inr hmem'))

/-- The other nodes of the level are old, so they are not among those that have come
below the test. -/
theorem Rooted.apart_graft (h : b.Rooted parent (pre.append (.test n t below post)))
    (hg : Grown b b' n below below') {m : NodeId}
    (hm : m ∈ parent :: pre.testNodes ∨ m ∈ post.testNodes) :
    m < b.nextNode ∧ m ∉ n :: below.testNodes ∧ m ∉ n :: below'.testNodes := by
  have hold := h.apart hm
  have hlt : m < b.nextNode := by
    apply h.lt m
    simp only [List.mem_cons, Routes.mem_testNodes_split] at hm ⊢
    tauto
  refine ⟨hlt, hold, fun hmem => ?_⟩
  rcases List.mem_cons.mp hmem with rfl | hmem
  · exact hold List.mem_cons_self
  · rcases hg.nodes m hmem with hmem | hmem
    · exact hold (List.mem_cons_of_mem _ hmem)
    · exact Nat.not_le_of_lt hlt hmem

/-- The level of a test stays a tree when a tree has grown below the test. -/
theorem Rooted.graft (h : b.Rooted parent (pre.append (.test n t below post)))
    (hg : Grown b b' n below below') : b'.Rooted parent (pre.append (.test n t below' post)) := by
  refine ⟨?_, fun m hm => ?_, fun p s m hp hget => ?_⟩
  · have hnodup := h.nodup
    have hnodup' := hg.rooted.nodup
    have hapart := fun m => h.apart_graft hg (m := m)
    simp only [Routes.testNodes_append, Routes.testNodes_test, List.nodup_cons, List.nodup_append,
      List.mem_append, List.mem_cons] at hnodup hnodup' hapart ⊢
    grind
  · simp only [List.mem_cons, Routes.mem_testNodes_split] at hm
    by_cases hin : m ∈ n :: below'.testNodes
    · exact hg.rooted.lt m hin
    · refine Nat.lt_of_lt_of_le (h.lt m ?_) hg.nextNode
      simp only [List.mem_cons, Routes.mem_testNodes_split] at hin ⊢
      tauto
  · by_cases hin : p ∈ n :: below'.testNodes
    · obtain ⟨t', hedge, hsig⟩ := hg.rooted.indexed p s m hin hget
      exact ⟨t', Routes.mem_edges_split.mpr (Or.inr (Or.inr (Or.inl hedge))), hsig⟩
    -- The index says of the other nodes what it said, and none of their tests was below the test.
    · have hside : p ∈ parent :: pre.testNodes ∨ p ∈ post.testNodes := by
        simp only [List.mem_cons, Routes.mem_testNodes_split] at hp hin ⊢
        tauto
      obtain ⟨hp', hout, -⟩ := h.apart_graft hg hside
      rw [hg.others p s hp' hout] at hget
      have hlevel : p ∈ parent :: (pre.append (.test n t below post)).testNodes := by
        simp only [List.mem_cons, Routes.mem_testNodes_split] at hside ⊢
        tauto
      obtain ⟨t', hedge, hsig⟩ := h.indexed p s m hlevel hget
      refine ⟨t', Routes.mem_edges_split.mpr ?_, hsig⟩
      rcases Routes.mem_edges_split.mp hedge with hedge | hedge | hedge | hedge
      · exact Or.inl hedge
      · exact Or.inr (Or.inl hedge)
      · exact absurd (Routes.source_mem hedge) hout
      · exact Or.inr (Or.inr (Or.inr hedge))

/-- What grows below a test grows on the level of the test. -/
theorem Grown.graft (h : b.Rooted parent (pre.append (.test n t below post)))
    (hg : Grown b b' n below below') :
    Grown b b' parent (pre.append (.test n t below post)) (pre.append (.test n t below' post)) := by
  refine ⟨hg.bounded, h.graft hg, hg.nextNode, fun m hm => ?_, fun p s hp hnot => ?_⟩
  · rw [Routes.mem_testNodes_split] at hm ⊢
    have hbelow := hg.nodes m
    tauto
  · refine hg.others p s hp fun hmem => hnot ?_
    rw [List.mem_cons] at hmem
    simp only [List.mem_cons, Routes.mem_testNodes_split]
    tauto

end Split

section Route

variable {b : Builder} {parent : NodeId} {level : Routes}

theorem find_fst (index : SharingIndex) (p : NodeId) (s : TestSignature) :
    (index.find p s).1 = index.nodes.get? (p, s) := by
  unfold SharingIndex.find
  split <;> simp_all

theorem find_snd_nodes (index : SharingIndex) (p : NodeId) (s : TestSignature) :
    (index.find p s).2.nodes = index.nodes := by
  unfold SharingIndex.find
  split <;> rfl

/-- An entry at the end of the level is no test. -/
theorem grown_entry (entry : NodeId) (hb : b.Bounded) (h : b.Rooted parent level) :
    Grown b b parent level (level.append (.entry entry .nil)) := by
  have hnodes : (level.append (.entry entry .nil)).testNodes = level.testNodes := by
    rw [Routes.testNodes_append]
    exact List.append_nil _
  have hedges : (level.append (.entry entry .nil)).edges parent = level.edges parent := by
    rw [Routes.edges_append]
    exact List.append_nil _
  refine ⟨hb, ⟨hnodes ▸ h.nodup, hnodes ▸ h.lt, fun p s n hp => ?_⟩, Nat.le_refl _,
    fun n hn => Or.inl (hnodes ▸ hn), fun _ _ _ _ => rfl⟩
  rw [hedges]
  exact h.indexed p s n (hnodes ▸ hp)

theorem nextNode_findShared (share : Bool) (b : Builder) (parent : NodeId) (t : FieldTest) :
    (findShared share b parent t).2.nextNode = b.nextNode := by
  unfold findShared
  split <;> rfl

/-- A search in the index changes no more than its counts. -/
theorem grown_findShared (share : Bool) (t : FieldTest) (hb : b.Bounded)
    (h : b.Rooted parent level) : Grown b (findShared share b parent t).2 parent level level := by
  have hnodes : (findShared share b parent t).2.sharing.nodes = b.sharing.nodes := by
    unfold findShared
    split
    · exact find_snd_nodes _ _ _
    · rfl
  have hle := Nat.le_of_eq (nextNode_findShared share b parent t).symm
  exact ⟨hb.mono hnodes hle, h.mono hnodes hle, hle, fun _ hn => Or.inl hn,
    fun p s _ _ => by rw [hnodes]⟩

/-- A shared test is on the level, and it asks for the same. -/
theorem split_of_findShared {share : Bool} {t : FieldTest} {n : NodeId} {b' : Builder}
    (h : b.Rooted parent level) (hfind : findShared share b parent t = (some n, b')) :
    ∃ t' : FieldTest, t'.content = t.content ∧ ∃ pre below post : Routes,
      level = pre.append (.test n t' below post) ∧ n ∉ pre.testNodes := by
  unfold findShared at hfind
  split at hfind
  · next s hs =>
    have hget : b.sharing.nodes.get? (parent, s) = some n :=
      (find_fst b.sharing parent s).symm.trans (congrArg Prod.fst hfind)
    obtain ⟨t', hedge, hs'⟩ := h.indexed parent s n List.mem_cons_self hget
    obtain ⟨pre, below, post, rfl⟩ := Routes.exists_split (List.nodup_cons.mp h.nodup).1 hedge
    have hcontent :=
      (FieldTest.content_of_signature? hs').trans (FieldTest.content_of_signature? hs).symm
    exact ⟨t', hcontent, pre, below, post, rfl, fun hmem =>
      h.apart (Or.inl (List.mem_cons_of_mem _ hmem)) List.mem_cons_self⟩
  · cases hfind

theorem get?_newTest (share : Bool) (t : FieldTest) (p : NodeId) (s : TestSignature) :
    (newTest share b parent t).2.sharing.nodes.get? (p, s) =
      if p = parent ∧ share = true ∧ t.signature? = some s then some b.nextNode
      else b.sharing.nodes.get? (p, s) := by
  unfold newTest
  dsimp only
  split
  · next s' hs' =>
    rw [SharingIndex.register, SharingIndex.recordUnshared, FiniteMap.get?_insert, hs']
    simp only [Prod.mk.injEq, Option.some.injEq, true_and]
    simp only [eq_comm (a := s)]
  · next hno =>
    rw [SharingIndex.recordUnshared, if_neg fun h => hno s h.2.1 h.2.2]

/-- A new test comes at the end of the level, with a number of its own. -/
theorem grown_newTest (share : Bool) (t : FieldTest) (hb : b.Bounded) (h : b.Rooted parent level) :
    Grown b (newTest share b parent t).2 parent level
      (level.append (.test b.nextNode t .nil .nil)) := by
  have hnodes : ∀ n, n ∈ (level.append (.test b.nextNode t .nil .nil)).testNodes ↔
      n ∈ level.testNodes ∨ n = b.nextNode := by simp [Routes.mem_testNodes_split]
  have hnew : b.nextNode ∉ parent :: level.testNodes := fun hmem => Nat.lt_irrefl _ (h.lt _ hmem)
  have hnext : (newTest share b parent t).2.nextNode = b.nextNode + 1 := rfl
  refine ⟨fun p s n hget => ?_, ⟨?_, fun n hn => ?_, fun p s n hp hget => ?_⟩, Nat.le_succ _,
    fun n hn => ((hnodes n).mp hn).imp id fun hn => Nat.le_of_eq hn.symm, fun p s hp hnot => ?_⟩
  · rw [hnext]
    rw [get?_newTest] at hget
    split at hget
    · next hnew => exact Nat.lt_succ_of_lt (hnew.1 ▸ h.lt parent List.mem_cons_self)
    · exact Nat.lt_succ_of_lt (hb p s n hget)
  · -- The number is new, so no node has it.
    rw [Routes.testNodes_append, Routes.testNodes_test, ← List.cons_append]
    exact List.nodup_append.mpr ⟨h.nodup, by simp, fun m hm m' hm' heq => hnew (by
      simp only [Routes.testNodes_nil, List.append_nil, List.mem_singleton] at hm'
      rwa [heq, hm'] at hm)⟩
  · rw [hnext]
    rw [List.mem_cons, hnodes, ← or_assoc, ← List.mem_cons] at hn
    rcases hn with hn | rfl
    · exact Nat.lt_succ_of_lt (h.lt n hn)
    · exact Nat.lt_succ_self _
  · rw [List.mem_cons, hnodes, ← or_assoc, ← List.mem_cons] at hp
    rw [get?_newTest] at hget
    split at hget
    · -- What the index knows now is the new test.
      next hthis =>
      obtain ⟨rfl, -, hs⟩ := hthis
      cases hget
      exact ⟨t, Routes.mem_edges_split.mpr (Or.inr (Or.inl rfl)), hs⟩
    · rcases hp with hp | rfl
      · obtain ⟨t', hedge, hs⟩ := h.indexed p s n hp hget
        exact ⟨t', Routes.mem_edges_split.mpr (Or.inl hedge), hs⟩
      · exact absurd (hb _ s n hget) (Nat.lt_irrefl _)
  · rw [get?_newTest, if_neg]
    rintro ⟨rfl, -⟩
    exact hnot List.mem_cons_self

end Route

/-! ## Routes that are added -/

/-- **The tree grows by the new route alone**, whether or not tests are shared. -/
theorem addRoute_grown (share : Bool) (entry : NodeId) (tests : List FieldTest) {b : Builder}
    {parent : NodeId} {level : Routes} (hb : b.Bounded) (h : b.Rooted parent level) :
    Grown b (addRoute share entry parent b level tests).1 parent level
        (addRoute share entry parent b level tests).2 ∧
      ∃ count, (addRoute share entry parent b level tests).1.nextNode = b.nextNode + count ∧
        Routes.Extends entry b.nextNode level tests count
          (addRoute share entry parent b level tests).2 := by
  induction tests generalizing b parent level with
  | nil => exact ⟨grown_entry entry hb h, 0, rfl, .entry b.nextNode level⟩
  | cons t rest ih =>
      have hfound := grown_findShared share t hb h
      have hnext := nextNode_findShared share b parent t
      unfold addRoute
      split
      · next n b' hfind =>
        rw [hfind] at hfound hnext
        -- The test is there: the route goes on below it.
        obtain ⟨t', hcontent, pre, below, post, rfl, hn⟩ := split_of_findShared h hfind
        obtain ⟨hg, count, hcount, hext⟩ := ih hfound.bounded hfound.rooted.subtree
        rw [Routes.under_append hn]
        generalize addRoute share entry n b' below rest = result at hg hcount hext ⊢
        dsimp only at hnext ⊢
        rw [hnext] at hcount hext
        rw [Routes.setUnder_append hn]
        exact ⟨hfound.trans (hg.graft hfound.rooted), count, hcount, .shared hcontent hext⟩
      · next b' hfind =>
        rw [hfind] at hfound hnext
        dsimp only at hfound hnext
        have hnew := grown_newTest share t hfound.bounded hfound.rooted
        obtain ⟨hg, count, hcount, hext⟩ := ih hnew.bounded hnew.rooted.subtree
        have hnode : (newTest share b' parent t).1 = b'.nextNode := rfl
        have hnext' : (newTest share b' parent t).2.nextNode = b'.nextNode + 1 := rfl
        rw [hnext'] at hcount hext
        dsimp only
        rw [hnode, ← hnext]
        refine ⟨hfound.trans (hnew.trans (hg.graft hnew.rooted)), count + 1, ?_, .new hext⟩
        rw [hcount, Nat.add_assoc, Nat.add_comm 1 count]

/-! ## The trees of all types -/

/-- The node of the type and those of its tests. -/
def treeNodes (o : ObjectType) : List NodeId := o.node :: o.routes.testNodes

/-- A tree that has no node in common with the one that grows stays as it is. -/
theorem Rooted.other {b b' : Builder} {parent q : NodeId} {level level' other : Routes}
    (h : b.Rooted q other) (hg : Grown b b' parent level level')
    (hapart : ∀ n ∈ q :: other.testNodes, n ∉ parent :: level.testNodes) : b'.Rooted q other := by
  refine ⟨h.nodup, fun n hn => Nat.lt_of_lt_of_le (h.lt n hn) hg.nextNode, fun p s n hp hget => ?_⟩
  rw [hg.others p s (h.lt p hp) (hapart p hp)] at hget
  exact h.indexed p s n hp hget

/-- What the routes for facts of the type say of each entry. -/
def verdictsOf (types : FiniteMap String ObjectType) (T : String) : List (NodeId × Verdict) :=
  ((types.get? T).map fun o => o.routes.verdicts).getD []

theorem verdictsOf_some {types : FiniteMap String ObjectType} {T : String} {o : ObjectType}
    (h : types.get? T = some o) : verdictsOf types T = o.routes.verdicts := by
  rw [verdictsOf, h]
  rfl

theorem verdictsOf_none {types : FiniteMap String ObjectType} {T : String}
    (h : types.get? T = none) : verdictsOf types T = [] := by
  rw [verdictsOf, h]
  rfl

/-- For each entry for facts of the type, the tests that lead to it. -/
def pathsOf (types : FiniteMap String ObjectType) (T : String) : List (NodeId × List FieldTest) :=
  ((types.get? T).map fun o => o.routes.paths).getD []

theorem verdictsOf_eq_map_pathsOf (types : FiniteMap String ObjectType) (T : String) :
    verdictsOf types T = (pathsOf types T).map (Prod.map id FieldTest.verdict) := by
  rw [verdictsOf, pathsOf]
  cases types.get? T with
  | none => rfl
  | some o => exact o.routes.verdicts_eq_map_paths

/-- For each entry for facts of the type, what the tests that lead to it ask for. -/
def contentsOf (types : FiniteMap String ObjectType) (T : String) :
    List (NodeId × List (TestSignature ⊕ (Accessor × ValueTest))) :=
  ((types.get? T).map fun o => o.routes.contents).getD []

theorem contentsOf_eq_map_pathsOf (types : FiniteMap String ObjectType) (T : String) :
    contentsOf types T = (pathsOf types T).map (Prod.map id (List.map FieldTest.content)) := by
  rw [contentsOf, pathsOf]
  cases types.get? T <;> rfl

theorem contentsOf_insert (types : FiniteMap String ObjectType) (T T' : String) (o : ObjectType) :
    contentsOf (types.insert T o) T' =
      if T' = T then o.routes.contents else contentsOf types T' := by
  rw [contentsOf, FiniteMap.get?_insert]
  split <;> rfl

/-- The routes of the type are a tree in which every test leads somewhere, numbered downwards. -/
structure Tree (b : Builder) (o : ObjectType) : Prop where
  rooted : b.Rooted o.node o.routes
  fertile : o.routes.Fertile
  ascending : o.routes.Ascending o.node

/-- The routes of each type are a tree, and the trees have no node in common. -/
structure Forest (b : Builder) : Prop where
  bounded : b.Bounded
  tree : ∀ T o, b.objectTypes.get? T = some o → b.Tree o
  apart : ∀ T T' o o', b.objectTypes.get? T = some o → b.objectTypes.get? T' = some o' → T ≠ T' →
    ∀ n ∈ treeNodes o, n ∉ treeNodes o'

theorem forest_empty : empty.Forest := by
  refine ⟨?_, ?_, ?_⟩ <;> simp [empty, Bounded, SharingIndex.empty]

/-- Nodes of other sorts may be numbered in between. -/
theorem Forest.mono {b b' : Builder} (h : b.Forest) (hsharing : b'.sharing = b.sharing)
    (htypes : b'.objectTypes = b.objectTypes) (hle : b.nextNode ≤ b'.nextNode) : b'.Forest := by
  have hnodes := congrArg SharingIndex.nodes hsharing
  refine ⟨h.bounded.mono hnodes hle, fun T o ho => ?_, htypes ▸ h.apart⟩
  have htree := h.tree T o (htypes ▸ ho)
  exact ⟨htree.rooted.mono hnodes hle, htree.fertile, htree.ascending⟩

/-- The tree of a type, to which a route is to be added, is that which was there or a new one. -/
structure Started (b : Builder) (T : String) (o : ObjectType) (b' : Builder) : Prop where
  forest : b'.Forest
  tree : b'.Tree o
  objectTypes : b'.objectTypes = b.objectTypes
  routes : o.routes = ((b.objectTypes.get? T).map ObjectType.routes).getD .nil
  nodes : ∃ count, b'.nextNode = b.nextNode + count ∧
    treeNodes o = ((b.objectTypes.get? T).map treeNodes).getD [] ++ List.range' b.nextNode count
  apart : ∀ T' o', b.objectTypes.get? T' = some o' → T' ≠ T → ∀ n ∈ treeNodes o', n ∉ treeNodes o

theorem Forest.started {b : Builder} (h : b.Forest) (T : String) :
    Started b T (b.objectType T).1 (b.objectType T).2 := by
  unfold Builder.objectType
  split
  · next o ho =>
    refine ⟨h, h.tree T o ho, rfl, by rw [ho]; rfl, ⟨0, rfl, ?_⟩, fun T' o' ho' hne =>
      h.apart T' T o' o ho' ho hne⟩
    rw [ho]
    exact (List.append_nil _).symm
  · next hnone =>
    refine ⟨h.mono rfl rfl (Nat.le_succ _), ⟨⟨List.nodup_singleton _, ?_, fun p s n hp hget => ?_⟩,
      trivial, fun _ _ _ hmem => nomatch hmem⟩,
      rfl, by rw [hnone]; rfl, ⟨1, rfl, by rw [hnone]; rfl⟩, fun T' o' ho' _ n hn hmem => ?_⟩
    · simp
    · rw [Routes.testNodes_nil, List.mem_singleton] at hp
      exact absurd (hp ▸ h.bounded p s n hget) (Nat.lt_irrefl _)
    · rw [treeNodes, Routes.testNodes_nil, List.mem_singleton] at hmem
      exact absurd (hmem ▸ (h.tree T' o' ho').rooted.lt n hn) (Nat.lt_irrefl _)

/-- A tree takes the place of that of its type, if the trees of the other types keep
away from it. -/
theorem forest_insert {b : Builder} {T : String} {o : ObjectType} (hbounded : b.Bounded)
    (htree : b.Tree o) (hother : ∀ T' o', T' ≠ T → b.objectTypes.get? T' = some o' →
      b.Tree o' ∧ ∀ n ∈ treeNodes o', n ∉ treeNodes o)
    (hapart : ∀ T₁ T₂ o₁ o₂, b.objectTypes.get? T₁ = some o₁ → b.objectTypes.get? T₂ = some o₂ →
      T₁ ≠ T₂ →
      ∀ n ∈ treeNodes o₁, n ∉ treeNodes o₂) :
    Forest { b with objectTypes := b.objectTypes.insert T o } := by
  have hget : ∀ {T' o'}, (b.objectTypes.insert T o).get? T' = some o' →
      (T' = T ∧ o' = o) ∨ (T' ≠ T ∧ b.objectTypes.get? T' = some o') := by
    intro T' o' h
    rw [FiniteMap.get?_insert] at h
    split at h
    · next hT => exact Or.inl ⟨hT, (Option.some.inj h).symm⟩
    · next hT => exact Or.inr ⟨hT, h⟩
  have hsame : ∀ {o' : ObjectType}, b.Tree o' →
      Tree { b with objectTypes := b.objectTypes.insert T o } o' :=
    fun h => ⟨Rooted.mono (b := b) rfl (Nat.le_refl _) h.rooted, h.fertile, h.ascending⟩
  refine ⟨hbounded.mono rfl (Nat.le_refl _), fun T₁ o₁ h₁ => ?_,
    fun T₁ T₂ o₁ o₂ h₁ h₂ hne n hn hmem => ?_⟩
  · rcases hget h₁ with ⟨-, rfl⟩ | ⟨hT, h₁⟩
    · exact hsame htree
    · exact hsame (hother T₁ o₁ hT h₁).1
  · rcases hget h₁ with ⟨rfl, rfl⟩ | ⟨hT₁, hold₁⟩ <;> rcases hget h₂ with ⟨rfl, rfl⟩ | ⟨hT₂, hold₂⟩
    · exact hne rfl
    · exact (hother T₂ o₂ hT₂ hold₂).2 n hmem hn
    · exact (hother T₁ o₁ hT₁ hold₁).2 n hn hmem
    · exact hapart T₁ T₂ o₁ o₂ hold₁ hold₂ hne n hn hmem

/-- The nodes of the types and of the tests. -/
def treesNodes (b : Builder) : List NodeId := b.objectTypes.values.flatMap treeNodes

/-- The entries to which routes lead. -/
def led (b : Builder) : List NodeId := b.objectTypes.values.flatMap fun o => o.routes.entries

/-- The forest has one more route, which leads facts of the pattern to the entry, and the next
numbers are those of new nodes on it. -/
structure Planted (b b' : Builder) (entry : NodeId) (p : CompiledPattern) : Prop where
  forest : b'.Forest
  contents : ∀ T, (contentsOf b'.objectTypes T).Perm
    (if T = p.factType then (entry, p.fieldTests.map FieldTest.content) :: contentsOf
      b.objectTypes T
      else contentsOf b.objectTypes T)
  led : b'.led.Perm (b.led ++ [entry])
  nodes : ∃ count, b'.nextNode = b.nextNode + count ∧
    b'.treesNodes.Perm (b.treesNodes ++ List.range' b.nextNode count)

/-- **Adding a pattern adds one route.** -/
theorem Forest.addPattern {b : Builder} (h : b.Forest) (share : Bool) (entry : NodeId)
    (p : CompiledPattern) : Planted b (addPattern share b entry p) entry p := by
  have hstarted := h.started p.factType
  unfold Builder.addPattern
  generalize b.objectType p.factType = made at hstarted ⊢
  obtain ⟨o, b₁⟩ := made
  obtain ⟨hforest, htree, htypes, hroutes, ⟨first, hfirst, hnodes⟩, hapart⟩ := hstarted
  dsimp only at hforest htree htypes hroutes hfirst hnodes hapart ⊢
  have hkeeps := keeps_addRoute share entry o.node b₁ o.routes p.fieldTests
  obtain ⟨hgrown, count, hcount, hext⟩ :=
    addRoute_grown share entry p.fieldTests hforest.bounded htree.rooted
  generalize addRoute share entry o.node b₁ o.routes p.fieldTests = grown
    at hkeeps hgrown hcount hext ⊢
  obtain ⟨b₂, routes⟩ := grown
  dsimp only at hkeeps hgrown hcount hext ⊢
  have htypes' : b₂.objectTypes = b.objectTypes := hkeeps.objectTypes.trans htypes
  have htree' : b₂.Tree { o with routes } :=
    ⟨hgrown.rooted, hext.fertile htree.fertile, hext.ascending htree.rooted.lt htree.ascending⟩
  refine ⟨forest_insert hgrown.bounded htree' (fun T o' hne ho' => ?_) fun T₁ T₂ o₁ o₂ h₁ h₂ => ?_,
    fun T => ?_, ?_, first + count, ?_, ?_⟩
  -- The tree of another type was there before, and the one that has grown keeps away from it.
  · rw [htypes'] at ho'
    have hold := hforest.tree T o' (htypes.symm ▸ ho')
    have hdis := hapart T o' ho' hne
    refine ⟨⟨hold.rooted.other hgrown hdis, hold.fertile, hold.ascending⟩, fun n hn hmem => ?_⟩
    rcases List.mem_cons.mp hmem with rfl | hmem
    · exact hdis _ hn List.mem_cons_self
    · rcases hgrown.nodes n hmem with hin | hge
      · exact hdis n hn (List.mem_cons_of_mem _ hin)
      · exact Nat.not_le_of_lt (hold.rooted.lt n hn) hge
  · rw [htypes'] at h₁ h₂
    exact h.apart T₁ T₂ o₁ o₂ h₁ h₂
  · rw [contentsOf_insert, htypes']
    split
    · next hT =>
      have hold : o.routes.contents = contentsOf b.objectTypes T := by
        rw [hroutes, contentsOf, hT]
        cases b.objectTypes.get? p.factType <;> rfl
      exact hold ▸ hext.contents
    · exact List.Perm.refl _
  · have hold : o.routes.entries =
        ((b.objectTypes.get? p.factType).map fun o => o.routes.entries).getD [] := by
      rw [hroutes]
      cases b.objectTypes.get? p.factType <;> rfl
    rw [led, led, htypes']
    refine FiniteMap.flatMap_values_insert _ _ ?_
    exact hold ▸ hext.entries.trans (List.perm_append_singleton _ _).symm
  · rw [hcount, hfirst, Nat.add_assoc]
  · rw [treesNodes, treesNodes, htypes', ← List.range'_append_1, ← hfirst]
    refine FiniteMap.flatMap_values_insert _ _ ?_
    rw [← List.append_assoc, ← hnodes]
    exact hext.testNodes.cons o.node

/-- The forest has routes to entries numbered from `node` on, one for each of the patterns. -/
structure PlantedAll (b b' : Builder) (node : NodeId) (patterns : List CompiledPattern) : Prop where
  forest : b'.Forest
  contents : ∀ T x, x ∈ contentsOf b'.objectTypes T ↔ x ∈ contentsOf b.objectTypes T ∨
    ∃ (i : Nat) (p : CompiledPattern), patterns[i]? = some p ∧ p.factType = T ∧
      x = (node + i, p.fieldTests.map FieldTest.content)
  led : b'.led.Perm (b.led ++ List.range' node patterns.length)
  nodes : ∃ count, b'.nextNode = b.nextNode + count ∧
    b'.treesNodes.Perm (b.treesNodes ++ List.range' b.nextNode count)

/-- Adding patterns adds a route for each. -/
theorem Forest.addPatterns {b : Builder} (h : b.Forest) (share : Bool) (node : NodeId)
    (patterns : List CompiledPattern) :
    PlantedAll b (addPatterns share b node patterns) node patterns := by
  induction patterns generalizing b node with
  | nil =>
      refine ⟨h, fun T x => by simp [Builder.addPatterns], ?_, 0, rfl, ?_⟩
      · exact List.Perm.of_eq (List.append_nil _).symm
      · exact List.Perm.of_eq (List.append_nil _).symm
  | cons p rest ih =>
      obtain ⟨hforest, hperm, hled, first, hfirst, hnodes⟩ := h.addPattern share node p
      obtain ⟨hforest', hmem, hled', count, hcount, hnodes'⟩ := ih hforest (node + 1)
      refine ⟨hforest', fun T x => ?_, ?_, first + count, ?_, ?_⟩
      · have hnew : x ∈ contentsOf (Builder.addPattern share b node p).objectTypes T ↔
            x ∈ contentsOf b.objectTypes T ∨
              p.factType = T ∧ x = (node, p.fieldTests.map FieldTest.content) := by
          rw [(hperm T).mem_iff]
          split
          · next hT => simp [hT, or_comm]
          · next hT => simp [eq_comm (b := T), hT]
        rw [Builder.addPatterns, hmem, hnew, or_assoc]
        -- The first pattern has the number of the node, and the pattern after it is the
        -- first of the rest.
        refine or_congr_right ⟨?_, ?_⟩
        · rintro (⟨hT, hx⟩ | ⟨i, q, hq, hT, hx⟩)
          · exact ⟨0, p, rfl, hT, hx⟩
          · exact ⟨i + 1, q, hq, hT, by rw [hx, Nat.add_assoc, Nat.add_comm 1 i]⟩
        · rintro ⟨i, q, hq, hT, hx⟩
          cases i with
          | zero =>
              rw [List.getElem?_cons_zero, Option.some.injEq] at hq
              subst hq
              exact Or.inl ⟨hT, hx⟩
          | succ i =>
              rw [List.getElem?_cons_succ] at hq
              exact Or.inr ⟨i, q, hq, hT, by rw [hx, Nat.add_assoc, Nat.add_comm 1 i]⟩
      · rw [List.length_cons, List.range'_succ]
        exact (hled'.trans (hled.append_right _)).trans (List.Perm.of_eq (List.append_assoc _ _ _))
      · rw [Builder.addPatterns, hcount, hfirst, Nat.add_assoc]
      · rw [← List.range'_append_1, ← List.append_assoc, ← hfirst]
        exact hnodes'.trans (hnodes.append_right _)

end Builder

end RuleMatching
