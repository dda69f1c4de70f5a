import Mathlib.Data.List.Perm.Basic
import RuleMatching.Proofs.Network.Build
import RuleMatching.Proofs.Network.Verdict

set_option autoImplicit false

/-! # Routes as trees

The routes of a type of facts are a tree: its tests and entries are just below the node of the type
or below another test (`Routes.links`). A route is added to a tree by way of tests that are there
already or by new ones (`Routes.Extends`). **Adding a route adds one path, with the tests of the
route**, and numbers for the new tests (`Routes.Extends.contents`, `Routes.Extends.testNodes`). -/

namespace RuleMatching

namespace Routes

/-! ## Nodes and links -/

/-- The nodes of all tests. -/
def testNodes (routes : Routes) : List NodeId := routes.tests.map Prod.fst

/-- All tests with their nodes and the nodes that they are just below of. -/
def edges (parent : NodeId) : Routes → List (NodeId × NodeId × FieldTest)
  | nil => []
  | entry _ rest => rest.edges parent
  | test n t below rest => (parent, n, t) :: below.edges n ++ rest.edges parent

/-- The pairs of a node and a test or an entry just below it. -/
def links (parent : NodeId) : Routes → List (NodeId × NodeId)
  | nil => []
  | entry n rest => (parent, n) :: rest.links parent
  | test n _ below rest => (parent, n) :: below.links n ++ rest.links parent

@[simp] theorem testNodes_nil : nil.testNodes = [] := rfl

theorem testNodes_test (n : NodeId) (t : FieldTest) (below rest : Routes) :
    (test n t below rest).testNodes = n :: (below.testNodes ++ rest.testNodes) := by
  rw [testNodes, tests, List.cons_append, List.map_cons, List.map_append]
  rfl

theorem testNodes_append (s t : Routes) : (s.append t).testNodes = s.testNodes ++ t.testNodes := by
  induction s with
  | nil => rfl
  | entry n rest ih => exact ih
  | test n t below rest _ ih => rw [append, testNodes_test, testNodes_test, ih]; simp

theorem edges_append (parent : NodeId) (s t : Routes) :
    (s.append t).edges parent = s.edges parent ++ t.edges parent := by
  induction s with
  | nil => rfl
  | entry n rest ih => exact ih
  | test n t below rest _ ih => rw [append, edges, edges, ih, List.append_assoc]

/-- What is below a node is below the parent of the level or a test. -/
theorem fst_mem_of_mem_links {parent p n : NodeId} {level : Routes}
    (h : (p, n) ∈ level.links parent) : p ∈ parent :: level.testNodes := by
  induction level generalizing parent with
  | nil => cases h
  | entry m rest ih =>
      rcases List.mem_cons.mp h with h | h
      · cases h
        exact List.mem_cons_self
      · exact ih h
  | test m t below rest ihb ihr =>
      rw [testNodes_test]
      rw [links, List.cons_append, List.mem_cons, List.mem_append] at h
      rcases h with h | h | h
      · cases h
        exact List.mem_cons_self
      · exact List.mem_cons_of_mem _ (List.mem_append_left _ (ihb h))
      · rcases List.mem_cons.mp (ihr h) with rfl | h
        · exact List.mem_cons_self
        · exact List.mem_cons_of_mem _ (List.mem_cons_of_mem _ (List.mem_append_right _ h))

/-- A test with the node that it is just below of is a link. -/
theorem mem_links_of_mem_edges {parent p n : NodeId} {t : FieldTest} {level : Routes}
    (h : (p, n, t) ∈ level.edges parent) : (p, n) ∈ level.links parent := by
  induction level generalizing parent with
  | nil => cases h
  | entry m rest ih => exact List.mem_cons_of_mem _ (ih h)
  | test m t' below rest ihb ihr =>
      rw [edges, List.cons_append, List.mem_cons, List.mem_append] at h
      rw [links, List.cons_append, List.mem_cons, List.mem_append]
      refine h.imp (fun h => ?_) (Or.imp ihb ihr)
      cases h
      rfl

/-- A test is below the parent of the level or below another test. -/
theorem source_mem {parent p n : NodeId} {t : FieldTest} {level : Routes}
    (h : (p, n, t) ∈ level.edges parent) : p ∈ parent :: level.testNodes :=
  fst_mem_of_mem_links (mem_links_of_mem_edges h)

/-- A test just below the parent of the level is on the level itself. -/
theorem exists_split {parent n : NodeId} {t : FieldTest} {level : Routes}
    (hp : parent ∉ level.testNodes) (h : (parent, n, t) ∈ level.edges parent) :
    ∃ pre below post : Routes, level = pre.append (.test n t below post) := by
  induction level with
  | nil => cases h
  | entry m rest ih =>
      obtain ⟨pre, below, post, rfl⟩ := ih hp h
      exact ⟨.entry m pre, below, post, rfl⟩
  | test m t' below rest _ ih =>
      rw [testNodes_test, List.mem_cons, List.mem_append] at hp
      rw [edges, List.cons_append, List.mem_cons, List.mem_append] at h
      rcases h with h | h | h
      · cases h
        exact ⟨.nil, below, rest, rfl⟩
      · rcases List.mem_cons.mp (source_mem h) with h | h
        · exact absurd (Or.inl h) hp
        · exact absurd (Or.inr (Or.inl h)) hp
      · obtain ⟨pre, below', post, rfl⟩ := ih (fun hmem => hp (Or.inr (Or.inr hmem))) h
        exact ⟨.test m t' below pre, below', post, rfl⟩

section Split

variable {n : NodeId} {t : FieldTest} {pre below post : Routes}

theorem under_append (h : n ∉ pre.testNodes) :
    (pre.append (.test n t below post)).under n = below := by
  induction pre with
  | nil => exact if_pos rfl
  | entry m rest ih => exact ih h
  | test m t' below' rest _ ih =>
      rw [testNodes_test, List.mem_cons, List.mem_append] at h
      rw [append, under, if_neg fun hm => h (Or.inl hm.symm)]
      exact ih fun hmem => h (Or.inr (Or.inr hmem))

theorem setUnder_append (h : n ∉ pre.testNodes) (new : Routes) :
    (pre.append (.test n t below post)).setUnder n new = pre.append (.test n t new post) := by
  induction pre with
  | nil => exact if_pos rfl
  | entry m rest ih => exact congrArg (Routes.entry m) (ih h)
  | test m t' below' rest _ ih =>
      rw [testNodes_test, List.mem_cons, List.mem_append] at h
      rw [append, setUnder, if_neg fun hm => h (Or.inl hm.symm)]
      exact congrArg (Routes.test m t' below') (ih fun hmem => h (Or.inr (Or.inr hmem)))

theorem mem_edges_split {parent p m : NodeId} {t' : FieldTest} :
    (p, m, t') ∈ (pre.append (.test n t below post)).edges parent ↔
      (p, m, t') ∈ pre.edges parent ∨ (p, m, t') = (parent, n, t) ∨ (p, m, t') ∈ below.edges n ∨
        (p, m, t') ∈ post.edges parent := by
  rw [edges_append, edges, List.cons_append, List.mem_append, List.mem_cons, List.mem_append]

theorem mem_testNodes_split {m : NodeId} : m ∈ (pre.append (.test n t below post)).testNodes ↔
    m ∈ pre.testNodes ∨ m = n ∨ m ∈ below.testNodes ∨ m ∈ post.testNodes := by
  rw [testNodes_append, testNodes_test, List.mem_append, List.mem_cons, List.mem_append]

end Split

/-! ## Links and numbers -/

/-- Each test and each entry is just below one node. -/
theorem map_snd_links (parent : NodeId) (level : Routes) :
    ((level.links parent).map Prod.snd).Perm (level.testNodes ++ level.entries) := by
  induction level generalizing parent with
  | nil => exact List.Perm.refl _
  | entry n rest ih => exact ((ih parent).cons n).trans List.perm_middle.symm
  | test n t below rest ihb ihr =>
      refine List.perm_iff_count.mpr fun m => ?_
      have hbelow := (ihb n).count_eq m
      have hrest := (ihr parent).count_eq m
      rw [links, testNodes_test, entries]
      simp only [List.cons_append, List.map_cons, List.map_append, List.count_cons,
        List.count_append] at hbelow hrest ⊢
      omega

/-- The tests have larger numbers than what they are just below of. -/
def Ascending (parent : NodeId) (level : Routes) : Prop :=
  ∀ p n t, (p, n, t) ∈ level.edges parent → p < n

theorem Ascending.lt_or_mem_entries {parent p n : NodeId} {level : Routes}
    (hasc : level.Ascending parent) (h : (p, n) ∈ level.links parent) :
    p < n ∨ n ∈ level.entries := by
  induction level generalizing parent with
  | nil => cases h
  | entry m rest ih =>
      rcases List.mem_cons.mp h with h | h
      · cases h
        exact Or.inr List.mem_cons_self
      · exact (ih hasc h).imp id (List.mem_cons_of_mem _)
  | test m t below rest ihb ihr =>
      have hbelow : below.Ascending m := fun q k t' hq => hasc q k t' (by simp [edges, hq])
      have hrest : rest.Ascending parent := fun q k t' hq => hasc q k t' (by simp [edges, hq])
      rw [links, List.cons_append, List.mem_cons, List.mem_append] at h
      rw [entries, List.mem_append]
      rcases h with h | h | h
      · cases h
        exact Or.inl (hasc p n t List.mem_cons_self)
      · exact (ihb hbelow h).imp id Or.inl
      · exact (ihr hrest h).imp id Or.inr

/-! ## Paths -/

/-- For each entry, in the order of the routes, what the tests that lead to it ask for. -/
def contents (level : Routes) : List (NodeId × List (TestSignature ⊕ (Accessor × ValueTest))) :=
  level.paths.map (Prod.map id (List.map FieldTest.content))

theorem map_fst_contents (level : Routes) : level.contents.map Prod.fst = level.entries := by
  rw [contents, List.map_map, ← map_fst_paths]
  rfl

theorem contents_test (n : NodeId) (t : FieldTest) (below rest : Routes) :
    (test n t below rest).contents =
    below.contents.map (Prod.map id (t.content :: ·)) ++ rest.contents := by
  rw [contents, contents, contents, paths, List.map_append, List.map_map, List.map_map]
  rfl

theorem contents_append (s t : Routes) : (s.append t).contents = s.contents ++ t.contents := by
  induction s with
  | nil => rfl
  | entry n rest ih => exact congrArg ((n, []) :: ·) ih
  | test n t' below rest _ ih => rw [append, contents_test, contents_test, ih, List.append_assoc]

/-! ## Routes that are added -/

/-- The level with one more route to the entry, by tests that ask for the same as the given ones.
The last `count` of these are new, with numbers from `next` on. -/
inductive Extends (entry : NodeId) : NodeId → Routes → List FieldTest → Nat → Routes → Prop
  | entry (next : NodeId) (level : Routes) :
      Extends entry next level [] 0 (level.append (.entry entry .nil))
  | shared {next n : NodeId} {count : Nat} {t t' : FieldTest} {rest : List FieldTest}
      {pre below below' post : Routes} (hcontent : t'.content = t.content)
      (h : Extends entry next below rest count below') :
      Extends entry next (pre.append (.test n t' below post)) (t :: rest) count
        (pre.append (.test n t' below' post))
  | new {next : NodeId} {count : Nat} {t : FieldTest} {rest : List FieldTest} {level below : Routes}
      (h : Extends entry (next + 1) .nil rest count below) :
      Extends entry next level (t :: rest) (count + 1) (level.append (.test next t below .nil))

namespace Extends

variable {entry next : NodeId} {count : Nat} {tests : List FieldTest} {level level' : Routes}

/-- **There is one more path, and its tests ask for what the tests of the route ask for.** -/
theorem contents (h : Extends entry next level tests count level') :
    level'.contents.Perm ((entry, tests.map FieldTest.content) :: level.contents) := by
  have hbelow : ∀ {t : FieldTest} {rest : List FieldTest} {below below' : Routes},
      below'.contents.Perm ((entry, rest.map FieldTest.content) :: below.contents) →
        (below'.contents.map (Prod.map id (t.content :: ·))).Perm
          ((entry, (t :: rest).map FieldTest.content) ::
            below.contents.map (Prod.map id (t.content :: ·))) := fun h => h.map _
  induction h with
  | entry next level =>
      rw [contents_append]
      exact List.perm_append_singleton _ _
  | shared hcontent _ ih =>
      rw [contents_append, contents_append, contents_test, contents_test, hcontent]
      exact (((hbelow ih).append_right _).append_left _).trans List.perm_middle
  | new _ ih =>
      rw [contents_append, contents_test, show Routes.nil.contents = [] from rfl, List.append_nil]
      exact ((hbelow ih).append_left _).trans (List.perm_append_singleton _ _)

theorem entries (h : Extends entry next level tests count level') :
    level'.entries.Perm (entry :: level.entries) := by
  rw [← map_fst_contents, ← map_fst_contents]
  exact h.contents.map Prod.fst

/-- **The new tests have the next numbers.** -/
theorem testNodes (h : Extends entry next level tests count level') :
    level'.testNodes.Perm (level.testNodes ++ List.range' next count) := by
  induction h with
  | entry next level =>
      rw [testNodes_append]
      exact List.Perm.refl _
  | shared _ _ ih =>
      rw [testNodes_append, testNodes_append, testNodes_test, testNodes_test, List.append_assoc,
        List.cons_append, List.append_assoc]
      refine ((ih.append_right _).cons _).append_left _ |>.trans ?_
      rw [List.append_assoc]
      exact ((List.perm_append_comm.append_left _).cons _).append_left _
  | new _ ih =>
      rw [testNodes_append, testNodes_test, testNodes_nil, List.append_nil, List.range'_succ]
      exact (ih.cons _).append_left _

theorem ascending (h : Extends entry next level tests count level') {parent : NodeId}
    (hlt : ∀ n ∈ parent :: level.testNodes, n < next) (hasc : level.Ascending parent) :
    level'.Ascending parent := by
  induction h generalizing parent with
  | entry next level =>
      intro p n t hmem
      rw [edges_append, List.mem_append] at hmem
      exact hasc p n t (hmem.resolve_right (List.not_mem_nil))
  | @shared next n _ _ t' _ pre below below' post _ _ ih =>
      have hbelow : below'.Ascending n := by
        refine ih (fun m hm => hlt m (List.mem_cons_of_mem _ ?_)) fun q m t hq => hasc q m t ?_
        · exact mem_testNodes_split.mpr (Or.inr ((List.mem_cons.mp hm).imp id Or.inl))
        · exact mem_edges_split.mpr (Or.inr (Or.inr (Or.inl hq)))
      intro p m t hmem
      -- An edge lies before the branch, or is the branch, or lies below it, or after it.
      rcases mem_edges_split.mp hmem with hmem | hmem | hmem | hmem
      · exact hasc p m t (mem_edges_split.mpr (Or.inl hmem))
      · exact hasc p m t (mem_edges_split.mpr (Or.inr (Or.inl hmem)))
      · exact hbelow p m t hmem
      · exact hasc p m t (mem_edges_split.mpr (Or.inr (Or.inr (Or.inr hmem))))
  | @new next _ _ _ level below _ ih =>
      have hbelow : below.Ascending next :=
        ih (fun m hm => List.mem_singleton.mp hm ▸ Nat.lt_succ_self _) fun _ _ _ hq => nomatch hq
      intro p m t hmem
      rcases mem_edges_split.mp hmem with hmem | hmem | hmem | hmem
      · exact hasc p m t hmem
      · cases hmem
        exact hlt parent List.mem_cons_self
      · exact hbelow p m t hmem
      · cases hmem

theorem fertile (h : Extends entry next level tests count level') (hf : level.Fertile) :
    level'.Fertile := by
  have hne : ∀ {next rest count below below'}, Extends entry next below rest count below' →
      below'.entries ≠ [] := fun h hnil => by
    have hlength := h.entries.length_eq
    rw [hnil] at hlength
    cases hlength
  induction h with
  | entry next level => exact fertile_append.mpr ⟨hf, trivial⟩
  | shared _ h ih =>
      obtain ⟨hpre, -, hbelow, hpost⟩ := fertile_append.mp hf
      exact fertile_append.mpr ⟨hpre, hne h, ih hbelow, hpost⟩
  | new h ih => exact fertile_append.mpr ⟨hf, hne h, ih trivial, trivial⟩

end Extends

end Routes

end RuleMatching
