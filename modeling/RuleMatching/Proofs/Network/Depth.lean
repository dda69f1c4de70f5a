import RuleMatching.Proofs.Network.Build
import RuleMatching.Proofs.Network.Routing

set_option autoImplicit false

/-! # The length of index keys

Compiled with another limit on the length of index keys, a network has the same nodes, routes and
tests (`Network.build_atDepth`); only how many tests of a join its index decides may be different.
It leads every fact to the same entries (`Network.routesAlike_atDepth`). -/

namespace RuleMatching

/-- The entry with an index on keys of the given length at most. -/
def Entry.atDepth (d : Nat) (e : Entry) : Entry :=
  { e with condition := .ofTests e.condition.tests d }

@[inherit_doc Entry.atDepth]
def CompiledRule.atDepth (d : Nat) (r : CompiledRule) : CompiledRule :=
  { r with first := r.first.atDepth d, joins := r.joins.map (Entry.atDepth d) }

@[inherit_doc Entry.atDepth]
def Network.Place.atDepth (d : Nat) (place : Network.Place) : Network.Place :=
  ⟨place.rule.atDepth d, place.entry.atDepth d, place.later.map (Entry.atDepth d)⟩

@[inherit_doc Entry.atDepth]
def Builder.atDepth (d : Nat) (b : Builder) : Builder :=
  { b with rules := b.rules.map (CompiledRule.atDepth d) }

@[inherit_doc Entry.atDepth]
def Network.atDepth (d : Nat) (net : Network) : Network :=
  { net with
    rules := net.rules.map (CompiledRule.atDepth d)
    config := { net.config with keyDepth := d } }

/-! ## Compilation -/

namespace Builder

variable {d : Nat} {b : Builder}

theorem findShared_atDepth (share : Bool) (parent : NodeId) (t : FieldTest) :
    findShared share (b.atDepth d) parent t =
      ((findShared share b parent t).1, (findShared share b parent t).2.atDepth d) := by
  unfold findShared
  cases share <;> cases t.signature? <;> rfl

theorem newTest_atDepth (share : Bool) (parent : NodeId) (t : FieldTest) :
    newTest share (b.atDepth d) parent t =
      ((newTest share b parent t).1, (newTest share b parent t).2.atDepth d) := by
  unfold newTest
  cases share <;> cases t.signature? <;> rfl

theorem addRoute_atDepth (share : Bool) (entry parent : NodeId) (level : Routes)
    (tests : List FieldTest) :
    addRoute share entry parent (b.atDepth d) level tests =
      ((addRoute share entry parent b level tests).1.atDepth d,
        (addRoute share entry parent b level tests).2) := by
  induction tests generalizing parent b level with
  | nil => rfl
  | cons t rest ih =>
      rw [addRoute, addRoute, findShared_atDepth]
      rcases findShared share b parent t with ⟨_ | node, b₁⟩
      · simp only
        rw [newTest_atDepth, ih]
      · simp only
        rw [ih]

theorem addPattern_atDepth (share : Bool) (entry : NodeId) (p : CompiledPattern) :
    addPattern share (b.atDepth d) entry p = (addPattern share b entry p).atDepth d := by
  have htypes : (b.atDepth d).objectTypes = b.objectTypes := rfl
  have hobject : (b.atDepth d).objectType p.factType =
      ((b.objectType p.factType).1, (b.objectType p.factType).2.atDepth d) := by
    unfold objectType
    rw [htypes]
    cases b.objectTypes.get? p.factType <;> rfl
  unfold addPattern
  rw [hobject]
  simp only
  rw [addRoute_atDepth]
  rfl

theorem addPatterns_atDepth (share : Bool) (node : NodeId) (ps : List CompiledPattern) :
    addPatterns share (b.atDepth d) node ps = (addPatterns share b node ps).atDepth d := by
  induction ps generalizing b node with
  | nil => rfl
  | cons p rest ih => rw [addPatterns, addPatterns, addPattern_atDepth, ih]

theorem joinsFrom_atDepth (depth : Nat) (reads : List (Nat × FieldRead)) (node : NodeId)
    (position : Nat) (ps : List CompiledPattern) :
    (joinsFrom depth reads node position ps).map (Entry.atDepth d) =
      joinsFrom d reads node position ps := by
  induction ps generalizing node position with
  | nil => rfl
  | cons p rest ih =>
      rw [joinsFrom, List.map_cons, ih]
      rfl

variable {schemas : SchemaRegistry} {config : Config}

theorem addCompiled_atDepth (name : String) (first : CompiledPattern)
    (rest : List CompiledPattern) :
    addCompiled { config with keyDepth := d } (b.atDepth d) name first rest =
      (addCompiled config b name first rest).atDepth d := by
  have hempty : JoinCondition.ofTests JoinCondition.empty.tests d = .empty := by
    rw [JoinCondition.empty, JoinCondition.ofTests, JoinCondition.ofTests]
    simp
  unfold addCompiled
  rw [← addPatterns_atDepth]
  refine congrArg (fun b => addPatterns _ b _ _) ?_
  simp only [atDepth, List.map_append, List.map_singleton, CompiledRule.atDepth, joinsFrom_atDepth,
    List.length_map, Entry.atDepth, hempty]

theorem addRule_atDepth (rule : Rule) :
    addRule schemas { config with keyDepth := d } (b.atDepth d) rule =
      (addRule schemas config b rule).map (Builder.atDepth d) := by
  have hany : (b.atDepth d).rules.any (·.name == rule.name) =
      b.rules.any (·.name == rule.name) := by
    rw [atDepth, List.any_map]
    rfl
  unfold addRule
  rw [hany]
  split
  · rfl
  · split
    · rfl
    · cases Compile.compilePatterns schemas rule.name 0 [] rule.patterns with
      | error err => rfl
      | ok patterns =>
          cases patterns with
          | nil => rfl
          | cons first rest => exact congrArg Except.ok (addCompiled_atDepth rule.name first rest)

theorem foldlM_addRule_atDepth (rules : List Rule) :
    rules.foldlM (addRule schemas { config with keyDepth := d }) (b.atDepth d) =
      (rules.foldlM (addRule schemas config) b).map (Builder.atDepth d) := by
  induction rules generalizing b with
  | nil => rfl
  | cons rule rest ih =>
      rw [List.foldlM_cons, List.foldlM_cons, addRule_atDepth]
      cases addRule schemas config b rule with
      | error err => rfl
      | ok b₁ => exact ih

end Builder

namespace Network

variable {net : Network} {d : Nat}

/-- **Another limit on the length of keys makes another index, and nothing else.** -/
theorem build_atDepth {rules : List Rule} {schemas : SchemaRegistry} {config : Config}
    (h : build rules schemas config = .ok net)
    (hd : Config.validate { config with keyDepth := d } = .ok ()) :
    build rules schemas { config with keyDepth := d } = .ok (net.atDepth d) := by
  obtain ⟨-, b, hfold, rfl⟩ := build_eq_ok_iff.mp h
  refine build_eq_ok_iff.mpr ⟨hd, b.atDepth d, ?_, rfl⟩
  have hempty : Builder.empty = Builder.empty.atDepth d := rfl
  rw [hempty, Builder.foldlM_addRule_atDepth, hfold]
  rfl

/-! ## The chains -/

theorem sinkAfter_atDepth (r : CompiledRule) (later : List Entry) :
    (r.atDepth d).sinkAfter (later.map (Entry.atDepth d)) = r.sinkAfter later := by
  cases later <;> rfl

theorem Cut.atDepth {r : CompiledRule} {before later : List Entry} (h : net.Cut r before later)
    (d : Nat) :
    (net.atDepth d).Cut (r.atDepth d) (before.map (Entry.atDepth d))
    (later.map (Entry.atDepth d)) := by
  refine ⟨List.mem_map_of_mem h.mem, ?_⟩
  rw [← List.map_append, ← h.split]
  rfl

theorem allEntries_atDepth (net : Network) (d : Nat) :
    (net.atDepth d).allEntries = net.allEntries.map (Entry.atDepth d) := by
  rw [allEntries, allEntries, List.map_flatMap, atDepth, List.flatMap_map]
  rfl

theorem allJoins_atDepth (net : Network) (d : Nat) :
    (net.atDepth d).allJoins = net.allJoins.map (Entry.atDepth d) := by
  rw [allJoins, allJoins, List.map_flatMap, atDepth, List.flatMap_map]
  rfl

theorem mem_allJoins_atDepth {e : Entry} (he : e ∈ net.allJoins) (d : Nat) :
    e.atDepth d ∈ (net.atDepth d).allJoins := by
  rw [allJoins_atDepth]
  exact List.mem_map_of_mem he

theorem splitAt?_atDepth (n : NodeId) (chain : List Entry) :
    splitAt? n (chain.map (Entry.atDepth d)) =
      (splitAt? n chain).map fun (e, later) => (e.atDepth d, later.map (Entry.atDepth d)) := by
  induction chain with
  | nil => rfl
  | cons e rest ih =>
      rw [List.map_cons, splitAt?, splitAt?, show (e.atDepth d).node = e.node from rfl]
      split
      · rfl
      · exact ih

theorem place?_atDepth (net : Network) (d : Nat) (n : NodeId) :
    (net.atDepth d).place? n = (net.place? n).map (Place.atDepth d) := by
  unfold place? atDepth
  rw [List.findSome?_map, List.map_findSome?]
  refine congrArg (fun f => List.findSome? f net.rules) (funext fun r => ?_)
  show (splitAt? n (r.entries.map (Entry.atDepth d))).map _ = _
  rw [splitAt?_atDepth]
  simp only [Function.comp_apply, Option.map_map]
  rfl

theorem place?_atDepth_of_eq {n : NodeId} {place : Place} (hplace : net.place? n = some place)
    (d : Nat) : (net.atDepth d).place? n = some (place.atDepth d) := by
  rw [place?_atDepth, hplace]
  rfl

theorem entry?_atDepth (net : Network) (d : Nat) (n : NodeId) :
    Network.entry? (net.atDepth d) n = Option.map (Entry.atDepth d) ( net.entry? n) := by
  unfold entry?
  rw [allEntries_atDepth, List.find?_map]
  rfl

theorem ruleNamed?_atDepth (net : Network) (d : Nat) (name : String) :
    (net.atDepth d).ruleNamed? name = (net.ruleNamed? name).map (CompiledRule.atDepth d) := by
  rw [ruleNamed?, ruleNamed?, atDepth, List.find?_map]
  rfl

/-- Without keys no join has an index. -/
theorem isIndexed_atDepth_zero {e : Entry} (he : e ∈ (net.atDepth 0).allJoins) :
    e.condition.isIndexed = false := by
  rw [allJoins_atDepth] at he
  obtain ⟨e₀, -, rfl⟩ := List.mem_map.mp he
  rfl

/-! ## Facts in the network -/

/-- **A fact takes the same ways.** -/
theorem routesAlike_atDepth (net : Network) (d : Nat) : net.RoutesAlike (net.atDepth d) := by
  refine ⟨fun f => rfl, fun n f => ?_⟩
  rw [checkEntry, checkEntry, entry?_atDepth]
  cases net.entry? n <;> rfl

theorem isAffected_atDepth (net : Network) (d : Nat) (n : NodeId) (changed : List String) :
    (net.atDepth d).isAffected n changed = net.isAffected n changed := by
  rw [isAffected, isAffected, entry?_atDepth]
  cases net.entry? n <;> rfl

end Network

end RuleMatching
