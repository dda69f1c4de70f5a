import RuleMatching.Config
import RuleMatching.Constraint.FieldTest
import RuleMatching.Constraint.JoinCondition
import RuleMatching.Network.Sharing

set_option autoImplicit false

/-! # The network of a rule set

Every rule has a chain of entries, one for each pattern, and a terminal. The first entry is an
adapter, the others are joins; matches of the first patterns wait at the join of the next pattern,
full matches at the terminal. A fact finds the entries it belongs to through the `Routes` of its
type, a tree of tests. -/

namespace RuleMatching

/-- A read of a field of a fact that a join will make. -/
structure FieldRead where
  node : NodeId
  accessor : Accessor
deriving DecidableEq, Repr

/-- The node at which the facts of one pattern enter a rule. -/
structure Entry where
  node : NodeId
  /-- The position of the pattern in its rule. The entry at position zero is an adapter. -/
  position : Nat
  factType : String
  /-- What a fact must satisfy beside the facts of earlier patterns. -/
  condition : JoinCondition
  /-- The reads of the pattern's fact that the joins of the rule make, in the order of joins. -/
  reads : List FieldRead

/-- The names of the fields that the joins of the rule read in the pattern's fact, in order. -/
def Entry.relevantFields (e : Entry) : List String :=
  (NameMap.ofList (e.reads.map fun r => (r.accessor.field, ()))).names

/-- The nodes of a rule. -/
structure CompiledRule where
  id : RuleId
  name : String
  /-- The adapter. -/
  first : Entry
  /-- The joins of the patterns after the first. -/
  joins : List Entry
  terminal : NodeId

namespace CompiledRule

/-- The entries in the order of the patterns. -/
def entries (r : CompiledRule) : List Entry := r.first :: r.joins

/-- The number of patterns. -/
def arity (r : CompiledRule) : Nat := r.entries.length

/-- The node to which an entry followed by `later` passes on its matches. -/
def sinkAfter (r : CompiledRule) (later : List Entry) : NodeId :=
  match later with
  | e :: _ => e.node
  | [] => r.terminal

end CompiledRule

/-- The tests that lead the facts of one type to entries. At each level there are entries, reached
by every fact that comes so far, and tests, below which go the facts that pass. -/
inductive Routes where
  | nil
  | entry (node : NodeId) (rest : Routes)
  | test (node : NodeId) (test : FieldTest) (below rest : Routes)

namespace Routes

/-- Appends the entries and tests of another level. -/
def append : Routes → Routes → Routes
  | nil, s => s
  | entry n rest, s => entry n (rest.append s)
  | test n t below rest, s => test n t below (rest.append s)

/-- What is below the test with the given node on this level. -/
def under (level : Routes) (node : NodeId) : Routes :=
  match level with
  | nil => nil
  | entry _ rest => rest.under node
  | test n _ below rest => if n = node then below else rest.under node

/-- Replaces what is below the test with the given node on this level. -/
def setUnder (level : Routes) (node : NodeId) (new : Routes) : Routes :=
  match level with
  | nil => nil
  | entry n rest => entry n (rest.setUnder node new)
  | test n t below rest =>
    if n = node then test n t new rest else test n t below (rest.setUnder node new)

/-- All entries, in the order in which a fact reaches them. -/
def entries : Routes → List NodeId
  | nil => []
  | entry n rest => n :: rest.entries
  | test _ _ below rest => below.entries ++ rest.entries

/-- All tests with their nodes. -/
def tests : Routes → List (NodeId × FieldTest)
  | nil => []
  | entry _ rest => rest.tests
  | test n t below rest => (n, t) :: below.tests ++ rest.tests

/-- The entries that the fact reaches. The tests on its way are tried in order; one that cannot be
evaluated ends the search. -/
def matching (f : Fact) : Routes → Except NodeFailure (List NodeId)
  | nil => .ok []
  | entry n rest => do return n :: (← matching f rest)
  | test n t below rest => do
    match t.isAllowed f with
    | .error cause => throw ⟨n, cause⟩
    | .ok true => return (← matching f below) ++ (← matching f rest)
    | .ok false => matching f rest

end Routes

/-- The node at which the facts of one type enter the network. -/
structure ObjectType where
  node : NodeId
  routes : Routes

/-- A compiled rule set. -/
structure Network where
  objectTypes : FiniteMap String ObjectType
  rules : List CompiledRule
  config : Config
  schemas : SchemaRegistry
  sharing : SharingCounts
  nodeCount : Nat

namespace Network

/-- The node of a type of facts that some rule mentions. -/
def objectType? (net : Network) (factType : String) : Option ObjectType :=
  net.objectTypes.get? factType

/-- The entries for facts of the given type, in the order of their routes. -/
def entriesFor (net : Network) (factType : String) : List NodeId :=
  match net.objectType? factType with
  | some o => o.routes.entries
  | none => []

def rule? (net : Network) (id : RuleId) : Option CompiledRule := net.rules[id]?

/-- The first rule of the given name. -/
def ruleNamed? (net : Network) (name : String) : Option CompiledRule :=
  net.rules.find? (·.name == name)

/-- The entries of all rules, rule by rule. -/
def allEntries (net : Network) : List Entry := net.rules.flatMap CompiledRule.entries

/-- All joins, rule by rule. -/
def allJoins (net : Network) : List Entry := net.rules.flatMap CompiledRule.joins

def joinCount (net : Network) : Nat := net.allJoins.length

/-- The number of joins with an index. -/
def indexedJoinCount (net : Network) : Nat := (net.allJoins.filter (·.condition.isIndexed)).length

/-- The entry with the given node. -/
def entry? (net : Network) (node : NodeId) : Option Entry := net.allEntries.find? (·.node == node)

/-- An entry in its rule, with the entries that come after it. -/
structure Place where
  rule : CompiledRule
  entry : Entry
  later : List Entry

/-- Splits a chain of entries at the one with the given node. -/
def splitAt? (node : NodeId) : List Entry → Option (Entry × List Entry)
  | [] => none
  | e :: later => if e.node = node then some (e, later) else splitAt? node later

/-- The place of the entry with the given node. -/
def place? (net : Network) (node : NodeId) : Option Place :=
  net.rules.findSome? fun r => (splitAt? node r.entries).map fun (e, later) => ⟨r, e, later⟩

/-! ## Facts in the network -/

/-- The entries that the fact reaches. -/
def matchingEntries (net : Network) (f : Fact) : Except NodeFailure (List NodeId) :=
  match net.objectType? f.factType with
  | some o => o.routes.matching f
  | none => .ok []

/-- Makes the given reads up to the first that fails. -/
def tryReads (f : Fact) : List FieldRead → Except NodeFailure Unit
  | [] => .ok ()
  | r :: rest =>
    match r.accessor.read f with
    | .ok _ => tryReads f rest
    | .error cause => .error ⟨r.node, cause⟩

/-- Whether the joins of the rule will be able to read the fact at the given entry. -/
def checkEntry (net : Network) (node : NodeId) (f : Fact) : Except NodeFailure Unit :=
  match net.entry? node with
  | some e => tryReads f e.reads
  | none => .ok ()

/-- Whether a change of the given fields concerns the entry. -/
def isAffected (net : Network) (node : NodeId) (changed : List String) : Bool :=
  match net.entry? node with
  | some e => changed.any fun field => e.reads.any (·.accessor.field == field)
  | none => true

end Network

end RuleMatching
