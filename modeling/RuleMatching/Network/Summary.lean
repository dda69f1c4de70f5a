import RuleMatching.Network.Basic

set_option autoImplicit false

/-! # Summaries of the nodes of a network -/

namespace RuleMatching

inductive NodeKind where
  | objectType
  | alpha
  | leftInputAdapter
  | join
  | terminal
deriving DecidableEq, Repr

namespace NodeKind

/-- The kind in texts. -/
def label : NodeKind → String
  | objectType => "object-type"
  | alpha => "alpha"
  | leftInputAdapter => "left-input-adapter"
  | join => "join"
  | terminal => "terminal"

/-- The kind in documents. -/
def name : NodeKind → String
  | objectType => "ObjectType"
  | alpha => "Alpha"
  | leftInputAdapter => "LeftInputAdapter"
  | join => "Join"
  | terminal => "Terminal"

/-- Whether nodes of the kind hold facts or matches. -/
def isStateful : NodeKind → Bool
  | leftInputAdapter | join | terminal => true
  | _ => false

end NodeKind

/-- What a node is and does. -/
structure NodeSummary where
  node : NodeId
  kind : NodeKind
  /-- The rule that the node belongs to, if only one can. -/
  rule : Option RuleId
  ruleName : Option String
  description : String
  indexed : Bool
  indexCount : Nat

namespace NodeSummary

/-- The members of the summary as a document. -/
def members (s : NodeSummary) : List (String × Json) :=
  [("node", .nat s.node), ("kind", .string s.kind.name),
    ("rule", (s.ruleName.map Json.string).getD .null), ("description", .string s.description)]

/-- Whether joins decide tests by an index, and how many. -/
def indexMembers (s : NodeSummary) : List (String × Json) :=
  [("indexed", .boolean s.indexed), ("index_count", .nat s.indexCount)]

def toJson (s : NodeSummary) : Json := .object (s.members ++ s.indexMembers)

/-- The text filled up with blanks on the left. -/
def padLeft (width : Nat) (s : String) : String :=
  String.ofList (List.replicate (width - s.length) ' ') ++ s

/-- The text filled up with blanks on the right. -/
def padRight (width : Nat) (s : String) : String :=
  s ++ String.ofList (List.replicate (width - s.length) ' ')

/-- The line of the node in a layout. -/
def line (s : NodeSummary) : String :=
  padLeft 5 (NodeId.display s.node) ++ " " ++ padRight 18 s.kind.label ++ " " ++ s.description
    ++ (match s.ruleName with
      | some name => " [" ++ name ++ "]"
      | none => "")
    ++ (if s.indexed then " (indexed on " ++ toString s.indexCount ++ ")" else "") ++ "\n"

/-- The layout of a network, one line to a node. -/
def layout (summaries : List NodeSummary) : String :=
  "=== Network Layout ===\n" ++ String.join (summaries.map line)

end NodeSummary

namespace CompiledRule

/-- The summaries of the joins followed by that of the terminal. -/
def summariesFrom (r : CompiledRule) : List Entry → List NodeSummary
  | [] =>
    [⟨r.terminal, .terminal, some r.id, some r.name, toString r.arity ++ " patterns", false, 0⟩]
  | e :: later =>
    ⟨e.node, .join, some r.id, some r.name,
      e.factType ++ " " ++ e.condition.display ++ " -> " ++ NodeId.display (r.sinkAfter later),
      e.condition.isIndexed, e.condition.keyCount⟩ :: r.summariesFrom later

def summaries (r : CompiledRule) : List NodeSummary :=
  ⟨r.first.node, .leftInputAdapter, some r.id, some r.name,
    "-> " ++ NodeId.display (r.sinkAfter r.joins), false, 0⟩ :: r.summariesFrom r.joins

end CompiledRule

namespace ObjectType

/-- The summaries of the node of a type and of the tests below it. -/
def summaries (factType : String) (o : ObjectType) : List NodeSummary :=
  ⟨o.node, .objectType, none, none, factType, false, 0⟩
    :: o.routes.tests.map fun (n, t) => ⟨n, .alpha, none, none, t.display, false, 0⟩

end ObjectType

namespace Network

/-- The summaries of all nodes, in the order of their numbers. -/
def summaries (net : Network) : List NodeSummary :=
  (net.rules.flatMap CompiledRule.summaries
    ++ net.objectTypes.entries.flatMap fun (factType, o) => o.summaries factType).mergeSort
      fun a b => a.node ≤ b.node

end Network

end RuleMatching
