import RuleMatching.Network.Summary
import RuleMatching.Session.Basic

set_option autoImplicit false

/-! # Statistics of a session -/

namespace RuleMatching

def MemoryKind.name : MemoryKind → String
  | linear => "Linear"
  | hashed => "Hashed"

/-- All counters of the calls of a session. -/
structure CallStatistics where
  calls : CallCounters
  tuples : TupleCounters

namespace CallStatistics

/-- The counters in words. -/
def text (c : CallStatistics) : String :=
  "Inserts: " ++ toString c.calls.inserts
    ++ "\nUpdates: " ++ toString c.calls.updates ++ " (" ++ toString c.calls.skippedUpdates
    ++ " entry nodes skipped)"
    ++ "\nDeletes: " ++ toString c.calls.deletes
    ++ "\nTuples: " ++ toString c.tuples.created ++ " created, " ++ toString c.tuples.deleted
    ++ " deleted"
    ++ "\nActivations: " ++ toString c.tuples.activations ++ " activated, "
    ++ toString c.tuples.deactivations ++ " deactivated"
    ++ "\nPropagation errors: " ++ toString c.calls.propagationErrors

/-- The counters of matches by name. -/
def tupleMembers (c : CallStatistics) : List (String × Nat) :=
  [("tuples_created", c.tuples.created), ("tuples_deleted", c.tuples.deleted),
    ("activations", c.tuples.activations), ("deactivations", c.tuples.deactivations)]

/-- The counters of calls by name. -/
def callMembers (c : CallStatistics) : List (String × Nat) :=
  [("inserts", c.calls.inserts), ("updates", c.calls.updates), ("deletes", c.calls.deletes),
    ("skipped_updates", c.calls.skippedUpdates), ("propagation_errors", c.calls.propagationErrors)]

def toJson (c : CallStatistics) : Json :=
  .object ((c.callMembers ++ c.tupleMembers).map fun (name, n) => (name, .nat n))

/-- Named counters as they stand in the diagnostic text of a record. -/
def diagnosticFields (members : List (String × Nat)) : String :=
  ", ".intercalate (members.map fun (name, n) => name ++ ": " ++ toString n)

/-- The counters in the diagnostic text of a session. -/
def diagnostic (c : CallStatistics) : String :=
  "PropagationStats \x7b " ++ diagnosticFields c.callMembers ++ ", tuples: TupleCounters \x7b "
    ++ diagnosticFields c.tupleMembers ++ " \x7d \x7d"

end CallStatistics

/-- What a node is, and what it holds. -/
structure NodeStatistics where
  summary : NodeSummary
  memoryKind : Option MemoryKind
  leftCount : Nat
  rightCount : Nat
  leftBuckets : Nat
  rightBuckets : Nat
  counters : NodeCounters

namespace NodeStatistics

def toJson (n : NodeStatistics) : Json :=
  .object (n.summary.members
    ++ [("memory_kind", (n.memoryKind.map fun k => .string k.name).getD .null)]
    ++ n.summary.indexMembers
    ++ [("left_count", .nat n.leftCount), ("right_count", .nat n.rightCount),
      ("left_buckets", .nat n.leftBuckets), ("right_buckets", .nat n.rightBuckets),
      ("counters", n.counters.toJson)])

/-- The line on what the node holds. -/
def contentLine (n : NodeStatistics) : String :=
  if n.summary.kind = .join then
    "    " ++ (if n.summary.indexed then "hashed on " ++ toString n.summary.indexCount ++ " key(s)"
        else "linear")
      ++ ": left " ++ toString n.leftCount ++ " in " ++ toString n.leftBuckets ++
        " bucket(s), right "
      ++ toString n.rightCount ++ " in " ++ toString n.rightBuckets ++ " bucket(s)\n"
  else "    tuples: " ++ toString n.leftCount ++ "\n"

/-- The lines of the node in a report. -/
def lines (n : NodeStatistics) : String :=
  "  " ++ NodeId.display n.summary.node ++ " " ++ n.summary.kind.label ++ " " ++
    n.summary.description ++ (match n.summary.ruleName with
      | some name => " [" ++ name ++ "]"
      | none => "") ++ "\n"
    ++ n.contentLine
    ++ "    left +" ++ toString n.counters.leftAdds ++ "/-" ++ toString n.counters.leftRemoves
    ++ ", right +" ++ toString n.counters.rightAdds ++ "/-" ++
      toString n.counters.rightRemoves ++ "\n"

end NodeStatistics

/-- The statistics of a session. -/
structure Statistics where
  nodes : List NodeStatistics
  facts : Nat
  tuples : Nat
  calls : CallStatistics
  sharing : SharingCounts

namespace Statistics

def toJson (s : Statistics) : Json :=
  .object [("nodes", .array (s.nodes.map NodeStatistics.toJson)), ("facts", .nat s.facts),
    ("tuples", .nat s.tuples), ("propagation", s.calls.toJson), ("sharing", s.sharing.toJson)]

/-- The counters of all nodes together. -/
def totalCounters (s : Statistics) : NodeCounters :=
  s.nodes.foldl (fun total n => total.add n.counters) {}

/-- The joins among the nodes. -/
def joins (s : Statistics) : List NodeStatistics := s.nodes.filter (·.summary.kind = .join)

/-- The report of the session. -/
def report (s : Statistics) : String :=
  "=== Network Statistics ===\nFacts: " ++ toString s.facts ++ "\nTuples: " ++ toString s.tuples
    ++ "\nAlpha nodes: " ++ toString s.sharing.created ++ " created, " ++ toString s.sharing.shared
    ++ " shared (" ++ s.sharing.percentText ++ "%)\n\n" ++ s.calls.text ++ "\n\nNodes:\n"
    ++ String.join ((s.nodes.filter (·.summary.kind.isStateful)).map NodeStatistics.lines)

end Statistics

namespace Session

/-- The counters of all calls so far. -/
def callStatistics (s : Session) : CallStatistics := ⟨s.calls, s.state.counters⟩

/-- The statistics of one node. -/
def nodeStatistics (s : Session) (summary : NodeSummary) : NodeStatistics :=
  let join := s.state.joins.get? summary.node
  { summary
    memoryKind := join.map (·.left.kind)
    leftCount := s.state.leftCount summary.node
    rightCount := s.state.rightCount summary.node
    leftBuckets := (join.map (·.left.bucketCount)).getD 0
    rightBuckets := (join.map (·.right.bucketCount)).getD 0
    counters := s.state.nodeCounters summary.node }

def statistics (s : Session) : Statistics :=
  ⟨s.network.summaries.map s.nodeStatistics, s.factCount, s.tupleCount, s.callStatistics,
    s.network.sharing⟩

/-- The session in a diagnostic text. -/
def diagnostic (s : Session) : String :=
  "WorkingMemory \x7b facts: " ++ toString s.factCount ++ ", tuples: " ++ toString s.tupleCount
    ++ ", stats: " ++ s.callStatistics.diagnostic ++ ", .. \x7d"

end Session

end RuleMatching
