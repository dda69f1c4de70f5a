import RuleMatching.Activation
import RuleMatching.Network.Basic

set_option autoImplicit false

/-! # The memories of a session

Each stateful node of the network has a memory of its own kind. An adapter knows the one-fact match
of each of its facts; a join keeps the matches that wait for a further fact on its left and the
facts of its pattern on its right; a terminal keeps the full matches. -/

namespace RuleMatching

/-- How often items were added to and removed from the two sides of a node. -/
structure NodeCounters where
  leftAdds : Nat := 0
  leftRemoves : Nat := 0
  rightAdds : Nat := 0
  rightRemoves : Nat := 0
deriving DecidableEq, Repr, Inhabited

namespace NodeCounters

def mutations (c : NodeCounters) : Nat := c.leftAdds + c.leftRemoves + c.rightAdds + c.rightRemoves

def add (a b : NodeCounters) : NodeCounters :=
  ⟨a.leftAdds + b.leftAdds, a.leftRemoves + b.leftRemoves, a.rightAdds + b.rightAdds,
    a.rightRemoves + b.rightRemoves⟩

def toJson (c : NodeCounters) : Json :=
  .object [("left_adds", .nat c.leftAdds), ("left_removes", .nat c.leftRemoves),
    ("right_adds", .nat c.rightAdds), ("right_removes", .nat c.rightRemoves)]

def addLeft (c : NodeCounters) : NodeCounters := { c with leftAdds := c.leftAdds + 1 }

def removeLeft (c : NodeCounters) : NodeCounters := { c with leftRemoves := c.leftRemoves + 1 }

def addRight (c : NodeCounters) : NodeCounters := { c with rightAdds := c.rightAdds + 1 }

def removeRight (c : NodeCounters) : NodeCounters := { c with rightRemoves := c.rightRemoves + 1 }

end NodeCounters

/-- The memory of an adapter: the one-fact match of each of its facts. -/
structure AdapterMemory where
  roots : FiniteMap Handle TupleId
  counters : NodeCounters

/-- A fact in the right memory of a join. -/
structure RightEntry where
  location : Location
  /-- The matches that the join has made with the fact, the newest first. -/
  made : List TupleId

/-- The memory of a join. -/
structure JoinMemory where
  left : Memory TupleId
  right : Memory Handle
  rightEntries : FiniteMap Handle RightEntry
  counters : NodeCounters

/-- The memory of a terminal: the full matches. -/
structure TerminalMemory where
  tuples : SlotMap TupleId
  counters : NodeCounters

/-- How many matches were made and discarded, and how many of them were full. -/
structure TupleCounters where
  created : Nat := 0
  deleted : Nat := 0
  activations : Nat := 0
  deactivations : Nat := 0
deriving DecidableEq, Repr, Inhabited

namespace TupleCounters

def create (c : TupleCounters) : TupleCounters := { c with created := c.created + 1 }

def delete (c : TupleCounters) : TupleCounters := { c with deleted := c.deleted + 1 }

def activate (c : TupleCounters) : TupleCounters := { c with activations := c.activations + 1 }

def deactivate (c : TupleCounters) : TupleCounters :=
  { c with deactivations := c.deactivations + 1 }

end TupleCounters

/-- The matches of a session and where they are stored. -/
structure MatchState where
  arena : Arena
  adapters : FiniteMap NodeId AdapterMemory
  joins : FiniteMap NodeId JoinMemory
  terminals : FiniteMap NodeId TerminalMemory
  counters : TupleCounters

/-- The kind of memory that a join with the given condition has. -/
def JoinCondition.memoryKind (c : JoinCondition) : MemoryKind :=
  if c.isIndexed then .hashed else .linear

namespace MatchState

def emptyAdapter : AdapterMemory := ⟨.empty, {}⟩

def emptyJoin (c : JoinCondition) : JoinMemory :=
  ⟨.ofKind c.memoryKind, .ofKind c.memoryKind, .empty, {}⟩

def emptyTerminal : TerminalMemory := ⟨.empty, {}⟩

/-- Adds empty memories for the nodes of a rule. -/
def addRule (s : MatchState) (r : CompiledRule) : MatchState :=
  { s with
    adapters := s.adapters.insert r.first.node emptyAdapter
    joins := r.joins.foldl (fun m e => m.insert e.node (emptyJoin e.condition)) s.joins
    terminals := s.terminals.insert r.terminal emptyTerminal }

/-- The state without facts. -/
def ofNetwork (net : Network) : MatchState :=
  net.rules.foldl addRule ⟨.empty, .empty, .empty, .empty, {}⟩

/-- Whether the entry holds the fact. -/
def holds (s : MatchState) (node : NodeId) (h : Handle) : Bool :=
  ((s.adapters.get? node).map (·.roots.contains h)).getD false
    || ((s.joins.get? node).map (·.rightEntries.contains h)).getD false

/-- Whether there is a join at the node that has the fact on its right. -/
def hasRight (s : MatchState) (node : NodeId) (h : Handle) : Bool :=
  ((s.joins.get? node).map (·.rightEntries.contains h)).getD false

/-- The number of matches that wait or end at the node. -/
def leftCount (s : MatchState) (node : NodeId) : Nat :=
  ((s.adapters.get? node).map (·.roots.size)).getD
    0 + ((s.joins.get? node).map (·.left.size)).getD
    0 + ((s.terminals.get? node).map (·.tuples.size)).getD 0

/-- The number of facts on the right of the node. -/
def rightCount (s : MatchState) (node : NodeId) : Nat :=
  ((s.joins.get? node).map (·.right.size)).getD 0

/-- The counters of the node; of a node without memory all are zero. -/
def nodeCounters (s : MatchState) (node : NodeId) : NodeCounters :=
  ((s.adapters.get? node).map AdapterMemory.counters <|>
    (s.joins.get? node).map JoinMemory.counters <|>
    (s.terminals.get? node).map TerminalMemory.counters).getD {}

/-- The full matches at a terminal, in the order of their creation. -/
def terminalTuples (s : MatchState) (node : NodeId) : List TupleId :=
  ((s.terminals.get? node).map (·.tuples.toList)).getD []

end MatchState

/-- The matches of a session while a call is at work, with the events so far. -/
structure Propagation extends MatchState where
  events : List ActivationEvent

end RuleMatching
