import RuleMatching.Arena.Slots
import RuleMatching.Memory.Linked
import RuleMatching.Session.Basic

set_option autoImplicit false

/-! # Matches in slots

A `SlotPropagation` keeps its matches in the slots of a `SlotArena` and the memories of its nodes in
linked lists. The extensions of a match are found from its newest extension on, the matches that a
join has made with a fact from the newest one on, which is noted beside the fact. Every slot counts
its uses in 32 bits. -/

namespace RuleMatching

/-- A fact in the right memory of a join. -/
structure LinkedRightEntry where
  location : LinkedLocation
  /-- The newest match that the join has made with the fact. -/
  newest : Option TupleId

/-- The memory of a join. -/
structure LinkedJoinMemory where
  left : LinkedMemory TupleId
  right : LinkedMemory Handle
  rightEntries : FiniteMap Handle LinkedRightEntry
  counters : NodeCounters

/-- The memory of a terminal: the full matches. -/
structure LinkedTerminalMemory where
  tuples : Slab TupleId
  counters : NodeCounters

/-- The matches of a session and where they are stored. -/
structure SlotState where
  arena : SlotArena
  adapters : FiniteMap NodeId AdapterMemory
  joins : FiniteMap NodeId LinkedJoinMemory
  terminals : FiniteMap NodeId LinkedTerminalMemory
  counters : TupleCounters

namespace SlotState

def emptyJoin (c : JoinCondition) : LinkedJoinMemory :=
  ⟨.ofKind c.memoryKind, .ofKind c.memoryKind, .empty, {}⟩

def emptyTerminal : LinkedTerminalMemory := ⟨.empty, {}⟩

/-- Adds empty memories for the nodes of a rule. -/
def addRule (s : SlotState) (r : CompiledRule) : SlotState :=
  { s with
    adapters := s.adapters.insert r.first.node MatchState.emptyAdapter
    joins := r.joins.foldl (fun m e => m.insert e.node (emptyJoin e.condition)) s.joins
    terminals := s.terminals.insert r.terminal emptyTerminal }

/-- The state without facts. -/
def ofNetwork (net : Network) : SlotState :=
  net.rules.foldl addRule ⟨.empty, .empty, .empty, .empty, {}⟩

/-- Whether there is a join at the node that has the fact on its right. -/
def hasRight (s : SlotState) (node : NodeId) (h : Handle) : Bool :=
  ((s.joins.get? node).map (·.rightEntries.contains h)).getD false

/-- Whether the entry holds the fact. -/
def holds (s : SlotState) (node : NodeId) (h : Handle) : Bool :=
  ((s.adapters.get? node).map (·.roots.contains h)).getD false || s.hasRight node h

/-- The number of matches that wait or end at the node. -/
def leftCount (s : SlotState) (node : NodeId) : Nat :=
  ((s.adapters.get? node).map (·.roots.size)).getD
    0 + ((s.joins.get? node).map (·.left.size)).getD
    0 + ((s.terminals.get? node).map (·.tuples.count)).getD 0

/-- The number of facts on the right of the node. -/
def rightCount (s : SlotState) (node : NodeId) : Nat :=
  ((s.joins.get? node).map (·.right.size)).getD 0

/-- The counters of the node; of a node without memory all are zero. -/
def nodeCounters (s : SlotState) (node : NodeId) : NodeCounters :=
  ((s.adapters.get? node).map AdapterMemory.counters <|>
    (s.joins.get? node).map LinkedJoinMemory.counters <|>
    (s.terminals.get? node).map LinkedTerminalMemory.counters).getD {}

/-- The full matches at a terminal, in the order of their creation. -/
def terminalTuples (s : SlotState) (node : NodeId) : List TupleId :=
  ((s.terminals.get? node).map (·.tuples.toList)).getD []

end SlotState

/-- The matches of a session while a call is at work, with the events so far. -/
structure SlotPropagation extends SlotState where
  events : List ActivationEvent

namespace SlotPropagation

/-- Stores a match on the left of a join. -/
def storeLeft? (node : NodeId) (key : Option IndexKey) (t : TupleId) (p : SlotPropagation) :
    Option SlotPropagation := do
  let m ← p.joins.get? node
  let (location, left) ← m.left.add? key t
  return { p with
    joins := p.joins.insert node { m with left, counters := m.counters.addLeft }
    arena := p.arena.setLocation t location.counted }

/-- Takes what is at the location from the left of a join; nothing changes if there is nothing. -/
def removeLeft? (node : NodeId) (l : Location) (p : SlotPropagation) : Option SlotPropagation := do
  let m ← p.joins.get? node
  match m.left.remove? l.kept with
  | some (_, left) =>
    return { p with
      joins := p.joins.insert node { m with left, counters := m.counters.removeLeft } }
  | none => return p

/-- Stores a fact on the right of a join. -/
def storeRight? (node : NodeId) (key : Option IndexKey) (h : Handle) (p : SlotPropagation) :
    Option SlotPropagation := do
  let m ← p.joins.get? node
  let (location, right) ← m.right.add? key h
  return { p with
    joins := p.joins.insert node
      { m with
        right
        rightEntries := m.rightEntries.insert h ⟨location, none⟩
        counters := m.counters.addRight } }

/-- Takes a fact from the right of a join, and answers the matches made with it, newest first. -/
def takeRight? (node : NodeId) (h : Handle) (p : SlotPropagation) :
    Option (List TupleId × SlotPropagation) := do
  let m ← p.joins.get? node
  let e ← m.rightEntries.get? h
  -- A location at which there is nothing removes nothing.
  let right := match m.right.remove? e.location with
    | some (_, right) => right
    | none => m.right
  return (p.arena.thread e.newest, { p with
    joins := p.joins.insert node
      { m with
        right
        rightEntries := m.rightEntries.erase h
        counters := m.counters.removeRight } })

/-- Changes the thread of the matches that a join has made with a fact, if the fact is on the right
of the join: `f` answers where the thread starts then. -/
def modifyMade (node : NodeId) (h : Handle)
    (f : SlotArena → Option TupleId → Option TupleId × SlotArena) (p : SlotPropagation) :
    SlotPropagation :=
  match (p.joins.get? node).bind fun m => (m.rightEntries.get? h).map fun e => (m, e) with
  | some (m, e) =>
    let (newest, arena) := f p.arena e.newest
    { p with
      arena
      joins := p.joins.insert node
        { m with rightEntries := m.rightEntries.insert h { e with newest } } }
  | none => p

/-- Stores a full match at a terminal. -/
def storeFull? (node : NodeId) (t : TupleId) (p : SlotPropagation) : Option SlotPropagation := do
  let m ← p.terminals.get? node
  let (entry, tuples) := m.tuples.add t
  return { p with
    terminals := p.terminals.insert node { m with tuples, counters := m.counters.addLeft }
    arena := p.arena.setLocation t (LinkedLocation.counted ⟨none, entry⟩) }

/-- Takes the full match at the location from a terminal, if the terminal has it. -/
def removeFull? (node : NodeId) (l : Location) (p : SlotPropagation) : Option SlotPropagation := do
  let m ← p.terminals.get? node
  let (_, tuples) ← m.tuples.remove? l.slot.kept
  return { p with
    terminals := p.terminals.insert node { m with tuples, counters := m.counters.removeLeft } }

instance : MatchStore SlotPropagation where
  tuple? p t := (p.arena.get? t).map LinkedTuple.toTuple
  handles p := p.arena.handles
  children p := p.arena.children
  size p := p.arena.count
  create h parent sink origin p :=
    let (t, arena) := p.arena.alloc h parent sink origin
    (t, { p with arena })
  release t p := { p with arena := (p.arena.release t).2 }
  adapters p := p.adapters
  setAdapters adapters p := { p with adapters }
  waiting? p node key := (p.joins.get? node).map (·.left.candidates key)
  facing? p node key := (p.joins.get? node).map (·.right.candidates key)
  hasRight p := p.hasRight
  storeLeft? := storeLeft?
  removeLeft? := removeLeft?
  storeRight? := storeRight?
  takeRight? := takeRight?
  linkMade node h t := modifyMade node h fun arena newest => arena.link newest t
  unlinkMade node h t := modifyMade node h fun arena newest => arena.unlink newest t
  storeFull? := storeFull?
  removeFull? := removeFull?
  events p := p.events
  tally f p := { p with counters := f p.counters }
  emit event p := { p with events := p.events ++ [event] }

end SlotPropagation

instance : SessionState SlotState SlotPropagation where
  ofNetwork := .ofNetwork
  holds := SlotState.holds
  resume s events := ⟨s, events⟩
  state p := p.toSlotState

/-- A session that keeps its matches in slots. -/
abbrev SlotSession := Session SlotState

namespace SlotSession

def ofNetwork (net : Network) : SlotSession := ⟨net, .empty, SessionState.ofNetwork net, {}⟩

/-- The number of live matches of all sizes, as it was counted. -/
def tupleCount (s : SlotSession) : Nat := s.state.arena.count

/-- The full matches of a rule as lists of facts, in order. -/
def matchesOf (s : SlotSession) (rule : String) : List (List Handle) :=
  match s.network.ruleNamed? rule with
  | some r =>
    ((s.state.terminalTuples r.terminal).map s.state.arena.handles).mergeSort Session.isSorted
  | none => []

end SlotSession

end RuleMatching
