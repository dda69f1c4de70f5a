import RuleMatching.Session.Store

set_option autoImplicit false

/-! # Matches found by searching

The store of a `Session` finds the extensions of a match by searching its arena, and lists with each
fact on the right of a join the matches that the join has made with it. -/

namespace RuleMatching

namespace Propagation

/-- Stores a match on the left of a join. -/
def storeLeft? (node : NodeId) (key : Option IndexKey) (t : TupleId) (p : Propagation) :
    Option Propagation := do
  let m ← p.joins.get? node
  let (location, left) ← m.left.add? key t
  return { p with
    joins := p.joins.insert node { m with left, counters := m.counters.addLeft }
    arena := Arena.setLocation p.arena t location }

/-- Takes what is at the location from the left of a join; nothing changes if there is nothing. -/
def removeLeft? (node : NodeId) (l : Location) (p : Propagation) : Option Propagation := do
  let m ← p.joins.get? node
  match m.left.remove? l with
  | some (_, left) =>
    return { p with
      joins := p.joins.insert node { m with left, counters := m.counters.removeLeft } }
  | none => return p

/-- Stores a fact on the right of a join. -/
def storeRight? (node : NodeId) (key : Option IndexKey) (h : Handle) (p : Propagation) :
    Option Propagation := do
  let m ← p.joins.get? node
  let (location, right) ← m.right.add? key h
  return { p with
    joins := p.joins.insert node
      { m with
        right
        rightEntries := m.rightEntries.insert h ⟨location, []⟩
        counters := m.counters.addRight } }

/-- Takes a fact from the right of a join, and answers the matches made with it, newest first. -/
def takeRight? (node : NodeId) (h : Handle) (p : Propagation) :
    Option (List TupleId × Propagation) := do
  let m ← p.joins.get? node
  let e ← m.rightEntries.get? h
  -- A location at which there is nothing removes nothing.
  let right := match m.right.remove? e.location with
    | some (_, right) => right
    | none => m.right
  return (e.made, { p with
    joins := p.joins.insert node
      { m with
        right
        rightEntries := m.rightEntries.erase h
        counters := m.counters.removeRight } })

/-- Changes the list of the matches that a join has made with a fact. -/
def modifyMade (node : NodeId) (h : Handle) (f : List TupleId → List TupleId) (p : Propagation) :
    Propagation :=
  { p with
    joins := p.joins.modify node fun m =>
      { m with rightEntries := m.rightEntries.modify h fun e => { e with made := f e.made } } }

/-- Stores a full match at a terminal. -/
def storeFull? (node : NodeId) (t : TupleId) (p : Propagation) : Option Propagation := do
  let m ← p.terminals.get? node
  return { p with
    terminals := p.terminals.insert node
      { m with tuples := m.tuples.add t, counters := m.counters.addLeft }
    arena := Arena.setLocation p.arena t ⟨none, m.tuples.next⟩ }

/-- Takes the full match at the location from a terminal, if the terminal has it. -/
def removeFull? (node : NodeId) (l : Location) (p : Propagation) : Option Propagation := do
  let m ← p.terminals.get? node
  if m.tuples.contains l.slot then
    return { p with
      terminals := p.terminals.insert node
        { m with tuples := m.tuples.remove l.slot, counters := m.counters.removeLeft } }
  else none

instance : MatchStore Propagation where
  tuple? p := p.arena.get?
  handles p := Arena.handles p.arena
  children p := Arena.children p.arena
  size p := p.arena.size
  create h parent sink origin p :=
    (p.arena.next, { p with arena := p.arena.alloc h parent sink origin })
  release t p := { p with arena := p.arena.remove t }
  adapters p := p.adapters
  setAdapters adapters p := { p with adapters }
  waiting? p node key := (p.joins.get? node).map (·.left.candidates key)
  facing? p node key := (p.joins.get? node).map (·.right.candidates key)
  hasRight p := p.hasRight
  storeLeft? := storeLeft?
  removeLeft? := removeLeft?
  storeRight? := storeRight?
  takeRight? := takeRight?
  linkMade node h t := modifyMade node h (t :: ·)
  unlinkMade node h t := modifyMade node h (·.erase t)
  storeFull? := storeFull?
  removeFull? := removeFull?
  events p := p.events
  tally f p := { p with counters := f p.counters }
  emit event p := { p with events := p.events ++ [event] }

end Propagation

instance : SessionState MatchState Propagation where
  ofNetwork := .ofNetwork
  holds := MatchState.holds
  resume s events := ⟨s, events⟩
  state p := p.toMatchState

end RuleMatching
