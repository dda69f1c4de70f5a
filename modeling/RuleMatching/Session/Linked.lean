import RuleMatching.Arena.Linked
import RuleMatching.Session.Basic

set_option autoImplicit false

/-! # Matches found along links

A session finds the extensions of a match by searching the arena and lists the matches that each
join has made. A `LinkedPropagation` finds both by following the links of tuples instead. A new
match is linked to the other extensions of its parent and to the others that its join has made
with its fact, and a match that goes is taken out of both threads, unless its fact has left the
join already: then what starts at the fact is gone, and the matches made with it are removed one
after the other. -/

namespace RuleMatching

/-- The matches of a session with the links of its tuples. -/
structure LinkedState extends MatchState where
  links : Links

/-- The matches of a session while a call is at work, with the links of its tuples. -/
structure LinkedPropagation extends Propagation where
  links : Links

namespace LinkedPropagation

/-- The extensions of a tuple, the newest first. -/
def children (p : LinkedPropagation) (t : TupleId) : List TupleId :=
  p.links.siblings.thread p.arena t

/-- The same links beside the outcome of a change of the matches, if there is one. -/
def withMatches (p : LinkedPropagation) (q : Option Propagation) : Option LinkedPropagation :=
  q.map fun q => { p with toPropagation := q }

/-- Creates a match and links it to the other extensions of its parent. -/
def create (h : Handle) (parent : Option TupleId) (sink : NodeId) (origin : Option NodeId)
    (p : LinkedPropagation) : TupleId × LinkedPropagation :=
  let (t, q) := MatchStore.create h parent sink origin p.toPropagation
  (t, { toPropagation := q
        links := { p.links with siblings := p.links.siblings.link q.arena parent t } })

/-- Takes a match out of the extensions of its parent and gives it up. -/
def release (t : TupleId) (p : LinkedPropagation) : LinkedPropagation :=
  { toPropagation := MatchStore.release t p.toPropagation
    links :=
      { siblings :=
          ((p.links.siblings.unlink p.arena ((p.arena.get? t).bind Tuple.parent) t).forget
            t).restart t none
        fellows := p.links.fellows.forget t } }

/-- Links a match to the others that the join has made with the fact. -/
def linkMade (node : NodeId) (h : Handle) (t : TupleId) (p : LinkedPropagation) :
    LinkedPropagation :=
  { toPropagation := MatchStore.linkMade node h t p.toPropagation
    links :=
      if p.hasRight node h then
        { p.links with fellows := p.links.fellows.link p.arena (some (node, h)) t }
      else p.links }

/-- Takes a match out of the thread of its join and fact, if the fact is still on the right of the
join. -/
def unlinkMade (node : NodeId) (h : Handle) (t : TupleId) (p : LinkedPropagation) :
    LinkedPropagation :=
  { toPropagation := MatchStore.unlinkMade node h t p.toPropagation
    links :=
      if p.hasRight node h then
        { p.links with fellows := p.links.fellows.unlink p.arena (some (node, h)) t }
      else p.links }

/-- Stores a fact on the right of a join, which has made no match with it yet. -/
def storeRight? (node : NodeId) (key : Option IndexKey) (h : Handle) (p : LinkedPropagation) :
    Option LinkedPropagation :=
  (MatchStore.storeRight? node key h p.toPropagation).map fun q =>
    { toPropagation := q
      links := { p.links with fellows := p.links.fellows.restart (node, h) none } }

/-- Takes a fact from the right of a join, and with it the start of the thread of the matches made
with it. They are found from the newest on, which was noted beside the fact. -/
def takeRight? (node : NodeId) (h : Handle) (p : LinkedPropagation) :
    Option (List TupleId × LinkedPropagation) :=
  (MatchStore.takeRight? node h p.toPropagation).map fun (_, q) =>
    ((p.links.fellows.beside q.arena).thread (p.links.fellows.newest.get? (node, h)),
      { toPropagation := q
        links := { p.links with fellows := p.links.fellows.restart (node, h) none } })

instance : MatchStore LinkedPropagation where
  tuple? p := p.arena.get?
  handles p := Arena.handles p.arena
  children := children
  size p := p.arena.size
  create := create
  release := release
  adapters p := p.adapters
  setAdapters adapters p := { p with adapters }
  waiting? p := MatchStore.waiting? p.toPropagation
  facing? p := MatchStore.facing? p.toPropagation
  hasRight p := p.hasRight
  storeLeft? node key t p := p.withMatches (MatchStore.storeLeft? node key t p.toPropagation)
  removeLeft? node l p := p.withMatches (MatchStore.removeLeft? node l p.toPropagation)
  storeRight? := storeRight?
  takeRight? := takeRight?
  linkMade := linkMade
  unlinkMade := unlinkMade
  storeFull? node t p := p.withMatches (MatchStore.storeFull? node t p.toPropagation)
  removeFull? node l p := p.withMatches (MatchStore.removeFull? node l p.toPropagation)
  events p := p.events
  tally f p := { p with counters := f p.counters }
  emit event p := { p with events := p.events ++ [event] }

end LinkedPropagation

instance : SessionState LinkedState LinkedPropagation where
  ofNetwork net := ⟨.ofNetwork net, .empty⟩
  holds s := s.toMatchState.holds
  resume s events := ⟨⟨s.toMatchState, events⟩, s.links⟩
  state p := ⟨p.toMatchState, p.links⟩

/-- A session that follows the links of its tuples. -/
abbrev LinkedSession := Session LinkedState

namespace LinkedSession

def ofNetwork (net : Network) : LinkedSession :=
  ⟨net, .empty, SessionState.ofNetwork net, {}⟩

/-- The session without links. -/
def session (w : LinkedSession) : Session := { w with state := w.state.toMatchState }

end LinkedSession

end RuleMatching
