import RuleMatching.Session.State

set_option autoImplicit false

/-! # Stores of matches

The work of a call goes through a `MatchStore`: it asks which matches and facts there are at the
nodes and changes them one at a time, whatever they are kept in. What a call does with them is told
once for all stores (`RuleMatching.Propagation`). A session keeps the state of a store between two
calls (`SessionState`). -/

namespace RuleMatching

/-- Matches and memories that the work of a call can reach. -/
class MatchStore (π : Type) where
  -- Matches.
  tuple? : π → TupleId → Option Tuple
  /-- The facts of a match in the order of the patterns. -/
  handles : π → TupleId → List Handle
  /-- The matches that extend a match by one pattern, the newest first. -/
  children : π → TupleId → List TupleId
  /-- The number of matches of all sizes. -/
  size : π → Nat
  /-- Creates a match, and answers its reference. -/
  create : Handle → Option TupleId → NodeId → Option NodeId → π → TupleId × π
  /-- Gives up a match that has no extensions. -/
  release : TupleId → π → π

  -- Memories of adapters.
  adapters : π → FiniteMap NodeId AdapterMemory
  setAdapters : FiniteMap NodeId AdapterMemory → π → π

  -- Memories of joins.
  /-- The matches on the left of a join that can join a fact with the given key. -/
  waiting? : π → NodeId → Option IndexKey → Option (List TupleId)
  /-- The facts on the right of a join that can join a match with the given key. -/
  facing? : π → NodeId → Option IndexKey → Option (List Handle)
  /-- Whether there is a join at the node that has the fact on its right. -/
  hasRight : π → NodeId → Handle → Bool
  /-- Stores a match on the left of a join, which may refuse it. -/
  storeLeft? : NodeId → Option IndexKey → TupleId → π → Option π
  /-- Takes what is at the location from the left of a join; nothing changes if there is nothing. -/
  removeLeft? : NodeId → Location → π → Option π
  /-- Stores a fact on the right of a join, which may refuse it. -/
  storeRight? : NodeId → Option IndexKey → Handle → π → Option π
  /-- Takes a fact from the right of a join, and answers the matches made with it, newest first. -/
  takeRight? : NodeId → Handle → π → Option (List TupleId × π)
  /-- Notes that a join has made the match with the fact. -/
  linkMade : NodeId → Handle → TupleId → π → π
  /-- Takes a match off those that a join has made with the fact. -/
  unlinkMade : NodeId → Handle → TupleId → π → π

  -- Memories of terminals.
  /-- Stores a full match at a terminal. -/
  storeFull? : NodeId → TupleId → π → Option π
  /-- Takes the full match at the location from a terminal, if the terminal has it. -/
  removeFull? : NodeId → Location → π → Option π

  -- Account of the work.
  events : π → List ActivationEvent
  tally : (TupleCounters → TupleCounters) → π → π
  emit : ActivationEvent → π → π

/-- What a session keeps between two calls: the state `σ` of a store `π`. -/
class SessionState (σ : Type) (π : outParam Type) where
  /-- The state without facts. -/
  ofNetwork : Network → σ
  /-- Whether the entry holds the fact. -/
  holds : σ → NodeId → Handle → Bool
  /-- The store at the beginning of a call, after the given events. -/
  resume : σ → List ActivationEvent → π
  state : π → σ

end RuleMatching
