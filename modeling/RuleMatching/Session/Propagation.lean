import RuleMatching.FactStore
import RuleMatching.Session.Store

set_option autoImplicit false

/-! # Propagation

How a fact enters the matches of a rule at one of its entries (`Propagation.assertAt`) and how it
leaves them (`Propagation.retractAt`). A fact on the right of a join extends the matches that wait
on its left, a match on the left is extended by the facts on the right, and every extension goes on
to the next entry or, at the end of the chain, becomes an activation. A fact that leaves takes the
matches that it is part of with it, extensions first. -/

namespace RuleMatching

/-- What the work of a call on the matches of one rule depends on. -/
structure PropagationContext where
  facts : FactStore
  /-- The fact that the call is about. -/
  trigger : Handle
  rule : CompiledRule

namespace Propagation

open MatchStore

/-- The state that some work leads to, and the error that stopped it. -/
abbrev Result (π : Type := Propagation) := π × Option EngineError

variable {π : Type}

/-- Does some work for every item in turn, up to the first error. -/
def each {α : Type} (work : α → π → Result π) : List α → π → Result π
  | [], p => (p, none)
  | a :: rest, p =>
    match work a p with
    | (p, none) => each work rest p
    | (p, some err) => (p, some err)

/-- The items for which a test that can fail holds. -/
def select {α ε : Type} (test : α → Except ε Bool) : List α → Except ε (List α)
  | [] => .ok []
  | a :: rest => do
    if ← test a then return a :: (← select test rest) else select test rest

variable [MatchStore π]

/-! ## Facts -/

/-- A live fact. -/
def fact (ctx : PropagationContext) (h : Handle) : Except EngineError Fact :=
  match ctx.facts.get? h with
  | some f => .ok f
  | none => .error (.consistency (.unknownHandle h))

/-- The facts of a match in the order of patterns. -/
def tupleFacts (ctx : PropagationContext) (p : π) (t : TupleId) : Except EngineError (List Fact) :=
  (handles p t).mapM (fact ctx)

/-- The error of a call in which a read at the node fails. -/
def atNode {α : Type} (ctx : PropagationContext) (node : NodeId) (r : Except ReadError α) :
    Except EngineError α :=
  r.mapError fun cause => .propagation ctx.trigger ⟨node, cause⟩

/-- What the memory of a join answers; it is an error if there is no join at the node. -/
def atJoin {α : Type} (ctx : PropagationContext) (node : NodeId) : Option α → Except EngineError α
  | some answer => .ok answer
  | none => .error (.consistency (.missingMemoryEntry node ctx.trigger))

/-! ## Removing matches -/

/-- Takes a match out of the memory of its sink. A full match that goes is reported. -/
def unstore (rule : CompiledRule) (t : TupleId) (tuple : Tuple) (p : π) : π :=
  match tuple.location with
  | none => p
  | some l =>
    match removeLeft? tuple.sink l p with
    | some p => p
    | none =>
      -- The terminal answers for what it still has, so that nothing is deactivated twice.
      match removeFull? tuple.sink l p with
      | some q =>
        emit (.deactivated ⟨rule.id, rule.name, t, handles p t⟩) (tally TupleCounters.deactivate q)
      | none => p

/-- Takes a match off the list of those that its join has made with its last fact. -/
def forgetMade (t : TupleId) (tuple : Tuple) (p : π) : π :=
  match tuple.origin with
  | none => p
  | some node => unlinkMade node tuple.handle t p

/-- Removes a match that has no extensions. -/
def removeTuple (rule : CompiledRule) (p : π) (t : TupleId) : π :=
  match tuple? p t with
  | none => p
  | some tuple =>
    tally TupleCounters.delete (release t (forgetMade t tuple (unstore rule t tuple p)))

/-- Removes a match and its extensions, extensions first. There are no longer chains of extensions
than the given number. -/
def deleteWithin (rule : CompiledRule) : Nat → π → TupleId → π
  | 0, p, t => removeTuple rule p t
  | depth + 1, p, t => removeTuple rule ((children p t).foldl (deleteWithin rule depth) p) t

/-- Removes a match and all its extensions, extensions first. -/
def deleteTuple (rule : CompiledRule) (p : π) (t : TupleId) : π := deleteWithin rule (size p) p t

/-! ## Adding matches -/

/-- Creates a match, and answers its reference. -/
def newTuple (h : Handle) (parent : Option TupleId) (sink : NodeId) (origin : Option NodeId)
    (p : π) : TupleId × π :=
  let (t, p) := create h parent sink origin p
  (t, tally TupleCounters.create p)

/-- Stores a full match at the terminal and reports it. -/
def activate (ctx : PropagationContext) (t : TupleId) (p : π) : Result π :=
  match storeFull? ctx.rule.terminal t p with
  | none => (p, some (.consistency (.missingMemoryEntry ctx.rule.terminal ctx.trigger)))
  | some q =>
    (emit (.activated ⟨ctx.rule.id, ctx.rule.name, t, handles p t⟩)
      (tally TupleCounters.activate q), none)

/-- Extends a match by a fact on the right of the join at `node` and hands the extension on; if that
fails, the extension is removed again. -/
def extend (ctx : PropagationContext) (node sink : NodeId) (next : TupleId → π → Result π)
    (parent : TupleId) (h : Handle) (p : π) : Result π :=
  let (child, p) := newTuple h (some parent) sink (some node) p
  match next child (linkMade node h child p) with
  | (p, none) => (p, none)
  | (p, some err) => (deleteTuple ctx.rule p child, some err)

/-- The key of a match at a join, and the facts on the right that join it. -/
def leftMatches (ctx : PropagationContext) (e : Entry) (t : TupleId) (p : π) :
    Except EngineError (Option IndexKey × List Handle) := do
  let bound ← tupleFacts ctx p t
  let key ← atNode ctx e.node (e.condition.leftKey bound)
  let facing ← atJoin ctx e.node (facing? p e.node key)
  let handles ← select
    (fun h => do atNode ctx e.node (e.condition.isAllowed bound (← fact ctx h))) facing
  return (key, handles)

/-- The key of a fact at a join, and the matches on the left that it joins. -/
def rightMatches (ctx : PropagationContext) (e : Entry) (h : Handle) (p : π) :
    Except EngineError (Option IndexKey × List TupleId) := do
  let candidate ← fact ctx h
  let key ← atNode ctx e.node (e.condition.rightKey candidate)
  let waiting ← atJoin ctx e.node (waiting? p e.node key)
  if hasRight p e.node h then throw (.consistency (.duplicateHandle h))
  let tuples ← select
    (fun t => do atNode ctx e.node (e.condition.isAllowed (← tupleFacts ctx p t) candidate)) waiting
  return (key, tuples)

/-- Hands a match on to the rest of the chain of its rule: to the join of the next pattern, where it
is stored and extended by the facts on the right, or to the terminal. -/
def leftInsert (ctx : PropagationContext) : List Entry → TupleId → π → Result π
  | [], t, p => activate ctx t p
  | e :: later, t, p =>
    match leftMatches ctx e t p with
    | .error err => (p, some err)
    | .ok (key, handles) =>
      match storeLeft? e.node key t p with
      | none => (p, some (.consistency (.missingIndexKey e.node ctx.trigger)))
      | some p =>
        each (fun h p => extend ctx e.node (ctx.rule.sinkAfter later) (leftInsert ctx later) t h p)
          handles p

/-- Lets a fact enter at the adapter of its rule, as a match of one pattern. -/
def assertRoot (ctx : PropagationContext) (e : Entry) (later : List Entry) (h : Handle) (p : π) :
    Result π :=
  match (adapters p).get? e.node with
  | none => (p, some (.consistency (.missingMemoryEntry e.node h)))
  | some m =>
    if m.roots.contains h then (p, some (.consistency (.duplicateHandle h)))
    else
      let (root, p) := newTuple h none (ctx.rule.sinkAfter later) none p
      let p := setAdapters ((adapters p).insert e.node
        { m with roots := m.roots.insert h root, counters := m.counters.addLeft }) p
      match leftInsert ctx later root p with
      | (p, none) => (p, none)
      | (p, some err) =>
        let p := deleteTuple ctx.rule p root
        (setAdapters ((adapters p).modify e.node fun m =>
            { m with roots := m.roots.erase h, counters := m.counters.removeLeft }) p, some err)

/-- Lets a fact enter on the right of a join. -/
def rightInsert (ctx : PropagationContext) (e : Entry) (later : List Entry) (h : Handle) (p : π) :
    Result π :=
  match rightMatches ctx e h p with
  | .error err => (p, some err)
  | .ok (key, tuples) =>
    match storeRight? e.node key h p with
    | none => (p, some (.consistency (.missingIndexKey e.node h)))
    | some p =>
      each (fun t p => extend ctx e.node (ctx.rule.sinkAfter later) (leftInsert ctx later) t h p)
        tuples p

/-! ## A fact at an entry -/

/-- Lets a fact enter at one entry, if the joins of the rule can read it. -/
def assertAt (facts : FactStore) (place : Network.Place) (h : Handle) (p : π) : Result π :=
  let ctx : PropagationContext := ⟨facts, h, place.rule⟩
  match fact ctx h with
  | .error err => (p, some err)
  | .ok f =>
    match Network.tryReads f place.entry.reads with
    | .error failure => (p, some (.propagation h failure))
    | .ok () =>
      if place.entry.position = 0 then assertRoot ctx place.entry place.later h p
      else rightInsert ctx place.entry place.later h p

/-- Lets a fact leave an adapter: its match of one pattern goes. -/
def retractRoot (rule : CompiledRule) (node : NodeId) (h : Handle) (p : π) : Result π :=
  match ((adapters p).get? node).bind fun m => (m.roots.get? h).map fun root => (m, root) with
  | none => (p, some (.consistency (.missingMemoryEntry node h)))
  | some (m, root) =>
    let p := setAdapters ((adapters p).insert node
      { m with roots := m.roots.erase h, counters := m.counters.removeLeft }) p
    (deleteTuple rule p root, none)

/-- Lets a fact leave the right of a join: the matches made with it go, the newest first. -/
def rightRemove (rule : CompiledRule) (node : NodeId) (h : Handle) (p : π) : Result π :=
  match takeRight? node h p with
  | none => (p, some (.consistency (.missingMemoryEntry node h)))
  | some (made, p) => (made.foldl (deleteTuple rule) p, none)

/-- Lets a fact leave one entry. -/
def retractAt (place : Network.Place) (h : Handle) (p : π) : Result π :=
  if place.entry.position = 0 then retractRoot place.rule place.entry.node h p
  else rightRemove place.rule place.entry.node h p

/-! ## A fact at several entries -/

/-- Lets a fact leave some entries. -/
def leaveAll (net : Network) (h : Handle) : List NodeId → π → Result π :=
  each fun node p =>
    match net.place? node with
    | some place => retractAt place h p
    | none => (p, some (.consistency (.missingMemoryEntry node h)))

/-- Lets a fact enter some entries. -/
def enterAll (net : Network) (facts : FactStore) (h : Handle) : List NodeId → π → Result π :=
  each fun node p =>
    match net.place? node with
    | some place => assertAt facts place h p
    | none => (p, none)

/-- Lets a fact leave some entries and then enter some. -/
def run (net : Network) (facts : FactStore) (h : Handle) (retract assert : List NodeId) (p : π) :
    Result π :=
  match leaveAll net h retract p with
  | (p, none) => enterAll net facts h assert p
  | (p, some err) => (p, some err)

end Propagation

end RuleMatching
