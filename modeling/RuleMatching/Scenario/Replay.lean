import RuleMatching.Scenario.Basic
import RuleMatching.Session.Statistics

set_option autoImplicit false

/-! # Replaying scenarios

A `Replay` feeds the events of a scenario into a session. It knows which handle each identifier
stands for. An error of the session belongs to the outcome of its step; an event that makes no
sense, with an identifier that is unknown or used already or with a field that is no value,
ends the replay. -/

namespace RuleMatching

/-- What one event has brought about. -/
structure StepOutcome where
  /-- The number of the event, from one on. -/
  step : Nat
  operation : String
  id : String
  handle : Handle
  activated : List Activation
  deactivated : List Activation
  error : Option EngineError

/-- A replay in progress. -/
structure Replay where
  session : Session
  log : ActivationLog
  /-- The handles that identifiers stand for. -/
  ids : FiniteMap String Handle
  lastHandle : Handle

/-- What a replay has brought about. -/
structure ReplayReport where
  steps : List StepOutcome
  /-- The full matches at the end, in the order of their tuples. -/
  active : List Activation
  statistics : Statistics

namespace Replay

def ofNetwork (net : Network) : Replay := ⟨.ofNetwork net, .empty, .empty, 0⟩

/-- The handle that the identifier stands for. -/
def handle (r : Replay) (id : String) : Except Failure Handle :=
  match r.ids.get? id with
  | some h => .ok h
  | none => .error ⟨[], .unknownIdentifier id⟩

/-- The value of a raw field, turned into a value of the declared kind if it stands for one. -/
def fieldValue (schema : Option Schema) (factType field : String) (raw : Json) :
    Except Failure Value :=
  match Value.ofJson raw with
  | .error e => .error ⟨[.convertField factType field], .content e⟩
  | .ok v =>
    match schema.bind (·.kind? field) with
    | some kind => .ok ((v.coerce? kind).getD v)
    | none => .ok v

/-- The fact with the given raw fields, which are read in the order of their names. -/
def buildFact (r : Replay) (factType : String) (fields : NameMap Json) : Except Failure Fact := do
  let schema := r.session.network.schemas.get? factType
  let values ← fields.entries.mapM fun (field, raw) => do
    return (field, ← fieldValue schema factType field raw)
  return ⟨factType, .ofList values⟩

/-- The activations among the events. -/
def activated (events : List ActivationEvent) : List Activation :=
  events.filterMap fun
    | .activated a => some a
    | .deactivated _ => none

/-- The deactivations among the events. -/
def deactivated (events : List ActivationEvent) : List Activation :=
  events.filterMap fun
    | .activated _ => none
    | .deactivated a => some a

/-- The replay after a call of the session, and the outcome of the step. -/
def finish {α : Type} (r : Replay) (step : Nat) (event : Scenario.Event) (h : Handle) (s : Session)
    (reply : Reply α) : Replay × StepOutcome :=
  let error := match reply.result with
    | .ok _ => none
    | .error e => some e
  ({ r with session := s, log := r.log.recordAll reply.events },
    ⟨step, event.operation, event.id, h, activated reply.events, deactivated reply.events, error⟩)

/-- Carries an event out. An inserted fact gets the next handle, and its identifier stands for it
from then on, even if the fact could not enter the network; a deleted one frees its identifier. -/
def apply (r : Replay) (step : Nat) (event : Scenario.Event) :
    Except Failure (Replay × StepOutcome) :=
  match event with
  | .insert id factType fields =>
    if r.ids.contains id then .error ⟨[], .identifierInUse id⟩
    else do
      let f ← r.buildFact factType fields
      let h := r.lastHandle + 1
      let (s, reply) := r.session.insertAt h f
      return { r with ids := r.ids.insert id h, lastHandle := h }.finish step event h s reply
  | .update id factType fields => do
    let h ← r.handle id
    let factType ← match factType, r.session.get? h with
      | some t, _ => .ok t
      | none, some f => .ok f.factType
      | none, none => .error ⟨[], .missingFact id⟩
    let f ← r.buildFact factType fields
    let (s, reply) := r.session.update h f
    return r.finish step event h s reply
  | .delete id => do
    let h ← r.handle id
    let (s, reply) := r.session.delete h
    let ids := match reply.result with
      | .ok _ => r.ids.erase id
      | .error _ => r.ids
    return { r with ids }.finish step event h s reply

/-- Carries the events out, the first of which has the given number. -/
def run (r : Replay) (step : Nat) : List Scenario.Event → Except Failure (Replay × List StepOutcome)
  | [] => .ok (r, [])
  | event :: rest =>
    match r.apply step event with
    | .error e => .error (e.during (.replayEvent step event.operation))
    | .ok (r, outcome) => do
      let (r, outcomes) ← run r (step + 1) rest
      return (r, outcome :: outcomes)

end Replay

/-- Replays events in a session of their own. -/
def Network.replay (net : Network) (events : List Scenario.Event) : Except Failure ReplayReport :=
  do
  let (r, steps) ← (Replay.ofNetwork net).run 1 events
  return ⟨steps, r.log.active, r.session.statistics⟩

end RuleMatching
