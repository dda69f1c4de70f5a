import RuleMatching.Session.Propagation
import RuleMatching.Session.Search

set_option autoImplicit false

/-! # Sessions

A `Session` holds facts and keeps the matches of the rules of a network up to date. Facts are
inserted, updated and deleted; every call answers with its result and with the activations and
deactivations that it brought about, in the order in which they happened. -/

namespace RuleMatching

/-- How often each kind of call was made. -/
structure CallCounters where
  inserts : Nat := 0
  updates : Nat := 0
  deletes : Nat := 0
  /-- The entries that updates have passed by. -/
  skippedUpdates : Nat := 0
  propagationErrors : Nat := 0
deriving DecidableEq, Repr, Inhabited

/-- Facts and their matches. What the matches are kept in is a matter of the state `σ`. -/
structure Session (σ : Type := MatchState) where
  network : Network
  facts : FactStore
  state : σ
  calls : CallCounters

/-- What a call answers: its result, and the events that it brought about. -/
structure Reply (α : Type) where
  result : Except EngineError α
  events : List ActivationEvent

/-- What a call comes to before any match changes. -/
inductive Prepared (σ : Type) where
  /-- An error stops the call, which leaves no trace. -/
  | stopped (err : EngineError)
  /-- An error stops the call, which is accounted for in the session. -/
  | refused (s : Session σ) (err : EngineError)
  /-- The fact is to leave some entries and then to enter some. -/
  | ready (s : Session σ) (retract assert : List NodeId)

namespace Session

variable {σ π : Type}

def ofNetwork (net : Network) : Session := ⟨net, .empty, .ofNetwork net, {}⟩

/-! ## Queries -/

def get? (s : Session σ) (h : Handle) : Option Fact := s.facts.get? h

def factCount (s : Session σ) : Nat := s.facts.size

def handles (s : Session σ) : List Handle := s.facts.handles

/-- The number of live matches of all sizes. -/
def tupleCount (s : Session) : Nat := s.state.arena.size

/-- The lexicographic order of matches. -/
def isSorted : List Handle → List Handle → Bool
  | [], _ => true
  | _ :: _, [] => false
  | a :: as, b :: bs => a < b || (a == b && isSorted as bs)

/-- The full matches of a rule as lists of facts, in order. -/
def matchesOf (s : Session) (rule : String) : List (List Handle) :=
  match s.network.ruleNamed? rule with
  | some r =>
    ((s.state.terminalTuples r.terminal).map (Arena.handles s.state.arena)).mergeSort isSorted
  | none => []

/-! ## What a call comes to -/

/-- The insertion of a fact under a handle of the caller's choice. The fact is in the store even if
it reaches no entry because of an error. -/
def prepareInsert (s : Session σ) (h : Handle) (f : Fact) : Prepared σ :=
  match s.facts.insert h f with
  | .error cause => .stopped (.consistency cause)
  | .ok facts =>
    let s := { s with facts, calls := { s.calls with inserts := s.calls.inserts + 1 } }
    match s.network.matchingEntries f with
    | .error failure => .refused s (.propagation h failure)
    | .ok entries => .ready s [] entries

/-- What an update does at the entries: those that the fact leaves, those that it enters, and the
number of those that it stays in untouched. -/
structure UpdatePlan where
  retract : List NodeId
  assert : List NodeId
  skipped : Nat

/-- The plan of an update with one more entry, which the fact is in (`was`) and
belongs in (`now`). -/
def UpdatePlan.add (plan : UpdatePlan) (node : NodeId) (was now passBy : Bool) : UpdatePlan :=
  match was, now with
  | true, false => { plan with retract := plan.retract ++ [node] }
  | false, true => { plan with assert := plan.assert ++ [node] }
  | true, true =>
    if passBy then { plan with skipped := plan.skipped + 1 }
    else { plan with retract := plan.retract ++ [node], assert := plan.assert ++ [node] }
  | false, false => plan

/-- Checks that the fact can enter all of the entries. -/
def checkEntries (net : Network) (f : Fact) : List NodeId → Except NodeFailure Unit
  | [] => .ok ()
  | node :: rest => do
    net.checkEntry node f
    checkEntries net f rest

variable [SessionState σ π]

/-- The plan of an update from the old to the new version, which reaches the entries `reached`. An
entry that none of the changed fields concerns is passed by, if the configuration says so and the
fact keeps its type. -/
def planUpdate (s : Session σ) (h : Handle) (old new : Fact) (reached : List NodeId) : UpdatePlan :=
  let sameType := old.factType == new.factType
  let changed := old.changedFields new
  let candidates := s.network.entriesFor old.factType
    ++ (if sameType then [] else s.network.entriesFor new.factType)
  candidates.foldl (fun plan node =>
    plan.add node (SessionState.holds s.state node h) (reached.contains node)
      (s.network.config.skipUnaffected && sameType && !s.network.isAffected node changed))
        ⟨[], [], 0⟩

/-- The update of a fact to a new version. An update that cannot be carried out changes nothing. -/
def prepareUpdate (s : Session σ) (h : Handle) (f : Fact) : Prepared σ :=
  match s.facts.get? h with
  | none => .stopped (.consistency (.unknownHandle h))
  | some old =>
    match s.network.matchingEntries f with
    | .error failure => .refused s (.propagation h failure)
    | .ok reached =>
      let plan := s.planUpdate h old f reached
      -- Checked before anything changes, so that the update can be refused as a whole.
      match checkEntries s.network f plan.assert with
      | .error failure => .refused s (.propagation h failure)
      | .ok () =>
        match s.facts.replace h f with
        | .error cause => .stopped (.consistency cause)
        | .ok (_, facts) =>
          let calls := { s.calls with
            updates := s.calls.updates + 1
            skippedUpdates := s.calls.skippedUpdates + plan.skipped }
          .ready { s with facts, calls } plan.retract plan.assert

/-- The deletion of a fact, which is still in the store when its matches go. -/
def prepareDelete (s : Session σ) (h : Handle) : Prepared σ :=
  match s.facts.get? h with
  | none => .stopped (.consistency (.unknownHandle h))
  | some f =>
    .ready s ((s.network.entriesFor f.factType).filter (SessionState.holds s.state · h)) []

omit [SessionState σ π] in
/-- The end of a deletion: the fact leaves the store. -/
def forget (s : Session σ) (h : Handle) : Session σ × Except EngineError Fact :=
  match s.facts.remove h with
  | .error cause => (s, .error (.consistency cause))
  | .ok (f, facts) =>
    ({ s with facts, calls := { s.calls with deletes := s.calls.deletes + 1 } }, .ok f)

/-! ## Calls -/

omit [SessionState σ π] in
/-- Accounts for the error of a call. -/
def countError (s : Session σ) : Session σ :=
  { s with calls := { s.calls with propagationErrors := s.calls.propagationErrors + 1 } }

omit [SessionState σ π] in
/-- The end of a call that an error stops before anything has changed. -/
def refuse {α : Type} (s : Session σ) (err : EngineError) : Session σ × Reply α :=
  (s.countError, ⟨.error err, []⟩)

variable [MatchStore π]

/-- Lets the fact leave some entries and enter some, and answers with the events. -/
def propagate (s : Session σ) (h : Handle) (retract assert : List NodeId) :
    Session σ × Reply Unit :=
  let (p, stopped) :=
    Propagation.run s.network s.facts h retract assert (SessionState.resume s.state [])
  let s := { s with state := SessionState.state p }
  match stopped with
  | none => (s, ⟨.ok (), MatchStore.events p⟩)
  | some err => (s.countError, ⟨.error err, MatchStore.events p⟩)

/-- Goes on with a call. -/
def carryOut (s : Session σ) (h : Handle) : Prepared σ → Session σ × Reply Unit
  | .stopped err => (s, ⟨.error err, []⟩)
  | .refused s err => s.refuse err
  | .ready s retract assert => s.propagate h retract assert

/-- Inserts a fact under a handle of the caller's choice. The fact stays even if it cannot enter
every entry that it reaches. -/
def insertAt (s : Session σ) (h : Handle) (f : Fact) : Session σ × Reply Unit :=
  s.carryOut h (s.prepareInsert h f)

/-- Inserts a fact under the next handle and answers the handle. -/
def insert (s : Session σ) (f : Fact) : Session σ × Reply Handle :=
  let h := s.facts.nextHandle
  let (s, reply) := s.insertAt h f
  (s, ⟨reply.result.map fun _ => h, reply.events⟩)

/-- Puts a new version in place of a fact. An update that cannot be carried out changes nothing. -/
def update (s : Session σ) (h : Handle) (f : Fact) : Session σ × Reply Unit :=
  s.carryOut h (s.prepareUpdate h f)

/-- Deletes a fact and answers its last version. -/
def delete (s : Session σ) (h : Handle) : Session σ × Reply Fact :=
  let (s, reply) := s.carryOut h (s.prepareDelete h)
  match reply.result with
  | .error err => (s, ⟨.error err, reply.events⟩)
  | .ok () =>
    let (s, result) := s.forget h
    (s, ⟨result, reply.events⟩)

end Session

end RuleMatching
