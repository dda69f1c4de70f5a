import RuleMatching.Session.Basic

set_option autoImplicit false

/-! # Delivery

While a call is at work its events wait in a buffer; when it ends they are handed to a sink, one
after the other. A `NotifyingSession` keeps the buffer and what the sink has made of the events
beside the session. -/

namespace RuleMatching

/-- A consumer of events, by what it makes of the next one. -/
structure ActivationSink (σ : Type) where
  activate : σ → Activation → σ
  deactivate : σ → Activation → σ

namespace ActivationSink

variable {σ : Type} (sink : ActivationSink σ)

/-- Takes the next event. -/
def receive (state : σ) : ActivationEvent → σ
  | .activated a => sink.activate state a
  | .deactivated a => sink.deactivate state a

/-- Takes some events, in order. -/
def receiveAll (state : σ) (events : List ActivationEvent) : σ := events.foldl sink.receive state

/-- The log of the activations in force. -/
def log : ActivationSink ActivationLog :=
  ⟨fun l a => l.record (.activated a), fun l a => l.record (.deactivated a)⟩

end ActivationSink

/-- A session with a sink for its events. -/
structure NotifyingSession (σ : Type) (τ : Type := MatchState) where
  session : Session τ
  /-- The events of the call at work, not delivered yet. -/
  buffer : List ActivationEvent
  /-- What the sink has made of the events delivered so far. -/
  received : σ

namespace NotifyingSession

variable {σ τ π : Type} (sink : ActivationSink σ)

def ofNetwork (net : Network) (state : σ) : NotifyingSession σ := ⟨.ofNetwork net, [], state⟩

/-- Delivers the buffered events and accounts for the outcome of the call. -/
def finish {α : Type} (w : NotifyingSession σ τ) (result : Except EngineError α) :
    NotifyingSession σ τ × Except EngineError α :=
  let w := { w with buffer := [], received := sink.receiveAll w.received w.buffer }
  match result with
  | .ok a => (w, .ok a)
  | .error err => ({ w with session := w.session.countError }, .error err)

variable [MatchStore π] [SessionState τ π]

/-- Lets the fact leave some entries and enter some, and buffers the events. -/
def propagate (w : NotifyingSession σ τ) (h : Handle) (retract assert : List NodeId) :
    NotifyingSession σ τ × Except EngineError Unit :=
  let (p, stopped) := Propagation.run w.session.network w.session.facts h retract assert
    (SessionState.resume w.session.state w.buffer)
  ({ w with
      session := { w.session with state := SessionState.state p }
      buffer := MatchStore.events p },
    match stopped with
    | none => .ok ()
    | some err => .error err)

/-- Goes on with a call. -/
def carryOut (w : NotifyingSession σ τ) (h : Handle) :
    Prepared τ → NotifyingSession σ τ × Except EngineError Unit
  | .stopped err => (w, .error err)
  | .refused s err => { w with session := s }.finish sink (.error err)
  | .ready s retract assert =>
    let (w, result) := { w with session := s }.propagate h retract assert
    w.finish sink result

def insertAt (w : NotifyingSession σ τ) (h : Handle) (f : Fact) :
    NotifyingSession σ τ × Except EngineError Unit :=
  w.carryOut sink h (w.session.prepareInsert h f)

def insert (w : NotifyingSession σ τ) (f : Fact) :
    NotifyingSession σ τ × Except EngineError Handle :=
  let h := w.session.facts.nextHandle
  let (w, result) := w.insertAt sink h f
  (w, result.map fun _ => h)

def update (w : NotifyingSession σ τ) (h : Handle) (f : Fact) :
    NotifyingSession σ τ × Except EngineError Unit :=
  w.carryOut sink h (w.session.prepareUpdate h f)

def delete (w : NotifyingSession σ τ) (h : Handle) :
    NotifyingSession σ τ × Except EngineError Fact :=
  match w.carryOut sink h (w.session.prepareDelete h) with
  | (w, .error err) => (w, .error err)
  | (w, .ok ()) =>
    let (s, result) := w.session.forget h
    ({ w with session := s }, result)

end NotifyingSession

end RuleMatching
