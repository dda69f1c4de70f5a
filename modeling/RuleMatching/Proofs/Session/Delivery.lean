import RuleMatching.Proofs.Session.Runs
import RuleMatching.Session.Delivery

set_option autoImplicit false

/-! # What is delivered

A session with a buffer and a sink does what the session does that answers with its events
(`NotifyingSession.perform_eq`): **between calls the buffer is empty, and after a run the sink has
received the events of all replies, in order** (`NotifyingSession.run_eq`). -/

namespace RuleMatching

namespace NotifyingSession

variable {σ τ π : Type} [MatchStore π] [SessionState τ π] (sink : ActivationSink σ)

/-- Makes a call. -/
def perform (w : NotifyingSession σ τ) : Call → NotifyingSession σ τ × Except EngineError Answer
  | .insert f => ((w.insert sink f).1, (w.insert sink f).2.map .handle)
  | .insertAt h f => ((w.insertAt sink h f).1, (w.insertAt sink h f).2.map fun _ => .done)
  | .update h f => ((w.update sink h f).1, (w.update sink h f).2.map fun _ => .done)
  | .delete h => ((w.delete sink h).1, (w.delete sink h).2.map .fact)

/-- Makes some calls. -/
def run (w : NotifyingSession σ τ) (calls : List Call) : NotifyingSession σ τ :=
  calls.foldl (fun w c => (w.perform sink c).1) w

/-- The outcome of a call that was answered with some events, when these are delivered to a sink in
the given state. -/
def deliver {α : Type} (state : σ) (outcome : Session τ × Reply α) :
    NotifyingSession σ τ × Except EngineError α :=
  (⟨outcome.1, [], sink.receiveAll state outcome.2.events⟩, outcome.2.result)

variable (s : Session τ) (state : σ)

/-- Work that starts with an empty buffer and is finished is work that answers with its events. -/
theorem finish_propagate (h : Handle) (retract assert : List NodeId) :
    ((⟨s, [], state⟩ : NotifyingSession σ τ).propagate h retract assert).1.finish sink
        ((⟨s, [], state⟩ : NotifyingSession σ τ).propagate h retract assert).2 =
      deliver sink state (s.propagate h retract assert) := by
  unfold propagate Session.propagate
  simp only
  obtain ⟨p, stopped⟩ :=
    Propagation.run s.network s.facts h retract assert (SessionState.resume s.state [])
  cases stopped <;> rfl

theorem carryOut_eq (h : Handle) (prepared : Prepared τ) :
    (⟨s, [], state⟩ : NotifyingSession σ τ).carryOut sink h prepared =
      deliver sink state (s.carryOut h prepared) := by
  cases prepared with
  | stopped err => rfl
  | refused s err => rfl
  | ready s retract assert => exact finish_propagate sink s state h retract assert

theorem insertAt_eq (h : Handle) (f : Fact) :
    (⟨s, [], state⟩ : NotifyingSession σ τ).insertAt sink h f =
      deliver sink state (s.insertAt h f) :=
  carryOut_eq sink s state h (s.prepareInsert h f)

theorem update_eq (h : Handle) (f : Fact) :
    (⟨s, [], state⟩ : NotifyingSession σ τ).update sink h f = deliver sink state (s.update h f) :=
  carryOut_eq sink s state h (s.prepareUpdate h f)

theorem delete_eq (h : Handle) : (⟨s, [], state⟩ : NotifyingSession σ τ).delete sink h =
    deliver sink state (s.delete h) := by
  unfold delete Session.delete
  simp only [carryOut_eq]
  obtain ⟨s', result, events⟩ := s.carryOut h (s.prepareDelete h)
  cases result with
  | error err => rfl
  | ok u => rfl

/-- **A call delivers the events that it is answered with, and leaves the buffer empty.** -/
theorem perform_eq (c : Call) : (⟨s, [], state⟩ : NotifyingSession σ τ).perform sink c =
    deliver sink state (s.perform c) := by
  cases c with
  | insert f =>
      unfold perform insert
      simp only [insertAt_eq]
      rfl
  | insertAt h f =>
      unfold perform
      simp only [insertAt_eq]
      rfl
  | update h f =>
      unfold perform
      simp only [update_eq]
      rfl
  | delete h =>
      unfold perform
      simp only [delete_eq]
      rfl

/-- **After a run the buffer is empty, and the sink has received the events of all
replies in order.** -/
theorem run_eq (calls : List Call) : run sink ⟨s, [], state⟩ calls =
    ⟨(s.run calls).1, [], sink.receiveAll state ((s.run calls).2.flatMap Reply.events)⟩ := by
  induction calls generalizing s state with
  | nil => rfl
  | cons c rest ih =>
      show run sink ((⟨s, [], state⟩ : NotifyingSession σ τ).perform sink c).1 rest = _
      rw [perform_eq, deliver, ih, Session.run, List.flatMap_cons, ActivationSink.receiveAll,
        ActivationSink.receiveAll, ActivationSink.receiveAll, List.foldl_append]

end NotifyingSession

end RuleMatching
