import RuleMatching.Proofs.Session.Delivery
import RuleMatching.Proofs.Session.Matches

set_option autoImplicit false

/-! # Refused calls

An update or a deletion succeeds as a whole or changes nothing: once its checks have passed nothing
that is left to do can fail. The same holds of an insertion that the fact store turns down. **A
refused call leaves the session, the buffer and the sink as they were**, but that the refused update
of a live fact is counted (`Session.refusals_run`). -/

namespace RuleMatching

open Network

namespace Session

/-- The session with some more refusals counted. -/
def countRefusals (s : Session) (n : Nat) : Session :=
  { s with calls := { s.calls with propagationErrors := s.calls.propagationErrors + n } }

variable {s : Session} {h : Handle} {f : Fact} {err : EngineError}

/-- An insertion that the fact store turns down. Any other that fails does so with an
error of its fact. -/
theorem insertAt_refused (hs : s.Consistent) {cause : ConsistencyError}
    (hresult : (s.insertAt h f).2.result = .error (.consistency cause)) :
    s.insertAt h f = (s, ⟨.error (.consistency cause), []⟩) := by
  have hanswer := result_insertAt hs h f
  rw [hresult, insertAnswer] at hanswer
  cases hi : s.facts.insert h f with
  | error cause' =>
      rw [hi] at hanswer
      cases hanswer
      exact insertAt_of_taken hi
  | ok facts' =>
      rw [hi] at hanswer
      obtain ⟨failure, heq, -⟩ := entering_eq_error_iff.mp hanswer.symm
      cases heq

/-- An update that fails. -/
theorem update_refused (hs : s.Consistent) (hresult : (s.update h f).2.result = .error err) :
    s.update h f = (s.countRefusals (if (s.get? h).isSome then 1 else 0), ⟨.error err, []⟩) := by
  have hbranch := update_branch s h f
  generalize s.update h f = o at hresult hbranch ⊢
  unfold get?
  cases hbranch with
  | dead hold =>
      cases hresult
      rw [hold]
      rfl
  | unroutable hold hm =>
      cases hresult
      rw [hold]
      rfl
  | unreadable hold hm hcheck =>
      cases hresult
      rw [hold]
      rfl
  | @checked old l hold hm hcheck =>
      -- What has passed the checks does not fail.
      rw [hs.checkEntries_assert hold hm] at hcheck
      cases hresult.symm.trans (hs.carryOut_spec hold hm hcheck).2.2

/-- A deletion that fails. -/
theorem delete_refused (hs : s.Consistent) (hresult : (s.delete h).2.result = .error err) :
    s.delete h = (s, ⟨.error err, []⟩) := by
  cases hold : s.facts.get? h with
  | none =>
      rw [delete_of_dead hold] at hresult ⊢
      cases hresult
      rfl
  | some f =>
      obtain ⟨p', -, heq⟩ := hs.delete_run hold
      rw [heq] at hresult
      cases hresult

/-- **A call that is refused leaves everything as it was.** In the state that any run leads to,
whatever the sink, this holds of every update and deletion that fails and of every insertion that
the fact store turns down; the refused update of a live fact is counted, and nothing else is. -/
theorem refusals_run {rules : List Rule} {schemas : SchemaRegistry} {config : Config}
    {net : Network} (hbuild : Network.build rules schemas config = .ok net) {σ : Type}
    (sink : ActivationSink σ) (state : σ) (calls : List Call) :
    let w := NotifyingSession.run sink (.ofNetwork net state) calls
    (∀ h f err, (w.update sink h f).2 = .error err → (w.update sink h f).1 =
      { w with session := w.session.countRefusals (if (w.session.get? h).isSome then 1 else 0) }) ∧
    (∀ h err, (w.delete sink h).2 = .error err → (w.delete sink h).1 = w) ∧
    (∀ h f cause, (w.insertAt sink h f).2 = .error (.consistency cause) →
      (w.insertAt sink h f).1 = w) := by
  intro w
  obtain ⟨-, hs, -⟩ := run_ofNetwork (wellFormed_build hbuild) calls
  have hw : w = ⟨((ofNetwork net).run calls).1, [], sink.receiveAll state
      (((ofNetwork net).run calls).2.flatMap Reply.events)⟩ :=
    NotifyingSession.run_eq sink _ state calls
  rw [hw]
  refine ⟨fun h f err hresult => ?_, fun h err hresult => ?_, fun h f cause hresult => ?_⟩
  · rw [NotifyingSession.update_eq] at hresult ⊢
    rw [update_refused hs hresult]
    rfl
  · rw [NotifyingSession.delete_eq] at hresult ⊢
    rw [delete_refused hs hresult]
    rfl
  · rw [NotifyingSession.insertAt_eq] at hresult ⊢
    rw [insertAt_refused hs hresult]
    rfl

/-- An order whose customer is no number does not take the place of another order. -/
theorem refusals_orders : ∃ net, Network.build [pairRule] orderSchemas .standard = .ok net ∧
    let w := NotifyingSession.run .log (.ofNetwork net .empty) orderCalls
    let f : Fact := ⟨"order", .ofList [("customer", .string "7"), ("total", .integer 2)]⟩
    (∃ err, (w.update .log 2 f).2 = .error err) ∧
    (w.update .log 2 f).1 = { w with session := w.session.countRefusals 1 } := by
  obtain ⟨net, hnet, hlive, err, herr⟩ : ∃ net, Network.build [pairRule] orderSchemas .standard =
      .ok net ∧
      ((NotifyingSession.run .log (.ofNetwork net .empty) orderCalls).session.get? 2).isSome =
        true ∧
      ∃ err, ((NotifyingSession.run .log (.ofNetwork net .empty) orderCalls).update .log 2
        ⟨"order", .ofList [("customer", .string "7"), ("total", .integer 2)]⟩).2 = .error err :=
    ⟨_, rfl, rfl, _, rfl⟩
  obtain ⟨hupdate, -, -⟩ := refusals_run hnet .log .empty orderCalls
  have hrefused := hupdate _ _ _ herr
  rw [if_pos hlive] at hrefused
  exact ⟨net, hnet, ⟨err, herr⟩, hrefused⟩

end Session

end RuleMatching
