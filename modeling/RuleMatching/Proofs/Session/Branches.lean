import RuleMatching.Proofs.FiniteMap
import RuleMatching.Session.Basic

set_option autoImplicit false

/-! # The branches of a call

A call is turned down at one of its checks, or goes on to the work on the matches. The branches of
an insertion (`Session.insertAt_branch`) and of an update (`Session.update_branch`) are told with
the checks that lead to them, so that what holds of every call is proved branch by branch. -/

namespace RuleMatching

variable {s : Session} {facts : FactStore} {h : Handle} {f : Fact}

/-! ## Facts -/

namespace FactStore

/-- A fact is only taken under a handle beyond the last one. -/
theorem eq_of_insert {facts' : FactStore} (hi : facts.insert h f = .ok facts') :
    facts' = ⟨facts.facts.insert h f, h⟩ ∧ facts.lastIssued < h := by
  unfold insert at hi
  split_ifs at hi with hlive hle
  cases hi
  exact ⟨rfl, Nat.not_le.mp hle⟩

/-- A fact is only taken under a handle that names none. -/
theorem get?_of_insert {facts' : FactStore} (hi : facts.insert h f = .ok facts') :
    facts.get? h = none ∧ ∀ k, facts'.get? k = if k = h then some f else facts.get? k := by
  obtain ⟨rfl, -⟩ := eq_of_insert hi
  refine ⟨?_, fun k => FiniteMap.get?_insert facts.facts h k f⟩
  unfold insert at hi
  split_ifs at hi with hlive
  exact (FiniteMap.contains_eq_false_iff _ _).mp (Bool.eq_false_iff.mpr hlive)

/-- The store with another version of a fact. -/
def set (s : FactStore) (h : Handle) (f : Fact) : FactStore :=
  { s with facts := s.facts.insert h f }

/-- The store without a fact. -/
def drop (s : FactStore) (h : Handle) : FactStore := { s with facts := s.facts.erase h }

theorem get?_set (facts : FactStore) (h : Handle) (f : Fact) (k : Handle) :
    (facts.set h f).get? k = if k = h then some f else facts.get? k :=
  FiniteMap.get?_insert facts.facts h k f

theorem get?_drop (facts : FactStore) (h k : Handle) :
    (facts.drop h).get? k = if k = h then none else facts.get? k :=
  FiniteMap.get?_erase facts.facts h k

theorem replace_eq {old : Fact} (hold : facts.get? h = some old) (f : Fact) :
    facts.replace h f = .ok (old, facts.set h f) := by
  rw [replace, hold]
  rfl

theorem remove_eq {old : Fact} (hold : facts.get? h = some old) :
    facts.remove h = .ok (old, facts.drop h) := by
  rw [remove, hold]
  rfl

end FactStore

namespace Session

variable {old : Fact} {facts' : FactStore} {cause : ConsistencyError} {failure : NodeFailure}
    {l : List NodeId}

/-- What a call answers, given what its work on the matches leads to. -/
def conclude (s : Session) : Propagation.Result → Session × Reply Unit
  | (p, none) => ({ s with state := p.toMatchState }, ⟨.ok (), p.events⟩)
  | (p, some err) => (countError { s with state := p.toMatchState }, ⟨.error err, p.events⟩)

theorem propagate_eq (s : Session) (h : Handle) (out into : List NodeId) : s.propagate h out into =
    s.conclude (Propagation.run s.network s.facts h out into ⟨s.state, []⟩) := by
  have hresume : (SessionState.resume s.state [] : Propagation) = ⟨s.state, []⟩ := rfl
  unfold propagate
  rw [hresume]
  generalize Propagation.run s.network s.facts h out into (⟨s.state, []⟩ : Propagation) = o
  obtain ⟨p, _ | err⟩ := o <;> rfl

/-! ## Insertions -/

/-- The session in the middle of an insertion, with the fact in its store and the counts. -/
def inserted (s : Session) (facts : FactStore) : Session :=
  { s with facts, calls := { s.calls with inserts := s.calls.inserts + 1 } }

theorem insertAt_of_taken (hi : s.facts.insert h f = .error cause) :
    s.insertAt h f = (s, ⟨.error (.consistency cause), []⟩) := by
  rw [insertAt, prepareInsert, hi]
  rfl

theorem insertAt_of_unroutable (hi : s.facts.insert h f = .ok facts')
    (hm : s.network.matchingEntries f = .error failure) :
    s.insertAt h f = (s.inserted facts').refuse (.propagation h failure) := by
  rw [insertAt, prepareInsert, hi]
  simp only [hm]
  rfl

theorem insertAt_of_routed (hi : s.facts.insert h f = .ok facts')
    (hm : s.network.matchingEntries f = .ok l) :
    s.insertAt h f = (s.inserted facts').propagate h [] l := by
  rw [insertAt, prepareInsert, hi]
  simp only [hm]
  rfl

/-- The ways an insertion can go: the store turns the fact down, or it takes the fact, which then
can be routed or not. -/
inductive InsertBranch (s : Session) (h : Handle) (f : Fact) : Session × Reply Unit → Prop where
  | taken {cause : ConsistencyError} (hi : s.facts.insert h f = .error cause) :
      InsertBranch s h f (s, ⟨.error (.consistency cause), []⟩)
  | unroutable {facts' : FactStore} {failure : NodeFailure} (hi : s.facts.insert h f = .ok facts')
      (hm : s.network.matchingEntries f = .error failure) :
      InsertBranch s h f ((s.inserted facts').refuse (.propagation h failure))
  | routed {facts' : FactStore} {l : List NodeId} (hi : s.facts.insert h f = .ok facts')
      (hm : s.network.matchingEntries f = .ok l) :
      InsertBranch s h f ((s.inserted facts').propagate h [] l)

theorem insertAt_branch (s : Session) (h : Handle) (f : Fact) :
    s.InsertBranch h f (s.insertAt h f) := by
  cases hi : s.facts.insert h f with
  | error cause =>
      rw [insertAt_of_taken hi]
      exact .taken hi
  | ok facts' =>
      cases hm : s.network.matchingEntries f with
      | error failure =>
          rw [insertAt_of_unroutable hi hm]
          exact .unroutable hi hm
      | ok l =>
          rw [insertAt_of_routed hi hm]
          exact .routed hi hm

/-! ## Updates -/

/-- The session in the middle of an update, with the new version and the counts. -/
def replaced (s : Session) (h : Handle) (new : Fact) (plan : UpdatePlan) : Session :=
  { s with
    facts := s.facts.set h new
    calls := { s.calls with
      updates := s.calls.updates + 1
      skippedUpdates := s.calls.skippedUpdates + plan.skipped } }

theorem update_of_dead (hold : s.facts.get? h = none) :
    s.update h f = (s, ⟨.error (.consistency (.unknownHandle h)), []⟩) := by
  rw [update, prepareUpdate, hold]
  rfl

theorem update_of_unroutable (hold : s.facts.get? h = some old)
    (hm : s.network.matchingEntries f = .error failure) :
    s.update h f = s.refuse (.propagation h failure) := by
  rw [update, prepareUpdate, hold]
  simp only [hm]
  rfl

theorem update_of_unreadable (hold : s.facts.get? h = some old)
    (hm : s.network.matchingEntries f = .ok l)
    (hcheck : checkEntries s.network f (s.planUpdate h old f l).assert = .error failure) :
    s.update h f = s.refuse (.propagation h failure) := by
  rw [update, prepareUpdate, hold]
  simp only [hm, hcheck]
  rfl

theorem update_of_checked (hold : s.facts.get? h = some old)
    (hm : s.network.matchingEntries f = .ok l)
    (hcheck : checkEntries s.network f (s.planUpdate h old f l).assert = .ok ()) :
    s.update h f = (s.replaced h f (s.planUpdate h old f l)).propagate h
      (s.planUpdate h old f l).retract (s.planUpdate h old f l).assert := by
  rw [update, prepareUpdate, hold]
  simp only [hm, hcheck, FactStore.replace_eq hold]
  rfl

/-- The ways an update can go: there is no such fact, the new version cannot be routed or cannot be
read where it enters, or the plan is carried out. -/
inductive UpdateBranch (s : Session) (h : Handle) (f : Fact) : Session × Reply Unit → Prop where
  | dead (hold : s.facts.get? h = none) :
      UpdateBranch s h f (s, ⟨.error (.consistency (.unknownHandle h)), []⟩)
  | unroutable {old : Fact} {failure : NodeFailure} (hold : s.facts.get? h = some old)
      (hm : s.network.matchingEntries f = .error failure) :
      UpdateBranch s h f (s.refuse (.propagation h failure))
  | unreadable {old : Fact} {l : List NodeId} {failure : NodeFailure} (hold : s.facts.get? h =
      some old) (hm : s.network.matchingEntries f = .ok l)
      (hcheck : checkEntries s.network f (s.planUpdate h old f l).assert = .error failure) :
      UpdateBranch s h f (s.refuse (.propagation h failure))
  | checked {old : Fact} {l : List NodeId} (hold : s.facts.get? h = some old)
      (hm : s.network.matchingEntries f = .ok l)
      (hcheck : checkEntries s.network f (s.planUpdate h old f l).assert = .ok ()) :
      UpdateBranch s h f ((s.replaced h f (s.planUpdate h old f l)).propagate h
        (s.planUpdate h old f l).retract (s.planUpdate h old f l).assert)

theorem update_branch (s : Session) (h : Handle) (f : Fact) :
    s.UpdateBranch h f (s.update h f) := by
  cases hold : s.facts.get? h with
  | none =>
      rw [update_of_dead hold]
      exact .dead hold
  | some old =>
      cases hm : s.network.matchingEntries f with
      | error failure =>
          rw [update_of_unroutable hold hm]
          exact .unroutable hold hm
      | ok l =>
          cases hcheck : checkEntries s.network f (s.planUpdate h old f l).assert with
          | error failure =>
              rw [update_of_unreadable hold hm hcheck]
              exact .unreadable hold hm hcheck
          | ok u =>
              rw [update_of_checked hold hm hcheck]
              exact .checked hold hm hcheck

/-! ## Deletions -/

/-- The deletion of a live fact: first the fact leaves its entries. -/
theorem delete_of_live_eq (hold : s.facts.get? h = some f) : s.delete h =
    (let (s, reply) := s.propagate h ((s.network.entriesFor f.factType).filter (s.state.holds · h))
      []
    match reply.result with
    | .error err => (s, ⟨.error err, reply.events⟩)
    | .ok () => ((s.forget h).1, ⟨(s.forget h).2, reply.events⟩)) := by
  rw [delete, prepareDelete, hold]
  rfl

theorem delete_of_dead (hold : s.facts.get? h = none) :
    s.delete h = (s, ⟨.error (.consistency (.unknownHandle h)), []⟩) := by
  rw [delete, prepareDelete, hold]
  rfl

end Session

end RuleMatching
