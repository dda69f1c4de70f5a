import RuleMatching.Proofs.Session.Simulation

set_option autoImplicit false

/-! # Sessions on other stores

A session can keep its matches in any store. What a call comes to before any match changes
depends on the store only by which facts are in at the entries
(`Session.prepareUpdate_withState`), and what it does to the matches is told by the simulation.
**So a session on a store that simulates the matches answers every call as the session does that
has the matches alone** (`SessionState.Simulates.run`), as long as there is room in the store for
all matches that the run creates. -/

namespace RuleMatching

open Network Propagation

namespace Session

variable {σ τ : Type}

/-- The session with its matches kept in another state. -/
def withState (s : Session σ) (x : τ) : Session τ := ⟨s.network, s.facts, x, s.calls⟩

end Session

namespace Prepared

/-- The same is left to do for a session whose matches are kept in another state. -/
def withState {σ τ : Type} (x : τ) : Prepared σ → Prepared τ
  | stopped err => .stopped err
  | refused s err => .refused (s.withState x) err
  | ready s retract assert => .ready (s.withState x) retract assert

end Prepared

namespace Session

section Prepare

variable {σ π : Type} (s : Session) (x : σ)

theorem prepareInsert_withState (h : Handle) (f : Fact) :
    (s.withState x).prepareInsert h f = (s.prepareInsert h f).withState x := by
  unfold prepareInsert
  simp only [withState]
  cases s.facts.insert h f with
  | error cause => rfl
  | ok facts =>
      simp only
      cases s.network.matchingEntries f <;> rfl

variable [SessionState σ π] (hholds : ∀ n h, SessionState.holds x n h = s.state.holds n h)

include hholds

/-- An update asks only which entries hold the fact. -/
theorem planUpdate_withState (h : Handle) (old f : Fact) (reached : List NodeId) :
    (s.withState x).planUpdate h old f reached = s.planUpdate h old f reached := by
  unfold planUpdate
  simp only [withState, hholds]
  rfl

theorem prepareUpdate_withState (h : Handle) (f : Fact) :
    (s.withState x).prepareUpdate h f = (s.prepareUpdate h f).withState x := by
  unfold prepareUpdate
  simp only [s.planUpdate_withState x hholds]
  simp only [withState]
  cases s.facts.get? h with
  | none => rfl
  | some old =>
      simp only
      cases s.network.matchingEntries f with
      | error failure => rfl
      | ok reached =>
          simp only
          cases checkEntries s.network f (s.planUpdate h old f reached).assert with
          | error failure => rfl
          | ok done =>
              simp only
              cases s.facts.replace h f <;> rfl

theorem prepareDelete_withState (h : Handle) :
    (s.withState x).prepareDelete h = (s.prepareDelete h).withState x := by
  unfold prepareDelete
  simp only [withState, hholds]
  cases s.facts.get? h <;> rfl

end Prepare

/-- The end of a deletion leaves the matches alone. -/
theorem delete_state (s : Session) (h : Handle) :
    (s.delete h).1.state = (s.carryOut h (s.prepareDelete h)).1.state := by
  rw [delete]
  generalize s.carryOut h (s.prepareDelete h) = o
  obtain ⟨s₁, result, events⟩ := o
  cases result with
  | error err => rfl
  | ok done =>
      simp only [forget]
      cases s₁.facts.remove h <;> rfl

/-! ## What is ready can be carried out -/

/-- A call comes to this before any match changes: the matches are those of the session still, and
work that is ready can be done. -/
inductive Plans (s : Session) (h : Handle) : Prepared MatchState → Prop
  | stopped {err : EngineError} : Plans s h (.stopped err)
  | refused {s₁ : Session} {err : EngineError} (hstate : s₁.state = s.state) :
      Plans s h (.refused s₁ err)
  | ready {s₁ : Session} {f : Fact} {out into : List NodeId} (hnet : s₁.network = s.network)
      (hstate : s₁.state = s.state) (hready : s.Ready s₁.facts h f out into) :
      Plans s h (.ready s₁ out into)

namespace Consistent

variable {s : Session} (hs : s.Consistent) (h : Handle)

include hs

theorem plans_prepareInsert (f : Fact) : s.Plans h (s.prepareInsert h f) := by
  unfold prepareInsert
  cases hi : s.facts.insert h f with
  | error cause => exact .stopped
  | ok facts =>
      cases hm : s.network.matchingEntries f with
      | error failure =>
          simp only [hm]
          exact .refused rfl
      | ok l =>
          simp only [hm]
          exact .ready rfl rfl (hs.ready_insert hi hm)

theorem plans_prepareUpdate (f : Fact) : s.Plans h (s.prepareUpdate h f) := by
  unfold prepareUpdate
  cases hold : s.facts.get? h with
  | none => exact .stopped
  | some old =>
      simp only [FactStore.replace_eq hold]
      cases hm : s.network.matchingEntries f with
      | error failure => exact .refused rfl
      | ok reached =>
          simp only
          cases checkEntries s.network f (s.planUpdate h old f reached).assert with
          | error failure => exact .refused rfl
          | ok done => exact .ready rfl rfl (hs.ready_update hold hm)

theorem plans_prepareDelete : s.Plans h (s.prepareDelete h) := by
  unfold prepareDelete
  cases hold : s.facts.get? h with
  | none => exact .stopped
  | some f => exact .ready rfl rfl (hs.ready_delete hold)

end Consistent

end Session

namespace SessionState

variable {σ π : Type} [MatchStore π] [SessionState σ π]

/-- What the state of a store owes: it starts without matches as the session does, the store that
is taken up from it at the beginning of a call is the one that it was left as, and it knows which
facts are in. -/
structure Simulates (net : Network) (limit : Nat) (R : Propagation → π → Prop) : Prop
    extends MatchStore.Simulates net limit R where
  start : R ⟨.ofNetwork net, []⟩ (resume (ofNetwork net : σ) [])
  restart : ∀ {p q}, R p q → R ⟨p.toMatchState, []⟩ (resume (state q : σ) [])
  holds : ∀ {p} {x : σ}, R p (resume x []) → ∀ n h, holds x n h = p.holds n h

/-- The session is the other one, with its matches kept in a state that stands for them. -/
def Keeps (R : Propagation → π → Prop) (s : Session) (w : Session σ) : Prop :=
  w = s.withState w.state ∧ R ⟨s.state, []⟩ (resume w.state [])

/-- A call leads to the session that it leads to with the matches alone, and is answered alike. -/
structure Accords {α : Type} (R : Propagation → π → Prop) (o : Session × Reply α)
    (o' : Session σ × Reply α) : Prop where
  keeps : Keeps R o.1 o'.1
  reply : o'.2 = o.2

omit [MatchStore π] in
/-- The answer of a call may be given another form. -/
theorem Accords.map {α β : Type} {R : Propagation → π → Prop} {o : Session × Reply α}
    {o' : Session σ × Reply α} (h : Accords R o o') (g : Reply α → Reply β) :
    Accords R (o.1, g o.2) (o'.1, g o'.2) :=
  ⟨h.keeps, congrArg g h.reply⟩

namespace Simulates

variable {net : Network} {limit : Nat} {R : Propagation → π → Prop} {s : Session} {w : Session σ}

variable (hsim : Simulates (σ := σ) net limit R) (hs : s.Consistent) (hnet : s.network = net)

include hsim hs hnet

/-- The work of a call. Here `s₁` is in the middle of the call, with its new facts and the
matches of `s`. -/
theorem propagate {s₁ : Session} {x : σ} (hR : R ⟨s.state, []⟩ (resume x [])) {h : Handle}
    {f : Fact} {out into : List NodeId} (hnet₁ : s₁.network = s.network)
    (hstate₁ : s₁.state = s.state) (hready : s.Ready s₁.facts h f out into)
    (hroom : (s₁.propagate h out into).1.state.counters.created ≤ limit) :
    Accords R (s₁.propagate h out into) ((s₁.withState x).propagate h out into) := by
  have hwf : net.WellFormed := hnet ▸ hs.network
  obtain ⟨p₁, hleave, hleaves, -, hsound⟩ := hs.leaveAll_spec hready
  obtain ⟨p₁', hleave', hleaveRun⟩ :=
    leaveAll_run (p := ⟨s.state, []⟩) hs.network hs.sound hready.nodup_out hready.held
  obtain rfl : p₁' = p₁ := congrArg Prod.fst (hleave'.symm.trans hleave)
  have henterRun := enterAll_run hs.network hsound hready.version hready.nodup_into hready.entries
    (hready.not_holds_of_leaves hleaves)
  rw [hnet] at hleaveRun henterRun
  have hrun : run s₁.network s₁.facts h out into (⟨s₁.state, []⟩ : Propagation) =
      enterAll net s₁.facts h into p₁' := by
    rw [hnet₁, hstate₁, Propagation.run, hleave', hnet]
  have hcreated : (enterAll net s₁.facts h into p₁').1.counters.created ≤ limit := by
    rw [Session.propagate_eq, hrun] at hroom
    generalize enterAll net s₁.facts h into p₁' = o at hroom ⊢
    obtain ⟨p, _ | err⟩ := o <;> exact hroom
  have hagrees := hsim.leaveRun hwf hleaveRun hR
  obtain ⟨q₁, hq₁, hR₁⟩ := hagrees.exists_eq
  have hagrees' := hsim.enterRun hwf henterRun hready.version hR₁ hcreated
  have hrun' : run s₁.network s₁.facts h out into (resume x [] : π) =
      enterAll net s₁.facts h into q₁ := by
    rw [hnet₁, hnet, Propagation.run, hq₁]
  rw [Session.propagate_eq, hrun]
  unfold Session.propagate Session.withState
  simp only [hrun']
  generalize enterAll net s₁.facts h into p₁' = o at hagrees'
  generalize enterAll net s₁.facts h into q₁ = o' at hagrees'
  obtain ⟨p, stopped⟩ := o
  obtain ⟨q, stopped'⟩ := o'
  obtain ⟨hR', rfl : stopped' = stopped⟩ := hagrees'
  have hevents : MatchStore.events q = p.events := (hsim.shows hR').events
  cases stopped' with
  | none => exact ⟨⟨rfl, hsim.restart hR'⟩, by simp only [hevents]; rfl⟩
  | some err => exact ⟨⟨rfl, hsim.restart hR'⟩, by simp only [hevents]; rfl⟩

/-- A call goes on alike, given what it comes to before any match changes. -/
theorem carryOut {x : σ} (hR : R ⟨s.state, []⟩ (resume x [])) {h : Handle}
    {prepared : Prepared MatchState} (hprepared : s.Plans h prepared)
    (hroom : (s.carryOut h prepared).1.state.counters.created ≤ limit) :
    Accords R (s.carryOut h prepared) ((s.withState x).carryOut h (prepared.withState x)) := by
  cases hprepared with
  | stopped => exact ⟨⟨rfl, hR⟩, rfl⟩
  | @refused s₁ err hstate =>
      have hR₁ : R ⟨s₁.state, []⟩ (resume x []) := hstate ▸ hR
      exact ⟨⟨rfl, hR₁⟩, rfl⟩
  | ready hnet₁ hstate hready => exact hsim.propagate hs hnet hR hnet₁ hstate hready hroom

theorem insertAt (hk : Keeps R s w) (h : Handle) (f : Fact)
    (hroom : (s.insertAt h f).1.state.counters.created ≤ limit) :
    Accords R (s.insertAt h f) (w.insertAt h f) := by
  obtain ⟨hw, hR⟩ := hk
  have hprepare := s.prepareInsert_withState w.state h f
  rw [hw, Session.insertAt, Session.insertAt, hprepare]
  exact hsim.carryOut hs hnet hR (hs.plans_prepareInsert h f) hroom

theorem update (hk : Keeps R s w) (h : Handle) (f : Fact)
    (hroom : (s.update h f).1.state.counters.created ≤ limit) :
    Accords R (s.update h f) (w.update h f) := by
  obtain ⟨hw, hR⟩ := hk
  have hprepare := s.prepareUpdate_withState w.state (hsim.holds hR) h f
  rw [hw, Session.update, Session.update, hprepare]
  exact hsim.carryOut hs hnet hR (hs.plans_prepareUpdate h f) hroom

theorem delete (hk : Keeps R s w) (h : Handle)
    (hroom : (s.delete h).1.state.counters.created ≤ limit) :
    Accords R (s.delete h) (w.delete h) := by
  obtain ⟨hw, hR⟩ := hk
  have hprepare := s.prepareDelete_withState w.state (hsim.holds hR) h
  have hplans := hs.plans_prepareDelete h
  have hroom' : (s.carryOut h (s.prepareDelete h)).1.state.counters.created ≤ limit := by
    rwa [Session.delete_state] at hroom
  have hgoes := hsim.carryOut hs hnet hR hplans hroom'
  rw [hw, Session.delete, Session.delete, hprepare]
  generalize s.carryOut h (s.prepareDelete h) = o at hgoes
  generalize (s.withState w.state).carryOut h ((s.prepareDelete h).withState w.state) = o' at hgoes
  obtain ⟨s₁, result, events⟩ := o
  obtain ⟨w₁, reply⟩ := o'
  obtain ⟨⟨hw₁, hR₁⟩, rfl : reply = _⟩ := hgoes
  simp only at hw₁ hR₁
  generalize w₁.state = x at hw₁ hR₁
  subst hw₁
  cases result with
  | error err => exact ⟨⟨rfl, hR₁⟩, rfl⟩
  | ok done =>
      simp only [Session.forget, Session.withState]
      cases s₁.facts.remove h with
      | error cause => exact ⟨⟨rfl, hR₁⟩, rfl⟩
      | ok removed => exact ⟨⟨rfl, hR₁⟩, rfl⟩

/-- **A call on the store is answered as it is without it.** -/
theorem perform (hk : Keeps R s w) (c : Call)
    (hroom : (s.perform c).1.state.counters.created ≤ limit) :
    Accords R (s.perform c) (w.perform c) := by
  cases c with
  | insert f =>
      have hnext : w.facts.nextHandle = s.facts.nextHandle := by rw [hk.1]; rfl
      have hinsert := hsim.insertAt hs hnet hk s.facts.nextHandle f hroom
      rw [Session.perform, Session.perform, Session.insert, Session.insert, hnext]
      exact hinsert.map fun reply =>
        Reply.map Answer.handle ⟨reply.result.map fun _ => s.facts.nextHandle, reply.events⟩
  | insertAt h f => exact (hsim.insertAt hs hnet hk h f hroom).map (Reply.map fun _ => Answer.done)
  | update h f => exact (hsim.update hs hnet hk h f hroom).map (Reply.map fun _ => Answer.done)
  | delete h => exact (hsim.delete hs hnet hk h hroom).map (Reply.map Answer.fact)

/-- **A run on the store is answered as it is without it**, call by call, if there is room for all
the matches that it creates. -/
theorem run (hk : Keeps R s w) (calls : List Call)
    (hroom : (s.run calls).1.state.counters.created ≤ limit) :
    Keeps R (s.run calls).1 (w.run calls).1 ∧ (w.run calls).2 = (s.run calls).2 := by
  induction calls generalizing s w with
  | nil => exact ⟨hk, rfl⟩
  | cons c rest ih =>
      obtain ⟨hadvances, -⟩ := Session.perform_spec hs c
      -- What the rest of the run creates comes on top of what the call does.
      have hcreated : (s.perform c).1.state.counters.created ≤ limit :=
        (hadvances.consistent.countsUp_run rest).tuples.1.trans hroom
      have hfirst := hsim.perform hs hnet hk c hcreated
      obtain ⟨hkeeps, hreplies⟩ :=
        ih hadvances.consistent (hadvances.network.trans hnet) hfirst.keeps hroom
      refine ⟨hkeeps, ?_⟩
      rw [Session.run, Session.run, hfirst.reply, hreplies]

omit hs hnet in
/-- **A fresh session on the store answers every run as a session does that has the
matches alone.** -/
theorem run_ofNetwork (hnet : net.WellFormed) (calls : List Call)
    (hroom : ((Session.ofNetwork net).run calls).1.state.counters.created ≤ limit) :
    Keeps R ((Session.ofNetwork net).run calls).1
        ((⟨net, .empty, ofNetwork net, {}⟩ : Session σ).run calls).1 ∧
      ((⟨net, .empty, ofNetwork net, {}⟩ : Session σ).run calls).2 =
        ((Session.ofNetwork net).run calls).2 := by
  have hstart : Keeps R (Session.ofNetwork net) (⟨net, .empty, ofNetwork net, {}⟩ : Session σ) :=
    ⟨rfl, hsim.start⟩
  exact hsim.run hnet.consistent_ofNetwork rfl hstart calls hroom

end Simulates

end SessionState

end RuleMatching
