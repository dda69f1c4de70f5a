import RuleMatching.Proofs.Session.Mirror
import RuleMatching.Proofs.Session.Refusals
import RuleMatching.Proofs.Session.Story

set_option autoImplicit false

/-! # The course of a call

While a call is at work its fact leaves some entries and then enters some (`Session.Course`). Which
entries these are is a matter of where the fact is in and of what it reaches (`Session.Quits`,
`Session.Takes`). **Every call takes its course, unless it inserts a fact that cannot enter**
(`Session.perform_goes`), and what it tells is which matches waited at the terminals before and
which wait there after it (`Session.Course.gone_iff`, `Session.Course.come_iff`). -/

namespace RuleMatching

open Network Propagation

/-- The fact can enter all entries that it reaches, and the node is that of one of them. -/
def Network.Receives (net : Network) (f : Fact) (n : NodeId) : Prop :=
  ∃ l, net.matchingEntries f = .ok l ∧ Session.checkEntries net f l = .ok () ∧ n ∈ l

theorem Network.receives_iff {net : Network} {f : Fact} {l : List NodeId}
    (hm : net.matchingEntries f = .ok l) (hcheck : Session.checkEntries net f l = .ok ())
    (n : NodeId) : net.Receives f n ↔ n ∈ l := by
  constructor
  · rintro ⟨l', hl', -, hn⟩
    rw [hm, Except.ok.injEq] at hl'
    exact hl' ▸ hn
  · exact fun hn => ⟨l, hm, hcheck, hn⟩

theorem Network.entering_eq_ok_iff {net : Network} {h : Handle} {f : Fact} :
    net.entering h f = .ok () ↔
      ∃ l, net.matchingEntries f = .ok l ∧ Session.checkEntries net f l = .ok () := by
  unfold Network.entering
  cases hm : net.matchingEntries f with
  | error failure => simp
  | ok l =>
      simp only [Except.ok.injEq, exists_eq_left']
      cases Session.checkEntries net f l <;> simp [Except.mapError]

/-- What a call replies that is stopped by a test or a read that fails. -/
def Reply.Refused {α : Type} (r : Reply α) : Prop :=
  ∃ h failure, r.result = .error (.propagation h failure)

instance {α : Type} (r : Reply α) : Decidable r.Refused :=
  match hr : r.result with
  | .error (.propagation h failure) => .isTrue ⟨h, failure, hr⟩
  | .error (.build _) | .error (.consistency _) | .ok _ =>
    .isFalse fun ⟨_, _, heq⟩ => nomatch hr.symm.trans heq

namespace Session

variable {s s' : Session} {h : Handle} {f : Fact} {out into : List NodeId}

/-- How a call about the fact `h` goes: the fact leaves the entries `out`, which ends the
activations `gone`, and enters the entries `into`, which brings about the activations `come`. In
between the matches are those of `mid`. -/
structure Course (s s' : Session) (h : Handle) (out into : List NodeId) (mid : MatchState)
    (gone come : List Activation) : Prop where
  leaves : Leaves s.network s.facts out h ⟨s.state, []⟩ ⟨mid, gone.map .deactivated⟩
  sound : Sound s.network s'.facts mid
  enters : Enters s.network s'.facts into h ⟨mid, gone.map .deactivated⟩ ⟨s'.state,
    turnover gone come⟩

/-- A call goes this way and delivers the events. -/
def Goes (s s' : Session) (h : Handle) (out into : List NodeId) (events : List ActivationEvent) :
    Prop :=
  ∃ mid gone come, s.Course s' h out into mid gone come ∧ events = turnover gone come

/-! ## The course of each kind of call -/

/-- A call that leaves everything as it is. -/
theorem Consistent.goes_nowhere (hs : s.Consistent) (h : Handle) (hfacts : s'.facts = s.facts)
    (hstate : s'.state = s.state) : s.Goes s' h [] [] [] := by
  refine ⟨s.state, [], [], ⟨.refl hs.network hs.sound h, hfacts ▸ hs.sound, ?_⟩, rfl⟩
  rw [hfacts, hstate]
  exact .refl hs.sound h

/-- The work on the matches takes its course if the fact can enter its entries. -/
theorem Consistent.propagate_goes (hs : s.Consistent) (s₁ : Session) (hnet : s₁.network = s.network)
    (hstate : s₁.state = s.state) (hready : s.Ready s₁.facts h f out into)
    (hcheck : checkEntries s.network f into = .ok ()) :
    s.Goes (s₁.propagate h out into).1 h out into (s₁.propagate h out into).2.events := by
  obtain ⟨p₁, hleave, hleaves, -, hsound⟩ := hs.leaveAll_spec hready
  have hfree := hready.not_holds_of_leaves hleaves
  obtain ⟨p', henter, henters⟩ :=
    enterAll_spec hs.network hsound hready.version hready.nodup_into hready.entries hfree
  rw [hcheck] at henter
  rw [enterable_eq_self (checkEntries_eq_ok_iff.mp hcheck)] at henters
  -- On the way out there are deactivations only, on the way in activations only.
  have hdepartures :=
    leaveAll_departures (p := ⟨s.state, []⟩) hs.network hs.sound hready.nodup_out hready.held
  have harrivals :=
    enterAll_arrivals hs.network hsound hready.version hready.nodup_into hready.entries hfree
  rw [hleave] at hdepartures
  rw [henter] at harrivals
  obtain ⟨gone, hgone⟩ : ∃ gone : List Activation, p₁.events = gone.map .deactivated :=
    hdepartures.events
  obtain ⟨come, hcome⟩ : ∃ come : List Activation, p'.events = p₁.events ++ come.map .activated :=
    harrivals.events
  have hrun : Propagation.run s₁.network s₁.facts h out into (⟨s₁.state, []⟩ : Propagation) =
      (p', none) := by
    rw [hnet, hstate, Propagation.run, hleave]
    exact henter
  obtain ⟨mid, events⟩ := p₁
  obtain ⟨final, events'⟩ := p'
  obtain rfl : events = _ := hgone
  obtain rfl : events' = _ := hcome
  rw [propagate_eq]
  rw [hrun]
  exact ⟨mid, gone, come, ⟨hleaves, hsound, henters⟩, rfl⟩

/-- The insertion of a fact that can enter. -/
theorem Consistent.insertAt_goes (hs : s.Consistent) {facts' : FactStore} {l : List NodeId}
    (hi : s.facts.insert h f = .ok facts') (hm : s.network.matchingEntries f = .ok l)
    (hcheck : checkEntries s.network f l = .ok ()) :
    s.Goes (s.insertAt h f).1 h [] l (s.insertAt h f).2.events := by
  rw [insertAt_of_routed hi hm]
  exact hs.propagate_goes (s.inserted facts') rfl rfl (hs.ready_insert hi hm) hcheck

/-- An update that is carried out. -/
theorem Consistent.update_goes (hs : s.Consistent) {old : Fact} {l : List NodeId}
    (hold : s.facts.get? h = some old) (hm : s.network.matchingEntries f = .ok l)
    (hcheck : checkEntries s.network f l = .ok ()) :
    s.Goes (s.update h f).1 h (s.planUpdate h old f l).retract (s.planUpdate h old f l).assert
      (s.update h f).2.events := by
  have hassert := (hs.checkEntries_assert hold hm).trans hcheck
  rw [update_of_checked hold hm hassert]
  exact hs.propagate_goes (s.replaced h f _) rfl rfl (hs.ready_update hold hm) hassert

/-- The deletion of a live fact. -/
theorem Consistent.delete_goes (hs : s.Consistent) (hold : s.facts.get? h = some f) :
    s.Goes (s.delete h).1 h ((s.network.entriesFor f.factType).filter (s.state.holds · h)) []
      (s.delete h).2.events := by
  have hafter := (delete_spec hs h).1.consistent.sound
  rw [(delete_spec hs h).1.network] at hafter
  obtain ⟨p', hrun, heq⟩ := hs.delete_run hold
  have hleaves := hrun.leaves hs.network
  obtain ⟨gone, hgone⟩ : ∃ gone : List Activation, p'.events = gone.map .deactivated :=
    (hrun.departures hs.network).events
  obtain ⟨final, events⟩ := p'
  obtain rfl : events = _ := hgone
  rw [heq] at hafter ⊢
  refine ⟨final, gone, [], ⟨hleaves, hafter, ?_⟩, (List.append_nil _).symm⟩
  rw [turnover, List.map_nil, List.append_nil]
  exact .refl hafter h

/-- The call makes its fact leave the entry. -/
def Quits (s : Session) : Call → NodeId → Prop
  | .insert _, _ | .insertAt _ _, _ => False
  | .update h f, n => ∃ old, s.facts.get? h = some old ∧ s.network.entering h f = .ok () ∧
      s.state.holds n h = true ∧ ¬(s.network.Receives f n ∧ passesBy s.network old f n = true)
  | .delete h, n => s.state.holds n h = true

/-- The call makes its fact enter at the entry. -/
def Takes (s : Session) : Call → NodeId → Prop
  | .insert f, n => (s.facts.insert s.facts.nextHandle f).isOk = true ∧ s.network.Receives f n
  | .insertAt h f, n => (s.facts.insert h f).isOk = true ∧ s.network.Receives f n
  | .update h f, n => ∃ old, s.facts.get? h = some old ∧ s.network.Receives f n ∧
      ¬(s.state.holds n h = true ∧ passesBy s.network old f n = true)
  | .delete _, _ => False

/-- An insertion takes its course if the fact can enter. -/
theorem Consistent.insertAt_goes_of_entering (hs : s.Consistent) (h : Handle) (f : Fact)
    (henter : ¬ (s.insertAt h f).2.Refused) :
    ∃ into, s.Goes (s.insertAt h f).1 h [] into (s.insertAt h f).2.events ∧
      ∀ n, n ∈ into ↔ (s.facts.insert h f).isOk = true ∧ s.network.Receives f n := by
  cases hi : s.facts.insert h f with
  | error cause =>
      rw [insertAt_of_taken hi]
      exact ⟨[], hs.goes_nowhere h rfl rfl, fun n => by simp [Except.isOk, Except.toBool]⟩
  | ok facts' =>
      have hresult : (s.insertAt h f).2.result = s.network.entering h f := by
        rw [result_insertAt hs, insertAnswer, hi]
      cases henters : s.network.entering h f with
      | error err =>
          obtain ⟨failure, rfl, -⟩ := entering_eq_error_iff.mp henters
          exact absurd ⟨h, failure, hresult.trans henters⟩ henter
      | ok u =>
          obtain ⟨l, hm, hcheck⟩ := entering_eq_ok_iff.mp henters
          refine ⟨l, hs.insertAt_goes hi hm hcheck, fun n => ?_⟩
          rw [receives_iff hm hcheck]
          exact (and_iff_right rfl).symm

/-- An update takes its course, or it is refused and nothing happens. -/
theorem Consistent.update_goes_somewhere (hs : s.Consistent) (h : Handle) (f : Fact) :
    ∃ out into, s.Goes (s.update h f).1 h out into (s.update h f).2.events ∧
      (∀ n, n ∈ out ↔ s.Quits (.update h f) n) ∧ ∀ n, n ∈ into ↔ s.Takes (.update h f) n := by
  cases hold : s.facts.get? h with
  | none =>
      refine ⟨[], [], ?_, fun n => by simp [Quits, hold], fun n => by simp [Takes, hold]⟩
      rw [update_of_dead hold]
      exact hs.goes_nowhere h rfl rfl
  | some old =>
      cases henters : s.network.entering h f with
      | error err =>
          have hnot : ∀ n, ¬ s.network.Receives f n := by
            rintro n ⟨l, hm, hcheck, -⟩
            rw [entering_eq_ok_iff.mpr ⟨l, hm, hcheck⟩] at henters
            cases henters
          refine ⟨[], [], ?_,
            fun n => by simp [Quits, hold, henters], fun n => by simp [Takes, hold, hnot]⟩
          -- The version that cannot enter is turned down before anything changes.
          have hresult : (s.update h f).2.result = .error err := by
            rw [result_update hs, updateAnswer, hold, henters]
          rw [update_refused hs hresult]
          exact hs.goes_nowhere h rfl rfl
      | ok u =>
          obtain ⟨l, hm, hcheck⟩ := entering_eq_ok_iff.mp henters
          refine ⟨_, _, hs.update_goes hold hm hcheck, fun n => ?_, fun n => ?_⟩
          · simp only [Quits, hold, henters, Option.some.injEq, exists_eq_left', true_and,
              receives_iff hm hcheck]
            constructor
            · intro hn
              obtain ⟨-, hb⟩ := (mem_retract_iff s h old f l n).mp hn
              simpa [not_and_or, imp_iff_not_or] using hb
            · rintro ⟨hh, hnot⟩
              by_contra hn
              exact hnot (hs.stays_of_not_mem_retract hold hh hn)
          · simp only [Takes, hold, Option.some.injEq, exists_eq_left', receives_iff hm hcheck]
            exact hs.mem_assert_iff hm h old n

/-- **A call takes its course**, unless it inserts a fact that cannot enter. -/
theorem perform_goes (hs : s.Consistent) (c : Call)
    (henter : c.isInsertion = true → ¬ (s.perform c).2.Refused) :
    ∃ out into, s.Goes (s.perform c).1 (c.about s.facts) out into (s.perform c).2.events ∧
      (∀ n, n ∈ out ↔ s.Quits c n) ∧ ∀ n, n ∈ into ↔ s.Takes c n := by
  have hrefused : ∀ {α β : Type} (g : α → β) (r : Reply α), r.Refused → (r.map g).Refused := by
    rintro α β g r ⟨h, failure, heq⟩
    exact ⟨h, failure, by rw [Reply.map, heq]; rfl⟩
  cases c with
  | insert f =>
      obtain ⟨into, hgoes, hinto⟩ := hs.insertAt_goes_of_entering s.facts.nextHandle f fun hr =>
        henter rfl (hrefused _ _ (hrefused (fun _ => s.facts.nextHandle) _ hr))
      exact ⟨[], into, hgoes, fun n => by simp [Quits], hinto⟩
  | insertAt h f =>
      obtain ⟨into, hgoes, hinto⟩ := hs.insertAt_goes_of_entering h f fun hr =>
        henter rfl (hrefused _ _ hr)
      exact ⟨[], into, hgoes, fun n => by simp [Quits], hinto⟩
  | update h f => exact hs.update_goes_somewhere h f
  | delete h =>
      cases hold : s.facts.get? h with
      | none =>
          refine ⟨[], [], ?_, fun n => ?_, fun n => by simp [Takes]⟩
          · simp only [perform, delete_of_dead hold]
            exact hs.goes_nowhere h rfl rfl
          · simp [Quits, hs.not_holds_of_get?_eq_none hold]
      | some f =>
          exact ⟨_, [], hs.delete_goes hold, fun n => hs.mem_leaving_iff hold n,
            fun n => by simp [Takes]⟩

/-! ## What is told on the way -/

namespace Course

variable {mid : MatchState} {gone come : List Activation} {stream : List ActivationEvent}

/-- The story goes on while the fact leaves, and then while it enters. -/
theorem told (hc : s.Course s' h out into mid gone come) (hs : s.Consistent) (ht : s.Told stream) :
    RuleMatching.Told s.network mid.arena (stream ++ turnover gone []) ∧
      RuleMatching.Told s.network s'.state.arena (stream ++ turnover gone [] ++
        turnover [] come) := by
  have hstart : RuleMatching.Told s.network s.state.arena (stream ++ []) := by
    rw [List.append_nil]
    exact ht
  have hmiddle := hc.leaves.changes.told hs.network hs.sound.coherent hstart
  have hend := hc.enters.changes.told hs.network hc.sound.coherent hmiddle
  have hgone : turnover gone [] = gone.map .deactivated := by simp [turnover]
  have hall : stream ++ turnover gone [] ++ turnover [] come = stream ++ turnover gone come := by
    simp [turnover]
  rw [hall, hgone]
  exact ⟨hmiddle, hend⟩

/-- **The activations that end** are of the matches that no longer wait at a terminal once the
fact has left. -/
theorem gone_iff (hc : s.Course s' h out into mid gone come) (hs : s.Consistent)
    (ht : s.Told stream) (name : String) (l : List Handle) :
    (∃ act, act ∈ gone ∧ act.ruleName = name ∧ act.facts = l) ↔
      ∃ r ∈ s.network.rules, r.name = name ∧ Waits s.state r.terminal l ∧
      ¬ Waits mid r.terminal l := by
  rw [← fullMatch_new_iff hs.network hc.leaves.sound hs.sound hc.leaves.drops.kept]
  exact exists_congr fun act => and_congr_left fun _ => ht.mem_gone_iff (hc.told hs ht).1 act

/-- **The activations that come about** are of the matches that wait at a terminal only once the
fact has entered. -/
theorem come_iff (hc : s.Course s' h out into mid gone come) (hs : s.Consistent)
    (ht : s.Told stream) (name : String) (l : List Handle) :
    (∃ act, act ∈ come ∧ act.ruleName = name ∧ act.facts = l) ↔
      ∃ r ∈ s.network.rules, r.name = name ∧ Waits s'.state r.terminal l ∧
      ¬ Waits mid r.terminal l := by
  obtain ⟨hmiddle, hend⟩ := hc.told hs ht
  rw [← fullMatch_new_iff hs.network hc.sound hc.enters.sound hc.enters.adds.kept]
  exact exists_congr fun act => and_congr_left fun _ => hmiddle.mem_come_iff hend act

end Course

end Session

end RuleMatching
