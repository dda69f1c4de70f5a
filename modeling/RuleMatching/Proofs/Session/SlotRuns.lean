import RuleMatching.Proofs.Session.Matches
import RuleMatching.Proofs.Session.Slots

set_option autoImplicit false

/-! # Sessions that keep their matches in slots

A session that keeps its matches in slots shows the same as the session that has the matches alone
(`SlotSession.Shows`): its counts are kept up with every change and not taken by counting, and the
facts of a match are found on the way up through the slots. **Every run that creates no more matches
than a generation can count is answered alike and leads to sessions that show the same**
(`SlotSession.slots_run`). -/

namespace RuleMatching

open Network Session

namespace SlotSession

/-- The session that keeps its matches in slots shows what the other one shows. -/
structure Shows (s : Session) (w : SlotSession) : Prop where
  facts : w.facts = s.facts
  calls : w.calls = s.calls
  counters : w.state.counters = s.state.counters
  handles : ∀ t, w.state.arena.handles t = s.state.arena.handles t
  matchesOf : ∀ rule, matchesOf w rule = s.matchesOf rule
  tupleCount : tupleCount w = s.tupleCount
  holds : ∀ n h, w.state.holds n h = s.state.holds n h
  leftCount : ∀ n, w.state.leftCount n = s.state.leftCount n
  rightCount : ∀ n, w.state.rightCount n = s.state.rightCount n
  nodeCounters : ∀ n, w.state.nodeCounters n = s.state.nodeCounters n

/-- A session whose slots stand for the matches shows what is shown of them. -/
theorem shows_of_keeps {s : Session} {w : SlotSession}
    (h : SessionState.Keeps (fun p q => ∃ m, SlotPropagation.Stands m p q) s w) : Shows s w := by
  obtain ⟨hw, m, hstands⟩ := h
  have hnetwork : w.network = s.network := congrArg Session.network hw
  have hmemories := hstands.memories
  have hhandles : ∀ t, w.state.arena.handles t = s.state.arena.handles t := hstands.shows.handles
  refine ⟨congrArg Session.facts hw, congrArg Session.calls hw, hmemories.counters, hhandles,
    fun rule => ?_, hstands.shows.size, hmemories.holds_eq, hmemories.leftCount_eq,
    hmemories.rightCount_eq, hmemories.nodeCounters_eq⟩
  rw [matchesOf, Session.matchesOf, hnetwork, funext hhandles]
  cases s.network.ruleNamed? rule with
  | none => rfl
  | some r =>
      have htuples : w.state.terminalTuples r.terminal = s.state.terminalTuples r.terminal :=
        hmemories.terminalTuples_eq r.terminal
      simp only [htuples]

/-- **A session that keeps its matches in slots answers every run as the session does that has the
matches alone**, and shows the same afterwards, if the run creates no more matches than a
generation can count. -/
theorem slots_run {rules : List Rule} {schemas : SchemaRegistry} {config : Config} {net : Network}
    (hbuild : Network.build rules schemas config = .ok net) (calls : List Call)
    (hroom : ((Session.ofNetwork net).run calls).1.state.counters.created ≤ UInt32.size) :
    ((ofNetwork net).run calls).2 = ((Session.ofNetwork net).run calls).2 ∧
      Shows ((Session.ofNetwork net).run calls).1 ((ofNetwork net).run calls).1 := by
  have hnet := wellFormed_build hbuild
  obtain ⟨hkeeps, hreplies⟩ :=
    (SlotPropagation.simulates hnet le_rfl).run_ofNetwork hnet calls hroom
  exact ⟨hreplies, shows_of_keeps hkeeps⟩

/-- Slots are used again: twelve matches were created in eight slots, and six of them are left. -/
theorem slots_orders : ∃ net, Network.build [pairRule] orderSchemas .standard = .ok net ∧
    ((Session.ofNetwork net).run orderCalls).1.state.counters.created ≤ UInt32.size ∧
    let w := ((ofNetwork net).run orderCalls).1
    w.state.counters.created = 12 ∧ w.state.arena.slots.length = 8 ∧ tupleCount w = 6 ∧
      ((ofNetwork net).run orderCalls).2 = ((Session.ofNetwork net).run orderCalls).2 ∧
      Shows ((Session.ofNetwork net).run orderCalls).1 w := by
  obtain ⟨net, hnet, hroom, hcreated, hslots, hcount⟩ : ∃ net,
      Network.build [pairRule] orderSchemas .standard = .ok net ∧
        ((Session.ofNetwork net).run orderCalls).1.state.counters.created ≤ UInt32.size ∧
        ((ofNetwork net).run orderCalls).1.state.counters.created = 12 ∧
        ((ofNetwork net).run orderCalls).1.state.arena.slots.length = 8 ∧
        tupleCount ((ofNetwork net).run orderCalls).1 = 6 :=
    ⟨_, rfl, by decide +kernel, by decide +kernel, by decide +kernel, by decide +kernel⟩
  obtain ⟨hreplies, hshows⟩ := slots_run hnet orderCalls hroom
  exact ⟨net, hnet, hroom, hcreated, hslots, hcount, hreplies, hshows⟩

end SlotSession

end RuleMatching
