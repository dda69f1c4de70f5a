import Mathlib.Data.List.Sort
import RuleMatching.Proofs.Session.Log
import RuleMatching.Proofs.Session.Renaming

set_option autoImplicit false

/-! # Passing entries by

An update may pass by the entries that none of its changes concerns. Whether it does is a matter of
the configuration that nobody can see: two sessions that differ in it alone give the same answers
and have the same facts, matches and activations in force (`Session.skipping_run`). Both are
consistent and current, and then what a session answers and holds is determined by its facts
(`Session.perform_spec`, `Session.Current.sameContents`). -/

namespace RuleMatching

open Network

/-- The network in which updates pass entries by, or not. -/
def Network.passingBy (net : Network) (on : Bool) : Network :=
  { net with config := { net.config with skipUnaffected := on } }

/-- The counters without the number of entries passed by. -/
def CallCounters.withoutSkips (c : CallCounters) : CallCounters := { c with skippedUpdates := 0 }

/-- Compilation does not depend on whether updates pass entries by. -/
theorem Network.build_passingBy {rules : List Rule} {schemas : SchemaRegistry} {config : Config}
    {net : Network} {a b : Bool}
    (h : build rules schemas { config with skipUnaffected := a } = .ok net) :
    build rules schemas { config with skipUnaffected := b } = .ok (net.passingBy b) := by
  obtain ⟨hvalid, builder, hfold, rfl⟩ := build_eq_ok_iff.mp h
  exact build_eq_ok_iff.mpr ⟨hvalid, builder, hfold, rfl⟩

namespace Session

/-! ## Counters -/

/-- The counters after an insertion. -/
def insertTally (net : Network) (facts : FactStore) (calls : CallCounters) (h : Handle) (f : Fact) :
    CallCounters :=
  match facts.insert h f with
  | .error _ => calls
  | .ok _ =>
    match net.entering h f with
    | .ok () => { calls with inserts := calls.inserts + 1 }
    | .error _ =>
      { calls with inserts := calls.inserts + 1, propagationErrors := calls.propagationErrors + 1 }

/-- The counters after an update. -/
def updateTally (net : Network) (facts : FactStore) (calls : CallCounters) (h : Handle) (f : Fact) :
    CallCounters :=
  match facts.get? h with
  | none => calls
  | some _ =>
    match net.entering h f with
    | .ok () => { calls with updates := calls.updates + 1 }
    | .error _ => { calls with propagationErrors := calls.propagationErrors + 1 }

/-- The counters after a deletion. -/
def deleteTally (facts : FactStore) (calls : CallCounters) (h : Handle) : CallCounters :=
  match facts.get? h with
  | none => calls
  | some _ => { calls with deletes := calls.deletes + 1 }

/-- The counters after a call. -/
def tally (net : Network) (facts : FactStore) (calls : CallCounters) : Call → CallCounters
  | .insert f => insertTally net facts calls facts.nextHandle f
  | .insertAt h f => insertTally net facts calls h f
  | .update h f => updateTally net facts calls h f
  | .delete h => deleteTally facts calls h

variable {s : Session}

/-- The work on the matches leaves the facts, and is counted if it fails. -/
theorem propagate_facts_calls (s : Session) (h : Handle) (out into : List NodeId) :
    (s.propagate h out into).1.facts = s.facts ∧
      (s.propagate h out into).1.calls =
        match (s.propagate h out into).2.result with
        | .ok _ => s.calls
        | .error _ => { s.calls with propagationErrors := s.calls.propagationErrors + 1 } := by
  rw [propagate_eq]
  generalize Propagation.run s.network s.facts h out into (⟨s.state, []⟩ : Propagation) = o
  obtain ⟨p, _ | err⟩ := o <;> exact ⟨rfl, rfl⟩

theorem calls_insertAt (hs : s.Consistent) (h : Handle) (f : Fact) :
    (s.insertAt h f).1.calls.withoutSkips =
      insertTally s.network s.facts s.calls.withoutSkips h f := by
  have hresult := result_insertAt hs h f
  have hbranch := insertAt_branch s h f
  generalize s.insertAt h f = o at hresult hbranch ⊢
  unfold insertAnswer at hresult
  unfold insertTally
  cases hbranch with
  | taken hi => rw [hi]
  | unroutable hi hm =>
      rw [hi]
      simp only [entering, hm]
      rfl
  | @routed facts' l hi hm =>
      rw [hi] at hresult ⊢
      rw [(propagate_facts_calls (s.inserted facts') h [] l).2, hresult]
      simp only
      cases s.network.entering h f <;> rfl

theorem calls_update (hs : s.Consistent) (h : Handle) (f : Fact) :
    (s.update h f).1.calls.withoutSkips =
      updateTally s.network s.facts s.calls.withoutSkips h f := by
  have hbranch := update_branch s h f
  generalize s.update h f = o at hbranch ⊢
  unfold updateTally
  cases hbranch with
  | dead hold => rw [hold]
  | unroutable hold hm =>
      rw [hold]
      simp only [entering, hm]
      rfl
  | unreadable hold hm hcheck =>
      rw [hs.checkEntries_assert hold hm] at hcheck
      rw [hold]
      simp only [entering, hm, hcheck]
      rfl
  | @checked old l hold hm hcheck =>
      rw [hs.checkEntries_assert hold hm] at hcheck
      rw [hold, (propagate_facts_calls _ h _ _).2, (hs.carryOut_spec hold hm hcheck).2.2]
      simp only [entering, hm, hcheck]
      rfl

theorem calls_delete (hs : s.Consistent) (h : Handle) :
    (s.delete h).1.calls.withoutSkips = deleteTally s.facts s.calls.withoutSkips h := by
  unfold deleteTally
  cases hold : s.facts.get? h with
  | none =>
      rw [delete_of_dead hold]
  | some f =>
      obtain ⟨p', -, heq⟩ := hs.delete_run hold
      rw [heq]
      rfl

/-- **The counters of a session depend on its facts alone**, but for the number of
entries passed by. -/
theorem calls_perform (hs : s.Consistent) (c : Call) :
    (s.perform c).1.calls.withoutSkips = tally s.network s.facts s.calls.withoutSkips c := by
  cases c with
  | insert f => exact calls_insertAt hs s.facts.nextHandle f
  | insertAt h f => exact calls_insertAt hs h f
  | update h f => exact calls_update hs h f
  | delete h => exact calls_delete hs h

/-! ## Two sessions in step -/

/-- The sessions differ in whether updates pass entries by, and in nothing that it
should not touch. -/
structure InStep (on : Bool) (s s' : Session) : Prop where
  network : s'.network = s.network.passingBy on
  facts : s'.facts = s.facts
  calls : s'.calls.withoutSkips = s.calls.withoutSkips

theorem tally_congr {net net' : Network} (h : net.RoutesAlike net') (facts : FactStore)
    (calls : CallCounters) (c : Call) : tally net' facts calls c = tally net facts calls c := by
  cases c <;> simp only [tally, insertTally, updateTally, h.entering]

variable {s' : Session} {on : Bool}

theorem InStep.routesAlike (h : InStep on s s') : s.network.RoutesAlike s'.network := by
  rw [h.network]
  exact ⟨fun f => rfl, fun n f => rfl⟩

/-- A call keeps the sessions in step, with the same result. -/
theorem InStep.perform (h : InStep on s s') (hs : s.Consistent) (hs' : s'.Consistent) (c : Call) :
    InStep on (s.perform c).1 (s'.perform c).1 ∧
    (s'.perform c).2.result = (s.perform c).2.result := by
  obtain ⟨hadvances, hanswer⟩ := perform_spec hs c
  obtain ⟨hadvances', hanswer'⟩ := perform_spec hs' c
  rw [h.facts, answer_congr h.routesAlike, ← hanswer] at hanswer'
  obtain ⟨hfacts, hresult⟩ := Prod.mk.inj hanswer'
  refine ⟨⟨?_, hfacts, ?_⟩, hresult⟩
  · rw [hadvances.network, hadvances'.network, h.network]
  · rw [calls_perform hs, calls_perform hs', h.facts, h.calls, tally_congr h.routesAlike]

/-- **A run keeps the sessions in step, with the same results.** -/
theorem InStep.run (h : InStep on s s') (hs : s.Consistent) (hs' : s'.Consistent)
    (calls : List Call) :
    InStep on (s.run calls).1 (s'.run calls).1 ∧
      (s'.run calls).2.map Reply.result = (s.run calls).2.map Reply.result := by
  induction calls generalizing s s' with
  | nil => exact ⟨h, rfl⟩
  | cons c rest ih =>
      obtain ⟨hstep, hresult⟩ := h.perform hs hs' c
      obtain ⟨hrest, hresults⟩ :=
        ih hstep (perform_spec hs c).1.consistent (perform_spec hs' c).1.consistent
      refine ⟨hrest, ?_⟩
      show (s'.perform c).2.result :: _ = (s.perform c).2.result :: _
      rw [hresult, hresults]

/-! ## Contents -/

/-- The sessions hold the same: the same matches of every rule, and as many items in as many lists
at every node. -/
structure SameContents (s s' : Session) : Prop where
  matchesOf : ∀ rule, s'.matchesOf rule = s.matchesOf rule
  leftCount : ∀ n, s'.state.leftCount n = s.state.leftCount n
  rightCount : ∀ n, s'.state.rightCount n = s.state.rightCount n
  buckets : ∀ n, (s'.state.joins.get? n).map (fun m => (m.left.bucketCount, m.right.bucketCount)) =
    (s.state.joins.get? n).map fun m => (m.left.bucketCount, m.right.bucketCount)
  tupleCount : s'.tupleCount = s.tupleCount

/-- **Current sessions with the same facts hold the same.** -/
theorem Current.sameContents (hs : s.Consistent) (hc : s.Current) (hs' : s'.Consistent)
    (hc' : s'.Current) (hrules : s'.network.rules = s.network.rules)
    (hroutes : s.network.RoutesAlike s'.network) (hfacts : s'.facts = s.facts) :
    SameContents s s' := by
  have hren : s.facts.Renames id s'.facts := hfacts ▸ .refl s.facts
  have hsame := sameUnder hs hc hs' hc' hrules hroutes hren
  refine ⟨fun rule => ?_, hsame.leftCount, hsame.rightCount, hsame.buckets, hsame.tupleCount⟩
  have hperm := hsame.matchesOf rule
  rw [List.map_id_fun, List.map_id] at hperm
  exact matchesOf_eq_of_perm hperm

/-- The activations in force are of the matches of the rules. -/
theorem Current.mem_inForce_iff (hs : s.Consistent) (hc : s.Current) {log : ActivationLog}
    (hlog : s.Logs log) (id : RuleId) (l : List Handle) :
    (id, l) ∈ log.inForce ↔ ∃ r ∈ s.network.rules, r.id = id ∧
    s.network.IsMatch s.facts r.entries l := by
  rw [ActivationLog.inForce, List.mem_map]
  constructor
  · rintro ⟨act, hact, heq⟩
    obtain ⟨r, hr, x, hx, rfl⟩ := (hlog act).mp hact
    obtain ⟨rfl, rfl⟩ := Prod.mk.inj heq
    exact ⟨r, hr, rfl, (mem_handles_iff hs hc (Cut.terminal hr) (List.cons_ne_nil _ _) _).mp
      (List.mem_map_of_mem hx)⟩
  · rintro ⟨r, hr, rfl, hmatch⟩
    have hmem := (mem_handles_iff hs hc (Cut.terminal hr) (List.cons_ne_nil _ _) l).mpr hmatch
    obtain ⟨x, hx, rfl⟩ := List.mem_map.mp hmem
    exact ⟨_, (hlog _).mpr ⟨r, hr, x, hx, rfl⟩, rfl⟩

/-- **Nobody can see whether updates pass entries by.** Two sessions that differ in it alone give
the same results, and after every run they have the same facts, hold the same, have the same
activations in force and have counted the same calls; only how many entries were passed by may
differ, which tuples there are and how often memories were changed. -/
theorem skipping_run {rules : List Rule} {schemas : SchemaRegistry} {config : Config}
    {on off : Network}
    (hon : Network.build rules schemas { config with skipUnaffected := true } = .ok on)
    (hoff : Network.build rules schemas { config with skipUnaffected := false } = .ok off)
    (hid : ∀ rule ∈ rules, ∀ p ∈ rule.patterns, ∀ c ∈ p.clauses, c.RespectsIdentity)
    (calls : List Call) :
    let t := (ofNetwork on).run calls
    let t' := (ofNetwork off).run calls
    t'.2.map Reply.result = t.2.map Reply.result ∧
      t'.1.facts = t.1.facts ∧
      SameContents t.1 t'.1 ∧
      (∀ id l, (id, l) ∈ (logOf t'.2).inForce ↔ (id, l) ∈ (logOf t.2).inForce) ∧
      t'.1.calls.withoutSkips = t.1.calls.withoutSkips := by
  intro t t'
  -- The second network is the first one, told not to pass entries by.
  have hoff' := build_passingBy (b := false) hon
  rw [hoff, Except.ok.injEq] at hoff'
  subst hoff'
  have hnet := wellFormed_build hon
  have hnet' := wellFormed_build hoff
  have hstart : InStep false (ofNetwork on) (ofNetwork (on.passingBy false)) := ⟨rfl, rfl, rfl⟩
  obtain ⟨hstep, hresults⟩ :=
    hstart.run hnet.consistent_ofNetwork hnet'.consistent_ofNetwork calls
  obtain ⟨-, hs, hcurrent⟩ := run_ofNetwork hnet calls
  obtain ⟨-, hs', hcurrent'⟩ := run_ofNetwork hnet' calls
  have hc := hcurrent (respectsIdentity_build hon hid)
  have hc' := hcurrent' (respectsIdentity_build hoff hid)
  have hlog := logs_run hnet.consistent_ofNetwork (logs_ofNetwork on) calls
  have hlog' := logs_run hnet'.consistent_ofNetwork (logs_ofNetwork (on.passingBy false)) calls
  have hrules : t'.1.network.rules = t.1.network.rules := by
    rw [hstep.network]
    rfl
  refine ⟨hresults, hstep.facts,
    Current.sameContents hs hc hs' hc' hrules hstep.routesAlike hstep.facts,
    fun id l => ?_, hstep.calls⟩
  -- In force are the activations of the matches, and these are a matter of the facts.
  rw [logOf, logOf, Current.mem_inForce_iff hs hc hlog,
    Current.mem_inForce_iff hs' hc' hlog', hrules, hstep.facts]
  exact exists_congr fun r => and_congr_right fun _ =>
    and_congr_right fun _ => hstep.routesAlike.isMatch_iff _ _

/-- The total of an order changes, which is of no concern to `customerRule`. -/
def totalCalls : List Call := [.insert (order 7 1), .insert (order 7 2), .update 2 (order 7 3)]

theorem respectsIdentity_orderRules :
    ∀ rule ∈ [pairRule, customerRule], ∀ p ∈ rule.patterns, ∀ c ∈ p.clauses,
      c.RespectsIdentity := by
  intro rule hrule
  rcases List.mem_pair.mp hrule with rfl | rfl
  · exact respectsIdentity_pairRule _ (by simp)
  · simp [customerRule, Clause.RespectsIdentity]

/-- The update passes the two entries of `customerRule` by, or goes through all four. -/
theorem skipping_orders : ∃ on off,
    Network.build [pairRule, customerRule] orderSchemas
      { Config.standard with skipUnaffected := true } = .ok on ∧
    Network.build [pairRule, customerRule] orderSchemas
      { Config.standard with skipUnaffected := false } = .ok off ∧
    (∀ rule ∈ [pairRule, customerRule], ∀ p ∈ rule.patterns, ∀ c ∈ p.clauses, c.RespectsIdentity) ∧
    let t := (ofNetwork on).run totalCalls
    let t' := (ofNetwork off).run totalCalls
    t.1.calls.skippedUpdates = 2 ∧ t'.1.calls.skippedUpdates = 0 ∧
      (t.2.flatMap Reply.events).length < (t'.2.flatMap Reply.events).length ∧
      t'.2.map Reply.result = t.2.map Reply.result ∧ SameContents t.1 t'.1 := by
  obtain ⟨on, hon, hskipped⟩ : ∃ net, Network.build [pairRule, customerRule] orderSchemas
      { Config.standard with skipUnaffected := true } = .ok net ∧
      ((ofNetwork net).run totalCalls).1.calls.skippedUpdates = 2 ∧
      (((ofNetwork net).run totalCalls).2.flatMap Reply.events).length = 14 :=
    ⟨_, rfl, by decide +kernel⟩
  obtain ⟨off, hoff, hnone⟩ : ∃ net, Network.build [pairRule, customerRule] orderSchemas
      { Config.standard with skipUnaffected := false } = .ok net ∧
      ((ofNetwork net).run totalCalls).1.calls.skippedUpdates = 0 ∧
      (((ofNetwork net).run totalCalls).2.flatMap Reply.events).length = 20 :=
    ⟨_, rfl, by decide +kernel⟩
  obtain ⟨hresults, -, hcontents, -, -⟩ :=
    skipping_run hon hoff respectsIdentity_orderRules totalCalls
  refine ⟨on, off, hon, hoff, respectsIdentity_orderRules, hskipped.1, hnone.1, ?_, hresults,
    hcontents⟩
  rw [hskipped.2, hnone.2]
  decide

end Session

end RuleMatching
