import RuleMatching.Proofs.Session.Lockstep
import RuleMatching.Proofs.Session.Matches
import RuleMatching.Session.Statistics

set_option autoImplicit false

/-! # The length of index keys

A session whose joins look up what they need in an index and one whose joins try all that they have
do the same: they answer every call alike, report the same activations of the same tuples in the
same order, and show the same at every node (`Session.keyDepth_run`). The longest key that an index
may have is thus a matter of layout; the sessions stay alike in everything else (`Session.Alike`),
call after call. -/

namespace RuleMatching

open Network Propagation

/-- The sessions are the same but for the length of index keys, and for the places where the joins
keep their items. -/
structure Session.Alike (d : Nat) (s s' : Session) : Prop where
  network : s'.network = s.network.atDepth d
  facts : s'.facts = s.facts
  state : s.state.Alike s'.state
  calls : s'.calls = s.calls

namespace Session

variable {d : Nat} {s s' : Session} {facts : FactStore} {k : Handle} {f : Fact}
    {out into : List NodeId}

theorem Alike.routesAlike (h : Alike d s s') : s.network.RoutesAlike s'.network := by
  rw [h.network]
  exact routesAlike_atDepth s.network d

/-! ## The work of a call -/

theorem Ready.atDepth (hready : s.Ready facts k f out into) (h : Alike d s s') :
    s'.Ready facts k f out into := by
  refine ⟨hready.version, hready.nodup_out, fun n hn => ?_, hready.nodup_into, fun n hn => ?_,
    fun n hn hh => ?_, fun e he k' hk hne => ?_⟩
  · rw [h.state.holds]
    exact hready.held n hn
  · obtain ⟨e, he, rfl⟩ := hready.entries n hn
    rw [h.network, allEntries_atDepth]
    exact ⟨e.atDepth d, List.mem_map_of_mem he, rfl⟩
  · rw [h.state.holds] at hh
    exact hready.free n hn hh
  · rw [h.network, allEntries_atDepth] at he
    obtain ⟨e₀, he₀, rfl⟩ := List.mem_map.mp he
    rw [h.state.holds] at hk
    rw [h.facts]
    exact hready.alike e₀ he₀ k' hk hne

theorem run_alike (h : Alike d s s') (hs : s.Consistent) (hs' : s'.Consistent)
    (hready : s.Ready facts k f out into) :
    (Propagation.run s.network facts k out into (⟨s.state, []⟩ : Propagation)).1.Alike
      (Propagation.run s'.network facts k out into (⟨s'.state, []⟩ : Propagation)).1 := by
  have hready' := hready.atDepth h
  obtain ⟨p, hleave, hleaves, -, hsound⟩ := hs.leaveAll_spec hready
  obtain ⟨p', hleave', hleaves', -, hsound'⟩ := hs'.leaveAll_spec hready'
  have hstart : Propagation.Alike ⟨s.state, []⟩ ⟨s'.state, []⟩ := ⟨h.state, rfl⟩
  have hnet' := hs'.network
  have hs₀' := hs'.sound
  rw [Propagation.run, Propagation.run, hleave, hleave']
  rw [h.network] at hnet' hs₀' hleave' hsound' ⊢
  rw [h.facts] at hs₀'
  have hleft := leaveAll_alike hs.network hnet' hs.sound hs₀' hstart hready.nodup_out hready.held
  rw [hleave, hleave'] at hleft
  exact enterAll_alike hs.network hnet' hsound hsound' hleft hready.version hready.nodup_into
    hready.entries (hready.not_holds_of_leaves hleaves)

/-- **The work of a call keeps sessions alike, with the same answer.** Here `s₁` and `s₁'` are the
sessions in the middle of the call. -/
theorem propagate_alike (h : Alike d s s') (hs : s.Consistent) (hs' : s'.Consistent)
    {s₁ s₁' : Session} (h₁ : Alike d s₁ s₁') (hnet : s₁.network = s.network)
    (hstate : s₁.state = s.state) (hstate' : s₁'.state = s'.state)
    (hready : s.Ready s₁.facts k f out into) :
    Alike d (s₁.propagate k out into).1 (s₁'.propagate k out into).1 ∧
      (s₁'.propagate k out into).2 = (s₁.propagate k out into).2 := by
  have hrun := run_alike h hs hs' hready
  obtain ⟨q, hq, -⟩ := hs.run_spec hready
  obtain ⟨q', hq', -⟩ := hs'.run_spec (hready.atDepth h)
  rw [hq, hq'] at hrun
  have hnet' : s₁'.network = s'.network := by rw [h₁.network, hnet, h.network]
  rw [propagate_eq, propagate_eq, hnet, hstate, hq, hnet', h₁.facts, hstate', hq',
    h.routesAlike.checkEntries]
  cases checkEntries s.network f into with
  | ok u =>
      exact ⟨⟨h₁.network, h₁.facts, hrun.toAlike, h₁.calls⟩, congrArg (Reply.mk _) hrun.events⟩
  | error failure =>
      refine ⟨⟨h₁.network, h₁.facts, hrun.toAlike, ?_⟩, congrArg (Reply.mk _) hrun.events⟩
      exact congrArg
        (fun c : CallCounters => { c with propagationErrors := c.propagationErrors + 1 }) h₁.calls

/-- A call that is stopped before it has changed anything leaves sessions alike. -/
theorem refuse_alike {α : Type} (h : Alike d s s') (err : EngineError) :
    Alike d (s.refuse (α := α) err).1 (s'.refuse (α := α) err).1 ∧
      (s'.refuse (α := α) err).2 = (s.refuse err).2 :=
  ⟨⟨h.network, h.facts, h.state, congrArg
    (fun c : CallCounters => { c with propagationErrors := c.propagationErrors + 1 }) h.calls⟩, rfl⟩

/-! ## Calls -/

theorem Alike.inserted (h : Alike d s s') (facts : FactStore) :
    Alike d (s.inserted facts) (s'.inserted facts) :=
  ⟨h.network, rfl, h.state,
    congrArg (fun c : CallCounters => { c with inserts := c.inserts + 1 }) h.calls⟩

theorem Alike.replaced (h : Alike d s s') (k : Handle) (f : Fact) (plan : UpdatePlan) :
    Alike d (s.replaced k f plan) (s'.replaced k f plan) :=
  ⟨h.network, congrArg (fun facts : FactStore => facts.set k f) h.facts, h.state, congrArg
    (fun c : CallCounters =>
      { c with updates := c.updates + 1, skippedUpdates := c.skippedUpdates + plan.skipped })
        h.calls⟩

/-- What an update does at the entries does not depend on the length of keys. -/
theorem Alike.planUpdate_eq (h : Alike d s s') (k : Handle) (old f : Fact) (reached : List NodeId) :
    s'.planUpdate k old f reached = s.planUpdate k old f reached := by
  have hpass : ∀ n, passesBy s'.network old f n = passesBy s.network old f n := by
    intro n
    rw [h.network, passesBy, passesBy, isAffected_atDepth]
    rfl
  have hcandidates : candidates s'.network old f = candidates s.network old f := by
    rw [h.network]
    rfl
  rw [Session.planUpdate_eq, Session.planUpdate_eq, hcandidates]
  simp only [h.state.holds, hpass]

section Calls

variable (h : Alike d s s') (hs : s.Consistent) (hs' : s'.Consistent)

include h hs hs'

theorem insertAt_alike (k : Handle) (f : Fact) :
    Alike d (s.insertAt k f).1 (s'.insertAt k f).1 ∧ (s'.insertAt k f).2 = (s.insertAt k f).2 := by
  have hinsert : s'.facts.insert k f = s.facts.insert k f := by rw [h.facts]
  have hreach := h.routesAlike.matching f
  have hbranch := insertAt_branch s k f
  generalize s.insertAt k f = o at hbranch ⊢
  cases hbranch with
  | taken hi =>
      rw [insertAt_of_taken (hinsert.trans hi)]
      exact ⟨h, rfl⟩
  | unroutable hi hm =>
      rw [insertAt_of_unroutable (hinsert.trans hi) (hreach.trans hm)]
      exact refuse_alike (h.inserted _) _
  | routed hi hm =>
      rw [insertAt_of_routed (hinsert.trans hi) (hreach.trans hm)]
      exact propagate_alike h hs hs' (h.inserted _) rfl rfl rfl (hs.ready_insert hi hm)

theorem update_alike (k : Handle) (f : Fact) :
    Alike d (s.update k f).1 (s'.update k f).1 ∧ (s'.update k f).2 = (s.update k f).2 := by
  have hget : s'.facts.get? k = s.facts.get? k := by rw [h.facts]
  have hreach := h.routesAlike.matching f
  have hbranch := update_branch s k f
  generalize s.update k f = o at hbranch ⊢
  cases hbranch with
  | dead hold =>
      rw [update_of_dead (hget.trans hold)]
      exact ⟨h, rfl⟩
  | unroutable hold hm =>
      rw [update_of_unroutable (hget.trans hold) (hreach.trans hm)]
      exact refuse_alike h _
  | unreadable hold hm hcheck =>
      rw [← h.planUpdate_eq, ← h.routesAlike.checkEntries] at hcheck
      rw [update_of_unreadable (hget.trans hold) (hreach.trans hm) hcheck]
      exact refuse_alike h _
  | checked hold hm hcheck =>
      rw [← h.planUpdate_eq, ← h.routesAlike.checkEntries] at hcheck
      rw [update_of_checked (hget.trans hold) (hreach.trans hm) hcheck, h.planUpdate_eq]
      exact propagate_alike h hs hs' (h.replaced k f _) rfl rfl rfl (hs.ready_update hold hm)

theorem delete_alike (k : Handle) :
    Alike d (s.delete k).1 (s'.delete k).1 ∧ (s'.delete k).2 = (s.delete k).2 := by
  cases hf : s.facts.get? k with
  | none =>
      rw [delete_of_dead hf, delete_of_dead (h.facts ▸ hf)]
      exact ⟨h, rfl⟩
  | some f =>
      rw [delete_of_live_eq hf, delete_of_live_eq (h.facts ▸ hf)]
      have hout : (s'.network.entriesFor f.factType).filter (s'.state.holds · k) =
          (s.network.entriesFor f.factType).filter (s.state.holds · k) := by
        simp only [h.state.holds, h.network]
        rfl
      obtain ⟨hafter, hreply⟩ := propagate_alike h hs hs' h rfl rfl rfl (hs.ready_delete hf)
      simp only [hout]
      -- What is left of the call looks at the outcomes alone.
      generalize s.propagate k _ [] = r at hafter hreply ⊢
      generalize s'.propagate k _ [] = r' at hafter hreply ⊢
      obtain ⟨s₁, reply⟩ := r
      obtain ⟨s₁', reply'⟩ := r'
      simp only at hafter hreply ⊢
      subst hreply
      cases reply'.result with
      | error err => exact ⟨hafter, rfl⟩
      | ok u =>
          simp only [forget, hafter.facts]
          cases s₁.facts.remove k with
          | error cause => exact ⟨hafter, rfl⟩
          | ok removed => exact ⟨⟨hafter.network, rfl, hafter.state, congrArg
              (fun c : CallCounters => { c with deletes := c.deletes + 1 }) hafter.calls⟩, rfl⟩

/-- **A call keeps sessions alike, with the same reply.** -/
theorem perform_alike (c : Call) :
    Alike d (s.perform c).1 (s'.perform c).1 ∧ (s'.perform c).2 = (s.perform c).2 := by
  cases c with
  | insert f =>
      obtain ⟨hafter, hreply⟩ := insertAt_alike h hs hs' s.facts.nextHandle f
      unfold perform insert
      simp only [h.facts]
      rw [hreply]
      exact ⟨hafter, rfl⟩
  | insertAt k f =>
      obtain ⟨hafter, hreply⟩ := insertAt_alike h hs hs' k f
      exact ⟨hafter, congrArg (Reply.map _) hreply⟩
  | update k f =>
      obtain ⟨hafter, hreply⟩ := update_alike h hs hs' k f
      exact ⟨hafter, congrArg (Reply.map _) hreply⟩
  | delete k =>
      obtain ⟨hafter, hreply⟩ := delete_alike h hs hs' k
      exact ⟨hafter, congrArg (Reply.map _) hreply⟩

/-- **A run keeps sessions alike, with the same replies.** -/
theorem alike_run (calls : List Call) :
    Alike d (s.run calls).1 (s'.run calls).1 ∧ (s'.run calls).2 = (s.run calls).2 := by
  induction calls generalizing s s' with
  | nil => exact ⟨h, rfl⟩
  | cons c rest ih =>
      obtain ⟨hstep, hreply⟩ := perform_alike h hs hs' c
      obtain ⟨hrest, hreplies⟩ :=
        ih hstep (perform_spec hs c).1.consistent (perform_spec hs' c).1.consistent
      refine ⟨hrest, ?_⟩
      rw [run, run, hreply, hreplies]

end Calls

/-! ## Fresh sessions -/

theorem alike_ofNetwork (net : Network) (d : Nat) :
    Alike d (ofNetwork net) (ofNetwork (net.atDepth d)) := by
  refine ⟨rfl, rfl, ?_, rfl⟩
  show MatchState.Alike (.ofNetwork net) (.ofNetwork (net.atDepth d))
  rw [MatchState.ofNetwork_eq, MatchState.ofNetwork_eq, allJoins_atDepth,
    show (net.atDepth d).rules = net.rules.map (CompiledRule.atDepth d) from rfl]
  refine ⟨rfl, List.foldl_map, fun n => ?_, List.foldl_map, rfl⟩
  simp only [List.foldl_map]
  -- Every join gets an empty memory, of whatever kind.
  have hfold : ∀ (es : List Entry) (joins joins' : FiniteMap NodeId JoinMemory),
      (∀ n, (joins'.get? n).map JoinMemory.face = (joins.get? n).map JoinMemory.face) →
      ((es.foldl
        (fun m e => m.insert (e.atDepth d).node (MatchState.emptyJoin (e.atDepth d).condition))
        joins').get? n).map JoinMemory.face =
      ((es.foldl (fun m e => m.insert e.node (MatchState.emptyJoin e.condition)) joins).get? n).map
        JoinMemory.face := by
    intro es
    induction es with
    | nil => exact fun _ _ h => h n
    | cons e rest ih =>
        have hface : (MatchState.emptyJoin (e.atDepth d).condition).face =
            (MatchState.emptyJoin e.condition).face := rfl
        exact fun _ _ h => ih _ _ (JoinMemory.face_insert h hface e.node)
  exact hfold net.allJoins .empty .empty fun _ => rfl

/-! ## What sessions show -/

/-- The sessions show the same: the same facts, the same matches of every rule, as many items at
every node, and the same counters of nodes, matches and calls. -/
structure SameView (s s' : Session) : Prop where
  facts : s'.facts = s.facts
  matchesOf : ∀ rule, s'.matchesOf rule = s.matchesOf rule
  leftCount : ∀ n, s'.state.leftCount n = s.state.leftCount n
  rightCount : ∀ n, s'.state.rightCount n = s.state.rightCount n
  nodeCounters : ∀ n, s'.state.nodeCounters n = s.state.nodeCounters n
  tupleCount : s'.tupleCount = s.tupleCount
  callStatistics : s'.callStatistics = s.callStatistics

section View

variable (h : Alike d s s') (hs : s.Consistent) (hs' : s'.Consistent)

include h

theorem Alike.matchesOf (rule : String) : s'.matchesOf rule = s.matchesOf rule := by
  have hhandles : s'.state.arena.handles = s.state.arena.handles := funext h.state.arena.handles
  unfold Session.matchesOf MatchState.terminalTuples
  rw [h.network, ruleNamed?_atDepth, hhandles, h.state.terminals]
  cases s.network.ruleNamed? rule <;> rfl

theorem Alike.nodeCounters (n : NodeId) : s'.state.nodeCounters n = s.state.nodeCounters n := by
  have hcounters := congrArg (Option.map Prod.snd) (h.state.joins n)
  rw [Option.map_map, Option.map_map] at hcounters
  unfold MatchState.nodeCounters
  rw [h.state.adapters, h.state.terminals]
  exact congrArg (fun o : Option NodeCounters =>
    ((s.state.adapters.get? n).map AdapterMemory.counters <|> o <|>
      (s.state.terminals.get? n).map TerminalMemory.counters).getD {}) hcounters

include hs hs'

/-- A join has as many matches on its left and facts on its right in both sessions, wherever
it keeps them. -/
theorem Alike.sizes (n : NodeId) :
    (s'.state.joins.get? n).map (fun m => (m.left.size, m.right.size)) =
      (s.state.joins.get? n).map fun m => (m.left.size, m.right.size) := by
  cases hm : s.state.joins.get? n with
  | none =>
      have hface := h.state.joins n
      rw [hm] at hface
      rw [Option.map_eq_none_iff.mp hface]
  | some m =>
      obtain ⟨e, he, rfl⟩ := hs.sound.coherent.joins.only_sites n m hm
      have he' : e.atDepth d ∈ s'.network.allJoins := by
        rw [h.network]
        exact mem_allJoins_atDepth he d
      have hfits := hs.sound.coherent.joins.fits_of_get? he hm
      obtain ⟨m', hm', hfits'⟩ := hs'.sound.coherent.joins.at_site (e.atDepth d) he'
      have hkeys : m'.rightEntries.keys = m.rightEntries.keys :=
        congrArg Prod.fst (h.state.face_eq hm hm')
      have hleft : m'.left.size = m.left.size := by
        rw [hfits.left.holds.size_eq (Arena.nodup_storedAt hs.sound.coherent.arena.valid _),
          hfits'.left.holds.size_eq (Arena.nodup_storedAt hs'.sound.coherent.arena.valid _),
          h.state.arena.storedAt]
        rfl
      have hright : m'.right.size = m.right.size := by
        rw [hfits.right.holds.size_eq m.rightEntries.nodup_keys,
          hfits'.right.holds.size_eq m'.rightEntries.nodup_keys, hkeys]
      rw [show s'.state.joins.get? e.node = some m' from hm', Option.map_some, Option.map_some,
        hleft, hright]

theorem Alike.sameView : SameView s s' := by
  have hsizes := h.sizes hs hs'
  refine ⟨h.facts, h.matchesOf, fun n => ?_, fun n => ?_, h.nodeCounters, h.state.arena.size, ?_⟩
  · have hleft := congrArg (Option.map Prod.fst) (hsizes n)
    rw [Option.map_map, Option.map_map] at hleft
    unfold MatchState.leftCount
    rw [h.state.adapters, h.state.terminals]
    exact congrArg (fun o : Option Nat => _ + o.getD 0 + _) hleft
  · have hright := congrArg (Option.map Prod.snd) (hsizes n)
    rw [Option.map_map, Option.map_map] at hright
    exact congrArg (fun o : Option Nat => o.getD 0) hright
  · rw [Session.callStatistics, Session.callStatistics, h.calls, h.state.counters]

end View

/-- **The length of index keys is a matter of layout.** Whatever lengths two networks of the same
rules allow, with none at all for joins without an index, two sessions with them give the same
replies to every run of calls, with the same events of the same tuples in the same order, and then
show the same. -/
theorem keyDepth_run {rules : List Rule} {schemas : SchemaRegistry} {config : Config} {a b : Nat}
    {net : Network} (h : Network.build rules schemas { config with keyDepth := a } = .ok net)
    (hb : Config.validate { config with keyDepth := b } = .ok ()) (calls : List Call) :
    ∃ net', Network.build rules schemas { config with keyDepth := b } = .ok net' ∧
      (b = 0 → ∀ e ∈ net'.allJoins, e.condition.isIndexed = false) ∧
      ((ofNetwork net').run calls).2 = ((ofNetwork net).run calls).2 ∧
      SameView ((ofNetwork net).run calls).1 ((ofNetwork net').run calls).1 := by
  have h' := build_atDepth (d := b) h hb
  have hs := (wellFormed_build h).consistent_ofNetwork
  have hs' := (wellFormed_build h').consistent_ofNetwork
  obtain ⟨halike, hreplies⟩ := alike_run (alike_ofNetwork net b) hs hs' calls
  refine ⟨net.atDepth b, h', ?_, hreplies, halike.sameView ?_ ?_⟩
  · rintro rfl e he
    exact isIndexed_atDepth_zero he
  · exact (run_ofNetwork (wellFormed_build h) calls).2.1
  · exact (run_ofNetwork (wellFormed_build h') calls).2.1

/-- Pairs of orders, found through an index and by trying them all. -/
theorem keyDepth_orders : ∃ net,
    Network.build [pairRule] orderSchemas { Config.standard with keyDepth := 3 } = .ok net ∧
    Config.validate { Config.standard with keyDepth := 0 } = .ok () ∧
    ∃ net', Network.build [pairRule] orderSchemas { Config.standard with keyDepth := 0 } =
      .ok net' ∧
      (∀ e ∈ net'.allJoins, e.condition.isIndexed = false) ∧
      ((ofNetwork net').run orderCalls).2 = ((ofNetwork net).run orderCalls).2 ∧
      SameView ((ofNetwork net).run orderCalls).1 ((ofNetwork net').run orderCalls).1 := by
  obtain ⟨net, hnet⟩ : ∃ net, Network.build [pairRule] orderSchemas
      { Config.standard with keyDepth := 3 } = .ok net := ⟨_, rfl⟩
  obtain ⟨net', hnet', hlinear, hrun⟩ := keyDepth_run (b := 0) hnet rfl orderCalls
  exact ⟨net, hnet, rfl, net', hnet', hlinear rfl, hrun⟩

end Session

end RuleMatching
