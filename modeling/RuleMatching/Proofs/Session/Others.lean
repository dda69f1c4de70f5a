import RuleMatching.Proofs.Session.Log
import RuleMatching.Proofs.Session.Traffic

set_option autoImplicit false

/-! # What the work at one rule leaves of the others

All rules of a network share one arena, but no two share a node that stores something. A single
change while a fact enters or leaves a rule concerns the memories of this rule and the tuples that
wait or end there (`Arrival.spares`, `Departure.spares`). **A rule none of whose entries a fact
enters or leaves keeps its memories, its tuples with their records and its counters, and nothing is
reported of it** (`Arrivals.spares`, `Departures.spares`). -/

namespace RuleMatching

open Network Propagation

/-- The rule that an event is about. -/
def ActivationEvent.rule : ActivationEvent → RuleId
  | .activated act | .deactivated act => act.rule

/-- The tuples of a rule with their records, in the order of their creation. -/
def Arena.tuplesOf (a : Arena) (r : CompiledRule) : List (TupleId × Tuple) :=
  a.live.filter fun e => e.2.sink ∈ r.nodes

/-- Every node of the rule has the same memory with the same counters, and the rule has the same
tuples in the same places. -/
structure MatchState.SameAt (r : CompiledRule) (s s' : MatchState) : Prop where
  adapters : ∀ n ∈ r.nodes, s'.adapters.get? n = s.adapters.get? n
  joins : ∀ n ∈ r.nodes, s'.joins.get? n = s.joins.get? n
  terminals : ∀ n ∈ r.nodes, s'.terminals.get? n = s.terminals.get? n
  tuples : s'.arena.tuplesOf r = s.arena.tuplesOf r

/-- Some work leaves a rule as it is and reports nothing of it. -/
structure Propagation.Spares (r : CompiledRule) (p p' : Propagation) : Prop where
  same : p.toMatchState.SameAt r p'.toMatchState
  silent : ∀ event ∈ p'.events, event ∈ p.events ∨ event.rule ≠ r.id

namespace MatchState.SameAt

variable {r : CompiledRule} {s s' s'' : MatchState}

theorem refl (r : CompiledRule) (s : MatchState) : s.SameAt r s :=
  ⟨fun _ _ => rfl, fun _ _ => rfl, fun _ _ => rfl, rfl⟩

theorem trans (h : s.SameAt r s') (h' : s'.SameAt r s'') : s.SameAt r s'' :=
  ⟨fun n hn => (h'.adapters n hn).trans (h.adapters n hn),
    fun n hn => (h'.joins n hn).trans (h.joins n hn),
    fun n hn => (h'.terminals n hn).trans (h.terminals n hn), h'.tuples.trans h.tuples⟩

end MatchState.SameAt

namespace Propagation.Spares

variable {r : CompiledRule} {p p' p'' : Propagation}

theorem refl (r : CompiledRule) (p : Propagation) : Spares r p p := ⟨.refl r _, fun _ h => Or.inl h⟩

theorem trans (h : Spares r p p') (h' : Spares r p' p'') : Spares r p p'' := by
  refine ⟨h.same.trans h'.same, fun event hevent => ?_⟩
  rcases h'.silent event hevent with hold | hother
  · exact h.silent event hold
  · exact Or.inr hother

/-- Work that reports nothing. -/
theorem of_same (h : p.toMatchState.SameAt r p'.toMatchState) (hevents : p'.events = p.events) :
    Spares r p p' :=
  ⟨h, fun _ hevent => Or.inl (hevents ▸ hevent)⟩

end Propagation.Spares

/-! ## The nodes of a rule -/

namespace Network

variable {net : Network} {r : CompiledRule} {before later : List Entry} {e : Entry}

theorem Cut.node_mem (h : net.Cut r before (e :: later)) : e.node ∈ r.nodes :=
  List.mem_append_left _ (List.mem_map_of_mem (by rw [h.split]; simp))

/-- The matches of a rule wait or end at its own nodes. -/
theorem Cut.sink_mem (h : net.Cut r before later) : r.sinkAfter later ∈ r.nodes := by
  cases later with
  | nil => exact List.mem_append_right _ (List.mem_singleton_self _)
  | cons e later => exact h.node_mem

end Network

/-! ## The arena -/

namespace Arena

variable {a : Arena} {r : CompiledRule} {x : TupleId} {t : Tuple}

theorem mem_tuplesOf (ha : a.Valid) :
    (x, t) ∈ a.tuplesOf r ↔ a.get? x = some t ∧ t.sink ∈ r.nodes := by
  rw [tuplesOf, List.mem_filter, SlotMap.get?_eq_some_iff ha, decide_eq_true_eq]

/-- The tuple of another rule is not among the tuples of the rule. -/
theorem ne_of_mem_tuplesOf (ha : a.Valid) (hx : a.get? x = some t) (hsink : t.sink ∉ r.nodes) :
    ∀ e ∈ a.tuplesOf r, e.1 ≠ x := by
  rintro ⟨y, u⟩ hy rfl
  obtain ⟨hu, hmem⟩ := (mem_tuplesOf ha).mp hy
  rw [hx, Option.some.injEq] at hu
  exact hsink (hu ▸ hmem)

theorem tuplesOf_add (hsink : t.sink ∉ r.nodes) : tuplesOf (SlotMap.add a t) r = a.tuplesOf r := by
  rw [tuplesOf, SlotMap.live_add, List.filter_append, List.filter_singleton, tuplesOf]
  simp [hsink]

theorem tuplesOf_remove (ha : a.Valid) (hx : a.get? x = some t) (hsink : t.sink ∉ r.nodes) :
    tuplesOf (SlotMap.remove a x) r = a.tuplesOf r := by
  have hne := ne_of_mem_tuplesOf ha hx hsink
  rw [tuplesOf, SlotMap.live_remove, List.filter_filter]
  refine List.filter_congr fun e he => ?_
  by_cases hmem : e.2.sink ∈ r.nodes
  · have : e.1 ≠ x := hne e (List.mem_filter.mpr ⟨he, decide_eq_true hmem⟩)
    simp [hmem, this]
  · simp [hmem]

theorem tuplesOf_setLocation (ha : a.Valid) (hx : a.get? x = some t) (hsink : t.sink ∉ r.nodes)
    (l : Location) : (a.setLocation x l).tuplesOf r = a.tuplesOf r := by
  have hne := ne_of_mem_tuplesOf ha hx hsink
  unfold tuplesOf setLocation SlotMap.modify
  rw [List.filter_map]
  -- The change does not concern the sinks, and none of the tuples of the rule.
  have hsame : ((fun e : TupleId × Tuple => decide (e.2.sink ∈ r.nodes)) ∘ fun e =>
      if e.1 = x then (e.1, { e.2 with location := some l }) else e) =
          fun e => decide (e.2.sink ∈ r.nodes) := by
    funext e
    simp only [Function.comp_apply]
    split <;> rfl
  rw [hsame]
  refine (List.map_congr_left fun e he => ?_).trans (List.map_id _)
  rw [if_neg (hne e he)]
  rfl

end Arena

/-- The facts of a tuple of the rule are the same in both states. -/
theorem Coherent.handles_of_sameAt {net : Network} {facts facts' : FactStore} {s s' : MatchState}
    (hnet : net.WellFormed) (hs : Coherent net facts s) (hs' : Coherent net facts' s')
    {r : CompiledRule} (hr : r ∈ net.rules) (h : s.SameAt r s') :
    ∀ e ∈ s.arena.tuplesOf r, s'.arena.handles e.1 = s.arena.handles e.1 := by
  rintro ⟨x, t⟩ hx
  have hget := ((Arena.mem_tuplesOf hs.arena.valid).mp hx).1
  refine Arena.handles_congr (S := fun y => ∃ u, (y, u) ∈ s.arena.tuplesOf r) hs.arena hs'.arena
    (fun y u hy hu => ?_) ⟨t, hx⟩ hget
  obtain ⟨v, hmem⟩ := hy
  obtain ⟨hv, hsink⟩ := (Arena.mem_tuplesOf hs.arena.valid).mp hmem
  rw [hu, Option.some.injEq] at hv
  subst hv
  have hmem' := hmem
  rw [← h.tuples] at hmem'
  refine ⟨u, ((Arena.mem_tuplesOf hs'.arena.valid).mp hmem').1, rfl, rfl, fun q hq => ?_⟩
  -- The parent waits at the join that made the tuple, which is a node of the rule too.
  obtain ⟨w, hw⟩ := hs.parent_live hu hq
  obtain ⟨r', before, e, later, hl, -, hwsink⟩ := hs.lineage_of_parent hu hq hw
  have hrule : r' = r := hnet.rule_inj hl.cut.mem hr (hl.sink ▸ hl.cut.next.sink_mem) hsink
  exact ⟨w, (Arena.mem_tuplesOf hs.arena.valid).mpr ⟨hw, hwsink ▸ hrule ▸ hl.cut.node_mem⟩⟩

/-! ## Single changes -/

section Changes

variable {net : Network} {ctx : PropagationContext} {facts : FactStore} {h : Handle}
    {ns : List NodeId}
  {r : CompiledRule} {p p' : Propagation}

/-- A map that has changed at a node of another rule. -/
theorem FiniteMap.get?_insert_other {α : Type} (m : FiniteMap NodeId α) {k : NodeId} (v : α)
    (hk : k ∉ r.nodes) : ∀ n ∈ r.nodes, (m.insert k v).get? n = m.get? n :=
  fun _ hn => m.get?_insert_ne v (ne_of_mem_of_not_mem hn hk)

theorem FiniteMap.get?_modify_other {α : Type} (m : FiniteMap NodeId α) {k : NodeId} (f : α → α)
    (hk : k ∉ r.nodes) : ∀ n ∈ r.nodes, (m.modify k f).get? n = m.get? n :=
  fun _ hn => m.get?_modify_ne f (ne_of_mem_of_not_mem hn hk)

theorem Arrival.rule_mem (ha : Arrival net ctx p p') : ctx.rule ∈ net.rules := by
  cases ha with
  | root hr => exact hr
  | child hcut => exact hcut.mem
  | storeLeft hcut => exact hcut.mem
  | activate hr => exact hr
  | storeRight hcut => exact hcut.mem

theorem Departure.rule_mem (hd : Departure net ctx p p') : ctx.rule ∈ net.rules := by
  cases hd with
  | remove _ hcut => exact hcut.mem
  | dropRoot hr => exact hr
  | dropRight hcut => exact hcut.mem

/-- No node of the rule is one of another rule. -/
theorem Network.WellFormed.not_mem_nodes (hnet : net.WellFormed) {r' : CompiledRule}
    (hr : r ∈ net.rules) (hr' : r' ∈ net.rules) (hid : r'.id ≠ r.id) {n : NodeId}
    (hn : n ∈ r'.nodes) : n ∉ r.nodes :=
  fun hmem => hid (congrArg CompiledRule.id (hnet.rule_inj hr' hr hn hmem))

/-- **A fact that enters a rule leaves the other rules alone.** -/
theorem Arrival.spares (hnet : net.WellFormed) (hs : Coherent net ctx.facts p.toMatchState)
    (ha : Arrival net ctx p p') (hr : r ∈ net.rules) (hid : ctx.rule.id ≠ r.id) :
    Spares r p p' := by
  have hother : ∀ {n : NodeId}, n ∈ ctx.rule.nodes → n ∉ r.nodes :=
    hnet.not_mem_nodes hr ha.rule_mem hid
  have hvalid := hs.arena.valid
  cases ha with
  | root hrule hm hnew hchange =>
      have hcut := Cut.first hrule
      exact .of_same ⟨FiniteMap.get?_insert_other _ _ (hother hcut.node_mem), fun _ _ => rfl,
        fun _ _ => rfl, Arena.tuplesOf_add (hother hcut.next.sink_mem)⟩ rfl
  | child hcut hx hsink hm hentry hmem =>
      exact .of_same ⟨fun _ _ => rfl, FiniteMap.get?_modify_other _ _ (hother hcut.node_mem),
        fun _ _ => rfl, Arena.tuplesOf_add (hother hcut.next.sink_mem)⟩ rfl
  | @storeLeft before later e x t m l left hcut he hx hsink hloc hm hmem hchange =>
      have hnode := hother hcut.node_mem
      exact .of_same ⟨fun _ _ => rfl, FiniteMap.get?_insert_other _ _ hnode, fun _ _ => rfl,
        Arena.tuplesOf_setLocation hvalid (Arena.get?_newest hvalid hx) (hsink ▸ hnode) l⟩ rfl
  | @activate x t hrule hx hsink hloc hmem =>
      have hnode := hother (Cut.terminal hrule).sink_mem
      obtain ⟨m, -, heq, -⟩ := hs.activate hnet hrule hx hsink hloc
      rw [heq]
      refine ⟨⟨fun _ _ => rfl, fun _ _ => rfl, FiniteMap.get?_insert_other _ _ hnode,
        Arena.tuplesOf_setLocation hvalid (Arena.get?_newest hvalid hx) (hsink ▸ hnode) _⟩,
        fun event hevent => ?_⟩
      refine (List.mem_append.mp hevent).imp id fun hlast => ?_
      rw [List.mem_singleton.mp hlast]
      exact hid
  | storeRight hcut he hm hnew hchange =>
      exact .of_same ⟨fun _ _ => rfl, FiniteMap.get?_insert_other _ _ (hother hcut.node_mem),
        fun _ _ => rfl, rfl⟩ rfl

/-- A tuple is taken out of the memory of a node of another rule. -/
theorem spares_unstore {rule : CompiledRule} (hid : rule.id ≠ r.id) (x : TupleId) {t : Tuple}
    (hsink : t.sink ∉ r.nodes) (p : Propagation) : Spares r p (unstore rule x t p) := by
  rcases unstore_cases rule x t p with heq | ⟨_, _, _, _, -, -, -, heq⟩ | ⟨_, _, -, -, -, -, heq⟩
  · rw [heq]
    exact .refl r p
  · rw [heq]
    exact .of_same ⟨fun _ _ => rfl, FiniteMap.get?_insert_other _ _ hsink, fun _ _ => rfl, rfl⟩ rfl
  · rw [heq]
    refine ⟨⟨fun _ _ => rfl, fun _ _ => rfl, FiniteMap.get?_insert_other _ _ hsink, rfl⟩,
      fun event hevent => (List.mem_append.mp hevent).imp id fun hlast => ?_⟩
    rw [List.mem_singleton.mp hlast]
    exact hid

theorem spares_forgetMade (x : TupleId) {t : Tuple} (horigin : ∀ n, t.origin = some n → n ∉ r.nodes)
    (p : Propagation) : Spares r p (forgetMade x t p) := by
  unfold forgetMade
  split
  · exact .refl r p
  · next n hn =>
    exact .of_same ⟨fun _ _ => rfl, FiniteMap.get?_modify_other _ _ (horigin n hn),
      fun _ _ => rfl, rfl⟩ rfl

/-- **A fact that leaves a rule leaves the other rules alone.** -/
theorem Departure.spares (hnet : net.WellFormed) (hs : Coherent net ctx.facts p.toMatchState)
    (hd : Departure net ctx p p') (hr : r ∈ net.rules) (hid : ctx.rule.id ≠ r.id) :
    Spares r p p' := by
  have hother : ∀ {n : NodeId}, n ∈ ctx.rule.nodes → n ∉ r.nodes :=
    hnet.not_mem_nodes hr hd.rule_mem hid
  have hvalid := hs.arena.valid
  cases hd with
  | @remove before later x t hx hcut hsink hleaf hroot hmem =>
      obtain ⟨before', e, -, hl⟩ := hs.lineage_of_sink hnet hx hcut hsink
      have hsink' : t.sink ∉ r.nodes := hsink ▸ hother hcut.sink_mem
      -- The tuple was made by a join of its own rule, if by any.
      have horigin : ∀ n, t.origin = some n → n ∉ r.nodes := by
        intro n hn
        by_cases hb : before' = []
        · rw [(hl.root hb).2] at hn
          cases hn
        · rw [(hl.child hb).1, Option.some.injEq] at hn
          exact hn ▸ hother hl.cut.node_mem
      have hout :=
        (spares_unstore hid x hsink' p).trans (spares_forgetMade x horigin (unstore ctx.rule x t p))
      have harena : (removeTuple ctx.rule p x).arena = SlotMap.remove p.arena x :=
        (hs.removeTuple hnet ctx.rule hx hleaf hcut hsink hroot).1
      rw [removeTuple_live hx] at harena ⊢
      exact ⟨⟨hout.same.adapters, hout.same.joins, hout.same.terminals,
        (congrArg (Arena.tuplesOf · r) harena).trans (Arena.tuplesOf_remove hvalid hx hsink')⟩,
        hout.silent⟩
  | dropRoot hrule hm hx =>
      exact .of_same ⟨FiniteMap.get?_insert_other _ _ (hother (Cut.first hrule).node_mem),
        fun _ _ => rfl, fun _ _ => rfl, rfl⟩ rfl
  | dropRight hcut he hm hchange =>
      exact .of_same ⟨fun _ _ => rfl, FiniteMap.get?_insert_other _ _ (hother hcut.node_mem),
        fun _ _ => rfl, rfl⟩ rfl

theorem Arrivals.spares (hnet : net.WellFormed) (hs : Coherent net facts p.toMatchState)
    (ha : Arrivals net facts h ns p p') (hr : r ∈ net.rules)
    (hids : ∀ r' ∈ net.rules, r'.id = r.id → r' = r) (hnot : ¬ r.Meets ns) : Spares r p p' := by
  refine lift_steps (Q := Spares r) hnet (fun q q' hstep => ?_) (.refl r)
    (fun _ _ _ hq hq' => hq.trans hq') (fun q q' hq hstep => ?_) hs ha
  · obtain ⟨r', -, harrival⟩ := hstep
    exact harrival.change
  · obtain ⟨r', hmeets, harrival⟩ := hstep
    refine harrival.spares hnet hq hr fun hid => hnot ?_
    rw [← hids r' harrival.rule_mem hid]
    exact hmeets

theorem Departures.spares (hnet : net.WellFormed) (hs : Coherent net facts p.toMatchState)
    (hd : Departures net facts h ns p p') (hr : r ∈ net.rules)
    (hids : ∀ r' ∈ net.rules, r'.id = r.id → r' = r) (hnot : ¬ r.Meets ns) : Spares r p p' := by
  refine lift_steps (Q := Spares r) hnet (fun q q' hstep => ?_) (.refl r)
    (fun _ _ _ hq hq' => hq.trans hq') (fun q q' hq hstep => ?_) hs hd
  · obtain ⟨r', -, hdeparture⟩ := hstep
    exact hdeparture.change
  · obtain ⟨r', hmeets, hdeparture⟩ := hstep
    refine hdeparture.spares hnet hq hr fun hid => hnot ?_
    rw [← hids r' hdeparture.rule_mem hid]
    exact hmeets

end Changes

end RuleMatching
