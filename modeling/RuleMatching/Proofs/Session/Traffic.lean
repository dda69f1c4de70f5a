import Mathlib.Data.List.Induction
import RuleMatching.Proofs.Session.Runs

set_option autoImplicit false

/-! # Arrivals and departures

The work of a call concerns only the fact that the call is about. While the fact leaves, it is
forgotten at nodes and matches that contain it are removed (`Departure`); while it enters, it is
stored at nodes and matches that contain it are created and stored (`Arrival`). **Every call is a
sequence of departures and then one of arrivals, an insertion has no departures and a deletion no
arrivals** (`Session.perform_traffic`). -/

namespace RuleMatching

open Network Propagation

/-! ## Single changes for a fact -/

/-- A single change while the fact of the call enters at a rule: the fact is stored, or a match that
contains it is created or stored. -/
inductive Arrival (net : Network) (ctx : PropagationContext) : Propagation → Propagation → Prop
  | root {p : Propagation} {m : AdapterMemory} (hr : ctx.rule ∈ net.rules)
      (hm : p.adapters.get? ctx.rule.first.node = some m) (hnew : m.roots.get? ctx.trigger = none)
      (hchange : Change net ctx.facts p (addRoot ctx.rule ctx.trigger m p)) :
      Arrival net ctx p (addRoot ctx.rule ctx.trigger m p)
  | child {p : Propagation} {before later : List Entry} {e : Entry} {x : TupleId} {t : Tuple}
      {k : Handle} {m : JoinMemory} {entry : RightEntry}
      (hcut : net.Cut ctx.rule before (e :: later)) (hx : p.arena.get? x = some t)
      (hsink : t.sink = e.node) (hm : p.joins.get? e.node = some m)
      (hentry : m.rightEntries.get? k = some entry)
      (hmem : ctx.trigger ∈ p.arena.handles x ++ [k]) :
      Arrival net ctx p (addChild e.node (ctx.rule.sinkAfter later) x k p)
  | storeLeft {p : Propagation} {before later : List Entry} {e : Entry} {x : TupleId} {t : Tuple}
      {m : JoinMemory} {l : Location} {left : Memory TupleId}
      (hcut : net.Cut ctx.rule before (e :: later))
      (he : e ∈ net.allJoins) (hx : p.arena.live.getLast? = some (x, t)) (hsink : t.sink = e.node)
      (hloc : t.location = none) (hm : p.joins.get? e.node = some m)
      (hmem : ctx.trigger ∈ p.arena.handles x)
      (hchange : Change net ctx.facts p (putLeft e.node x m l left p)) :
      Arrival net ctx p (putLeft e.node x m l left p)
  | activate {p : Propagation} {x : TupleId} {t : Tuple} (hr : ctx.rule ∈ net.rules)
      (hx : p.arena.live.getLast? = some (x, t)) (hsink : t.sink = ctx.rule.terminal)
      (hloc : t.location = none) (hmem : ctx.trigger ∈ p.arena.handles x) :
      Arrival net ctx p (Propagation.activate ctx x p).1
  | storeRight {p : Propagation} {before later : List Entry} {e : Entry} {m : JoinMemory}
      {l : Location} {right : Memory Handle} (hcut : net.Cut ctx.rule before (e :: later))
      (he : e ∈ net.allJoins) (hm : p.joins.get? e.node = some m)
      (hnew : m.rightEntries.get? ctx.trigger = none)
      (hchange : Change net ctx.facts p (putRight e.node ctx.trigger m l right p)) :
      Arrival net ctx p (putRight e.node ctx.trigger m l right p)

/-- A single change while the fact of the call leaves a rule: the fact is forgotten, or a match that
contains it is removed. -/
inductive Departure (net : Network) (ctx : PropagationContext) : Propagation → Propagation → Prop
  | remove {p : Propagation} {before later : List Entry} {x : TupleId} {t : Tuple}
      (hx : p.arena.get? x = some t) (hcut : net.Cut ctx.rule before later)
      (hsink : t.sink = ctx.rule.sinkAfter later)
      (hleaf : ∀ y u, p.arena.get? y = some u →
        u.parent ≠ some x) (hroot : Unrooted p.toMatchState x)
      (hmem : ctx.trigger ∈ p.arena.handles x) : Departure net ctx p (removeTuple ctx.rule p x)
  | dropRoot {p : Propagation} {m : AdapterMemory} {x : TupleId} (hr : ctx.rule ∈ net.rules)
      (hm : p.adapters.get? ctx.rule.first.node = some m) (hx : m.roots.get? ctx.trigger = some x) :
      Departure net ctx p (Propagation.dropRoot ctx.rule.first.node ctx.trigger m p)
  | dropRight {p : Propagation} {before later : List Entry} {e : Entry} {m : JoinMemory}
      {right : Memory Handle} (hcut : net.Cut ctx.rule before (e :: later)) (he : e ∈ net.allJoins)
      (hm : p.joins.get? e.node = some m)
      (hchange : Change net ctx.facts p (Propagation.dropRight e.node ctx.trigger m right p)) :
      Departure net ctx p (Propagation.dropRight e.node ctx.trigger m right p)

/-- One of the entries of the rule is among the nodes. -/
def CompiledRule.Meets (r : CompiledRule) (ns : List NodeId) : Prop := ∃ e ∈ r.entries, e.node ∈ ns

/-- A sequence of arrivals of a fact at the rules of some entries. -/
def Arrivals (net : Network) (facts : FactStore) (h : Handle) (ns : List NodeId) :
    Propagation → Propagation → Prop :=
  Relation.ReflTransGen fun p p' => ∃ r : CompiledRule, r.Meets ns ∧ Arrival net ⟨facts, h, r⟩ p p'

/-- A sequence of departures of a fact from the rules of some entries. -/
def Departures (net : Network) (facts : FactStore) (h : Handle) (ns : List NodeId) :
    Propagation → Propagation → Prop :=
  Relation.ReflTransGen fun p p' => ∃ r : CompiledRule, r.Meets ns ∧
  Departure net ⟨facts, h, r⟩ p p'

variable {net : Network} {facts : FactStore} {ctx : PropagationContext} {h : Handle}
    {p p' p'' : Propagation}

theorem Arrival.change (ha : Arrival net ctx p p') : Change net ctx.facts p p' := by
  cases ha with
  | root hr hm hnew hchange => exact hchange
  | child hcut hx hsink hm hentry hmem => exact .child hcut hx hsink hm hentry
  | storeLeft hcut he hx hsink hloc hm hmem hchange => exact hchange
  | activate hr hx hsink hloc hmem => exact .activate hr hx hsink hloc
  | storeRight hcut he hm hnew hchange => exact hchange

theorem Departure.change (hd : Departure net ctx p p') : Change net ctx.facts p p' := by
  cases hd with
  | remove hx hcut hsink hleaf hroot hmem => exact .remove hx hcut hsink hleaf hroot
  | dropRoot hr hm hx => exact .dropRoot hr hm hx
  | dropRight hcut he hm hchange => exact hchange

/-- **From single changes to sequences of them.** What the changes of some kind do to coherent
states, a sequence of such changes does, if it is reflexive and transitive. -/
theorem lift_steps (hnet : net.WellFormed) {step : Propagation → Propagation → Prop}
    (hchange : ∀ q q', step q q' → Change net facts q q') {Q : Propagation → Propagation → Prop}
    (hrefl : ∀ q, Q q q) (htrans : ∀ q q' q'', Q q q' → Q q' q'' → Q q q'')
    (hstep : ∀ q q', Coherent net facts q.toMatchState → step q q' → Q q q')
    (hs : Coherent net facts p.toMatchState) (h : Relation.ReflTransGen step p p') : Q p p' := by
  induction h with
  | refl => exact hrefl p
  | @tail q q' hpath hlast ih =>
      have hchanges : Changes net facts p q := Relation.ReflTransGen.mono hchange p q hpath
      exact htrans p q q' ih (hstep q q' (hchanges.coherent hnet hs) hlast)

theorem Cut.meets {r : CompiledRule} {before later : List Entry} {e : Entry}
    (hcut : net.Cut r before (e :: later)) : r.Meets [e.node] :=
  ⟨e, by rw [hcut.split]; simp, List.mem_singleton_self _⟩

theorem CompiledRule.Meets.mono {r : CompiledRule} {ns ns' : List NodeId} (h : r.Meets ns)
    (hsub : ns ⊆ ns') : r.Meets ns' := by
  obtain ⟨e, he, hn⟩ := h
  exact ⟨e, he, hsub hn⟩

namespace Arrivals

variable {ns ns' : List NodeId}

theorem mono (h' : Arrivals net facts h ns p p') (hsub : ns ⊆ ns') :
    Arrivals net facts h ns' p p' :=
  Relation.ReflTransGen.mono (fun _ _ ⟨r, hmeets, ha⟩ => ⟨r, hmeets.mono hsub, ha⟩) p p' h'

theorem changes (h' : Arrivals net facts h ns p p') : Changes net facts p p' :=
  Relation.ReflTransGen.mono (fun _ _ ⟨_, _, ha⟩ => ha.change) p p' h'

theorem of_nil (h' : Arrivals net facts h [] p p') : p' = p := by
  cases h' with
  | refl => rfl
  | tail _ hstep =>
      obtain ⟨r, ⟨e, -, he⟩, -⟩ := hstep
      cases he

end Arrivals

namespace Departures

variable {ns ns' : List NodeId}

theorem mono (h' : Departures net facts h ns p p') (hsub : ns ⊆ ns') :
    Departures net facts h ns' p p' :=
  Relation.ReflTransGen.mono (fun _ _ ⟨r, hmeets, hd⟩ => ⟨r, hmeets.mono hsub, hd⟩) p p' h'

theorem changes (h' : Departures net facts h ns p p') : Changes net facts p p' :=
  Relation.ReflTransGen.mono (fun _ _ ⟨_, _, hd⟩ => hd.change) p p' h'

theorem of_nil (h' : Departures net facts h [] p p') : p' = p := by
  cases h' with
  | refl => rfl
  | tail _ hstep =>
      obtain ⟨r, ⟨e, -, he⟩, -⟩ := hstep
      cases he

end Departures

namespace Propagation

/-! ## A fact that enters -/

/-- The work on a new match that contains the fact of the call is a sequence of arrivals. -/
def HandsOnBy (net : Network) (ctx : PropagationContext) (later : List Entry)
    (next : TupleId → Propagation → Result) : Prop :=
  ∀ x t p, Coherent net ctx.facts p.toMatchState → Pending net p x t ctx.rule later →
    ctx.trigger ∈ p.arena.handles x → Relation.ReflTransGen (Arrival net ctx) p (next x p).1

section Enter

variable (hnet : net.WellFormed)

include hnet

section Extend

variable {before later : List Entry} {e : Entry} {next : TupleId → Propagation → Result}
  (hnext : HandsOn net ctx.facts ctx.rule later next) (hby : HandsOnBy net ctx later next)
  (hcut : net.Cut ctx.rule before (e :: later))

include hnext hby hcut

theorem extend_arrivals (hs : Coherent net ctx.facts p.toMatchState) {x : TupleId} {t : Tuple}
    (hx : p.arena.get? x = some t) (hsink : t.sink = e.node) {k : Handle}
    (hheld : p.holds e.node k = true) (hmem : ctx.trigger ∈ p.arena.handles x ++ [k]) :
    Relation.ReflTransGen (Arrival net ctx) p
      (extend ctx e.node (ctx.rule.sinkAfter later) next x k p).1 := by
  have he := hs.join_of_sink hnet hx hcut hsink
  obtain ⟨m, hm, _⟩ := hs.joins.at_site e he
  obtain ⟨entry, hentry⟩ := (hs.holds_join_iff hnet he hm k).mp hheld
  have harrival : Arrival net ctx p (addChild e.node (ctx.rule.sinkAfter later) x k p) :=
    .child hcut hx hsink hm hentry hmem
  have hs₁ := harrival.change.coherent hnet hs
  have hpending := pending_addChild hnet hs hcut hx hheld
  have hhandles : (addChild e.node (ctx.rule.sinkAfter later) x k p).arena.handles p.arena.next =
      p.arena.handles x ++ [k] := by
    rw [Arena.handles_child hs₁.arena (Arena.get?_newest hs₁.arena.valid hpending.newest) rfl]
    refine congrArg (· ++ [k]) (Arena.handles_add hs.arena (fun q hq => ?_) hx)
    cases hq
    exact ⟨t, hx⟩
  obtain ⟨q, hrun, -⟩ := hnext _ _ _ hs₁ hpending
  have hrest := hby _ _ _ hs₁ hpending (hhandles ▸ hmem)
  rw [hrun] at hrest
  rw [extend_eq hrun]
  exact .head harrival hrest

theorem each_extend_arrivals {α : Type} (pair : α → TupleId × Handle) {l : List α}
    (hs : Coherent net ctx.facts p.toMatchState)
    (hlive : ∀ a ∈ l, ∃ t, p.arena.get? (pair a).1 = some t ∧ t.sink = e.node)
    (hheld : ∀ a ∈ l, p.holds e.node (pair a).2 = true)
    (hmem : ∀ a ∈ l, ctx.trigger ∈ p.arena.handles (pair a).1 ++ [(pair a).2]) :
    Relation.ReflTransGen (Arrival net ctx) p
      (each (fun a p => extend ctx e.node (ctx.rule.sinkAfter later) next (pair a).1 (pair a).2 p)
        l p).1 := by
  induction l generalizing p with
  | nil => exact .refl
  | cons a rest ih =>
      obtain ⟨t, hx, hsink⟩ := hlive a List.mem_cons_self
      have hk := hheld a List.mem_cons_self
      obtain ⟨q, hrun, hgrows⟩ := extend_spec hnet hs hnext hcut hx hsink hk
      have hfirst := extend_arrivals hnet hnext hby hcut hs hx hsink hk (hmem a List.mem_cons_self)
      have hq := hgrows.changes.coherent hnet hs
      rw [hrun] at hfirst
      rw [each, hrun]
      refine hfirst.trans (ih hq (fun b hb => ?_) (fun b hb => ?_) fun b hb => ?_)
      · exact hgrows.live_sink (hlive b (List.mem_cons_of_mem a hb))
      · rw [hgrows.same.holds]
        exact hheld b (List.mem_cons_of_mem a hb)
      · obtain ⟨u, hu, -⟩ := hlive b (List.mem_cons_of_mem a hb)
        rw [Arena.handles_kept hs.arena hq.arena
          (fun y v hy => ⟨v, hgrows.kept y v hy, rfl, rfl⟩) hu]
        exact hmem b (List.mem_cons_of_mem a hb)

end Extend

/-- **A match that contains the fact is handed on by arrivals.** -/
theorem leftInsert_arrivals {before later : List Entry} (hcut : net.Cut ctx.rule before later) :
    HandsOnBy net ctx later (leftInsert ctx later) := by
  induction later generalizing before with
  | nil =>
      intro x t p hs hpending hmem
      exact .single (.activate hcut.mem hpending.newest hpending.sink hpending.unstored hmem)
  | cons e later ih =>
      intro x t p hs hpending hmem
      obtain ⟨he, m, l, left, hm, hchange, heq⟩ :=
        leftInsert_cons_eq hnet rfl hs hcut hpending.newest hpending.sink hpending.unstored
      rw [heq]
      refine .head (.storeLeft hcut he hpending.newest hpending.sink hpending.unstored hm hmem
        hchange) ?_
      refine each_extend_arrivals hnet (leftInsert_spec hnet rfl hcut.next) (ih hcut.next) hcut
        (fun k => (x, k)) (hchange.coherent hnet hs)
        (fun k _ => ⟨_, get?_stored hs hpending rfl, hpending.sink⟩)
        (fun k hk => holds_putLeft hnet hs he hm x l left (List.mem_of_mem_filter hk))
        fun k hk => ?_
      · show ctx.trigger ∈ (p.arena.setLocation x l).handles x ++ [k]
        rw [Arena.handles_setLocation]
        exact List.mem_append_left _ hmem

theorem assertRoot_arrivals (ctx : PropagationContext) (hr : ctx.rule ∈ net.rules)
    (hs : Sound net ctx.facts p.toMatchState)
    (hread : Readable ctx.facts ctx.rule.first ctx.trigger)
    (hnot : p.holds ctx.rule.first.node ctx.trigger = false) :
    Relation.ReflTransGen (Arrival net ctx) p
      (assertRoot ctx ctx.rule.first ctx.rule.joins ctx.trigger p).1 := by
  obtain ⟨m, q, hm, hnew, hchange, -, hrun, heq⟩ :=
    assertRoot_eq ctx hnet rfl hr hs.coherent hread hnot
  have hs₁ := hchange.coherent hnet hs.coherent
  have hpending := pending_addRoot hnet hs.coherent hr hm ctx.trigger
  have hhandles : (addRoot ctx.rule ctx.trigger m p).arena.handles p.arena.next = [ctx.trigger] :=
    Arena.handles_root hs₁.arena (Arena.get?_newest hs₁.arena.valid hpending.newest) rfl
  have hrest := leftInsert_arrivals hnet (Cut.first hr).next _ _ _ hs₁ hpending
    (by rw [hhandles]; exact List.mem_singleton_self _)
  rw [hrun] at hrest
  rw [heq]
  exact .head (.root hr hm hnew hchange) hrest

theorem rightInsert_arrivals (ctx : PropagationContext) {before later : List Entry} {e : Entry}
    (hcut : net.Cut ctx.rule before (e :: later)) (he : e ∈ net.allJoins)
    (hs : Sound net ctx.facts p.toMatchState) (hread : Readable ctx.facts e ctx.trigger)
    (hnot : p.holds e.node ctx.trigger = false) :
    Relation.ReflTransGen (Arrival net ctx) p (rightInsert ctx e later ctx.trigger p).1 := by
  obtain ⟨m, l, right, hm, hnew, hchange, heq⟩ := rightInsert_eq ctx hnet rfl hcut he hs hread hnot
  rw [heq]
  refine .head (.storeRight hcut he hm hnew hchange) ?_
  refine each_extend_arrivals hnet (leftInsert_spec hnet rfl hcut.next)
    (leftInsert_arrivals hnet hcut.next) hcut (fun x => (x, ctx.trigger))
    (hchange.coherent hnet hs.coherent) (fun x hx => ?_) (fun x _ => ?_) fun x _ => ?_
  · obtain ⟨t, -, ht, hsink, -⟩ :=
      (Arena.mem_storedAt hs.coherent.arena.valid).mp (List.mem_filter.mp hx).1
    exact ⟨t, ht, hsink⟩
  · exact (holds_putRight hnet hs.coherent he hm ctx.trigger l right _ _).mpr (Or.inr ⟨rfl, rfl⟩)
  · exact List.mem_append_right _ (List.mem_singleton_self _)

/-- **A fact enters at an entry by arrivals.** -/
theorem assertAt_arrivals (hs : Sound net facts p.toMatchState) {n : NodeId} {place : Place}
    (hplace : net.place? n = some place) (hnot : p.holds n h = false) :
    Arrivals net facts h [n] p (assertAt facts place h p).1 := by
  cases assertAt_branch hnet hplace facts h with
  | absent hf =>
      rw [assertAt_of_absent hf]
      exact .refl
  | unreadable hf hreads =>
      rw [assertAt_of_unreadable _ hf hreads]
      exact .refl
  | @first rule hr hpos hread =>
      rw [assertAt_first _ hpos hread]
      have harrivals := assertRoot_arrivals hnet ⟨facts, h, rule⟩ hr hs hread hnot
      exact Relation.ReflTransGen.mono (fun _ _ ha => ⟨rule, Cut.meets (Cut.first hr), ha⟩)
        _ _ harrivals
  | @join rule _ _ _ hcut he hpos hread =>
      rw [assertAt_join _ hpos hread]
      have harrivals := rightInsert_arrivals hnet ⟨facts, h, rule⟩ hcut he hs hread hnot
      exact Relation.ReflTransGen.mono (fun _ _ ha => ⟨rule, Cut.meets hcut, ha⟩) _ _ harrivals

/-- **A fact enters some entries by arrivals.** -/
theorem EnterRun.arrivals {f : Fact} {l : List NodeId} {o : Result}
    (hrun : EnterRun net facts h f l p o) : Arrivals net facts h l p o.1 := by
  induction hrun with
  | nil => exact .refl
  | stop => exact .refl
  | @cons n rest place p q o hs hplace hnot _ hassert _ _ ih =>
      have hfirst := (assertAt_arrivals hnet hs hplace hnot).mono
        (List.cons_subset_cons n (List.nil_subset rest))
      rw [hassert] at hfirst
      exact hfirst.trans (ih.mono (List.subset_cons_self n rest))

theorem enterAll_arrivals (hs : Sound net facts p.toMatchState) {f : Fact}
    (hf : facts.get? h = some f) {l : List NodeId} (hl : l.Nodup)
    (hmem : ∀ n ∈ l, ∃ e ∈ net.allEntries, e.node = n) (hnot : ∀ n ∈ l, p.holds n h = false) :
    Arrivals net facts h l p (enterAll net facts h l p).1 :=
  (enterAll_run hnet hs hf hl hmem hnot).arrivals hnet

end Enter

/-! ## A fact that leaves -/

section Leave

variable (hnet : net.WellFormed)

include hnet

omit hnet in
/-- A match that contains the fact and can be removed goes by a departure. -/
theorem removeTuple_departures {x : TupleId} (h : Removable net ctx.facts ctx.rule p x)
    (hmem : ∀ t, p.arena.get? x = some t → ctx.trigger ∈ p.arena.handles x) :
    Relation.ReflTransGen (Departure net ctx) p (removeTuple ctx.rule p x) := by
  cases hx : p.arena.get? x with
  | none => rw [removeTuple_dead hx]
  | some t =>
      obtain ⟨before, later, hcut, hsink⟩ := h.ofRule t hx
      exact .single (.remove hx hcut hsink h.leaf h.unrooted (hmem t hx))

/-- **Matches that contain the fact are removed with their extensions by departures.** -/
theorem foldl_deleteWithin_departures {depth : Nat} {ts : List TupleId}
    (h : Clears net ctx.facts ctx.rule depth ts p) (hs : Coherent net ctx.facts p.toMatchState)
    (hmem : ∀ x ∈ ts, ∀ t, p.arena.get? x = some t → ctx.trigger ∈ p.arena.handles x) :
    Relation.ReflTransGen (Departure net ctx) p (ts.foldl (deleteWithin ctx.rule depth) p) := by
  induction h with
  | nil => exact .refl
  | @leaf p x rest _ hx _ ih =>
      have hself := hx.removes
      have hs' := hself.changes.coherent hnet hs
      exact (removeTuple_departures hx (hmem x List.mem_cons_self)).trans <| ih hs' fun y hy =>
        hself.mem_handles hs.arena hs'.arena (hmem y (List.mem_cons_of_mem x hy))
  | @node p depth x rest below hx _ ih ih' =>
      -- An extension contains the facts of its parent.
      have hchildren : ∀ c ∈ p.arena.children x, ∀ t, p.arena.get? c = some t →
          ctx.trigger ∈ p.arena.handles c := by
        intro c hc t ht
        obtain ⟨u, hu, hp⟩ := (Arena.mem_children hs.arena).mp hc
        obtain ⟨v, hv⟩ := hs.parent_live hu hp
        rw [Arena.handles_child hs.arena hu hp]
        exact List.mem_append_left _ (hmem x List.mem_cons_self v hv)
      have hgone := below.removes hnet hs
      have hself := (hgone.trans hx.removes).of_children hs.arena
      have hs' := hself.changes.coherent hnet hs
      have hdeparts := removeTuple_departures hx
        (hgone.mem_handles hs.arena hx.coherent.arena (hmem x List.mem_cons_self))
      exact ((ih hs hchildren).trans hdeparts).trans <| ih' hs' fun y hy =>
        hself.mem_handles hs.arena hs'.arena (hmem y (List.mem_cons_of_mem x hy))

theorem deleteTuple_departures (hs : Coherent net ctx.facts p.toMatchState) {x : TupleId}
    (hroot : Unrooted p.toMatchState x) (hrule : OfRule net p.arena ctx.rule x)
    (hmem : ∀ t, p.arena.get? x = some t → ctx.trigger ∈ p.arena.handles x) :
    Relation.ReflTransGen (Departure net ctx) p (deleteTuple ctx.rule p x) :=
  foldl_deleteWithin_departures hnet (hs.clears_single hnet hroot hrule) hs fun _ hy =>
    List.mem_singleton.mp hy ▸ hmem

theorem foldl_deleteTuple_departures (l : List TupleId) (hs : Coherent net ctx.facts p.toMatchState)
    (hl : ∀ x ∈ l, ∀ t, p.arena.get? x = some t → t.parent ≠ none)
    (hrule : ∀ x ∈ l, OfRule net p.arena ctx.rule x)
    (hmem : ∀ x ∈ l, ∀ t, p.arena.get? x = some t → ctx.trigger ∈ p.arena.handles x) :
    Relation.ReflTransGen (Departure net ctx) p (l.foldl (deleteTuple ctx.rule) p) := by
  induction l generalizing p with
  | nil => exact .refl
  | cons x rest ih =>
      have hroot := hs.unrooted (hl x List.mem_cons_self)
      have hremoves := deleteTuple_spec hnet hs hroot (hrule x List.mem_cons_self)
      have hs₁ := hremoves.changes.coherent hnet hs
      exact (deleteTuple_departures hnet hs hroot (hrule x List.mem_cons_self)
        (hmem x List.mem_cons_self)).trans <| ih hs₁
        (fun y hy t ht => hl y (List.mem_cons_of_mem x hy) t (hremoves.sub y t ht))
        (fun y hy t ht => hrule y (List.mem_cons_of_mem x hy) t (hremoves.sub y t ht))
        fun y hy t ht => by
          rw [hremoves.handles_eq hs.arena hs₁.arena ht]
          exact hmem y (List.mem_cons_of_mem x hy) t (hremoves.sub y t ht)

theorem retractRoot_departures (ctx : PropagationContext) (hs : Sound net ctx.facts p.toMatchState)
    (hr : ctx.rule ∈ net.rules) (hheld : p.holds ctx.rule.first.node ctx.trigger = true) :
    Relation.ReflTransGen (Departure net ctx) p
      (retractRoot ctx.rule ctx.rule.first.node ctx.trigger p).1 := by
  obtain ⟨m, x, t, hm, hx, ht, hp, hh, -, hchange, hroot, hrule, heq⟩ :=
    retractRoot_eq hnet hs hr hheld
  rw [heq]
  refine .head (.dropRoot hr hm hx)
    (deleteTuple_departures hnet (hchange.coherent hnet hs.coherent) hroot hrule fun _ _ => ?_)
  show ctx.trigger ∈ p.arena.handles x
  rw [Arena.handles_root hs.coherent.arena ht hp, hh]
  exact List.mem_singleton_self _

theorem rightRemove_departures (ctx : PropagationContext) (hs : Sound net ctx.facts p.toMatchState)
    {before later : List Entry} {e : Entry} (hcut : net.Cut ctx.rule before (e :: later))
    (he : e ∈ net.allJoins)
    (hheld : p.holds e.node ctx.trigger = true) :
    Relation.ReflTransGen (Departure net ctx) p (rightRemove ctx.rule e.node ctx.trigger p).1 := by
  obtain ⟨m, right, hm, hchange, heq⟩ := rightRemove_eq hnet hs.coherent ctx.rule he hheld
  rw [heq]
  refine .head (.dropRight hcut he hm hchange) (foldl_deleteTuple_departures hnet _
    (hchange.coherent hnet hs.coherent) (fun x hx => ?_) (fun x hx => ?_) fun x hx t ht => ?_)
  · exact (ofRule_of_mem_madeBy hnet hs.coherent hcut he hx).1
  · exact (ofRule_of_mem_madeBy hnet hs.coherent hcut he hx).2
  · obtain ⟨u, hu, -, hh⟩ := (Arena.mem_madeBy hs.coherent.arena.valid).mp hx
    show ctx.trigger ∈ p.arena.handles x
    rw [Arena.handles_eq hs.coherent.arena hu, hh]
    exact List.mem_append_right _ (List.mem_singleton_self _)

/-- **A fact leaves an entry by departures.** -/
theorem retractAt_departures (hs : Sound net facts p.toMatchState) {n : NodeId} {place : Place}
    (hplace : net.place? n = some place) (hheld : p.holds n h = true) :
    Departures net facts h [n] p (retractAt place h p).1 := by
  obtain ⟨hn, before, hcut⟩ := WellFormed.cut_of_place? hplace
  have hmeets : place.rule.Meets [n] := hn ▸ Cut.meets hcut
  rw [← hn] at hheld
  suffices hdepartures : Relation.ReflTransGen (Departure net ⟨facts, h, place.rule⟩) p
      (retractAt place h p).1 from
    Relation.ReflTransGen.mono (fun _ _ hd => ⟨place.rule, hmeets, hd⟩) _ _ hdepartures
  rw [retractAt]
  rcases hnet.first_or_join hcut with ⟨hpos, hfirst, -⟩ | ⟨hpos, he⟩
  · rw [if_pos hpos, ← hfirst]
    rw [← hfirst] at hheld
    exact retractRoot_departures hnet ⟨facts, h, place.rule⟩ hs hcut.mem hheld
  · rw [if_neg hpos]
    exact rightRemove_departures hnet ⟨facts, h, place.rule⟩ hs hcut he hheld

/-- **A fact leaves some entries by departures.** -/
theorem LeaveRun.departures {l : List NodeId} (hrun : LeaveRun net facts h l p p') :
    Departures net facts h l p p' := by
  induction hrun with
  | nil => exact .refl
  | @cons n rest place p q p' hs hplace hheld hretract _ _ ih =>
      have hfirst := (retractAt_departures hnet hs hplace hheld).mono
        (List.cons_subset_cons n (List.nil_subset rest))
      rw [hretract] at hfirst
      exact hfirst.trans (ih.mono (List.subset_cons_self n rest))

theorem leaveAll_departures (hs : Sound net facts p.toMatchState) {l : List NodeId} (hl : l.Nodup)
    (hheld : ∀ n ∈ l, p.holds n h = true) : Departures net facts h l p (leaveAll net h l p).1 := by
  obtain ⟨p', hleave, hrun⟩ := leaveAll_run hnet hs hl hheld
  rw [hleave]
  exact hrun.departures hnet

end Leave

end Propagation

/-! ## Calls -/

/-- A call about the fact `h` leads from one session to the other with some events: the fact leaves
the rules of the entries `out`, and enters those of the entries `into`. -/
def Session.Traffic (s s' : Session) (h : Handle) (out into : List NodeId)
    (events : List ActivationEvent) : Prop :=
  ∃ p p' : Propagation, Departures s.network s.facts h out ⟨s.state, []⟩ p ∧
    Sound s.network s'.facts p.toMatchState ∧ Arrivals s.network s'.facts h into p p' ∧
    p'.toMatchState = s'.state ∧ p'.events = events

namespace Call

/-- The fact that a call is about. -/
def about (facts : FactStore) : Call → Handle
  | insert _ => facts.nextHandle
  | insertAt h _ | update h _ | delete h => h

def isInsertion : Call → Bool
  | insert _ | insertAt _ _ => true
  | update _ _ | delete _ => false

def isDeletion : Call → Bool
  | delete _ => true
  | insert _ | insertAt _ _ | update _ _ => false

end Call

namespace Session

variable {s : Session} {f : Fact}

/-- A call that leaves the matches as they are. -/
theorem Traffic.refl {s' : Session} (h : Handle) (hsound : Sound s.network s'.facts s.state)
    (hstate : s'.state = s.state) : s.Traffic s' h [] [] [] :=
  ⟨_, _, .refl, hsound, .refl, hstate.symm, rfl⟩

/-- The work of a call is a sequence of departures and then one of arrivals. -/
theorem Consistent.propagate_traffic (hs : s.Consistent) (s₁ : Session) {out into : List NodeId}
    (hnet : s₁.network = s.network) (hstate : s₁.state = s.state)
    (hready : s.Ready s₁.facts h f out into) :
    s.Traffic (s₁.propagate h out into).1 h out into (s₁.propagate h out into).2.events := by
  obtain ⟨p₁, hleave, hleaves, -, hsound⟩ := hs.leaveAll_spec hready
  have hdepartures :=
    leaveAll_departures (p := ⟨s.state, []⟩) hs.network hs.sound hready.nodup_out hready.held
  rw [hleave] at hdepartures
  have harrivals := enterAll_arrivals hs.network hsound hready.version hready.nodup_into
    hready.entries (hready.not_holds_of_leaves hleaves)
  have hrun : Propagation.run s₁.network s₁.facts h out into (⟨s₁.state, []⟩ : Propagation) =
      enterAll s.network s₁.facts h into p₁ := by
    rw [hnet, hstate, Propagation.run, hleave]
  rw [propagate_eq]
  rw [hrun]
  generalize enterAll s.network s₁.facts h into p₁ = result at harrivals ⊢
  obtain ⟨p', stopped⟩ := result
  cases stopped with
  | none => exact ⟨p₁, p', hdepartures, hsound, harrivals, rfl, rfl⟩
  | some err => exact ⟨p₁, p', hdepartures, hsound, harrivals, rfl, rfl⟩

theorem insertAt_traffic (hs : s.Consistent) (h : Handle) (f : Fact) :
    ∃ into, s.Traffic (s.insertAt h f).1 h [] into (s.insertAt h f).2.events := by
  have hbranch := insertAt_branch s h f
  generalize s.insertAt h f = o at hbranch ⊢
  cases hbranch with
  | taken => exact ⟨[], .refl h hs.sound rfl⟩
  | unroutable hi hm => exact ⟨[], .refl h (hs.sound.versions hs.network (hs.alike_insert hi)) rfl⟩
  | @routed facts' l hi hm =>
      exact ⟨l, hs.propagate_traffic (s.inserted facts') rfl rfl (hs.ready_insert hi hm)⟩

theorem update_traffic (hs : s.Consistent) (h : Handle) (f : Fact) :
    ∃ out into, s.Traffic (s.update h f).1 h out into (s.update h f).2.events := by
  have hbranch := update_branch s h f
  generalize s.update h f = o at hbranch ⊢
  cases hbranch with
  | dead => exact ⟨[], [], .refl h hs.sound rfl⟩
  | unroutable => exact ⟨[], [], .refl h hs.sound rfl⟩
  | unreadable => exact ⟨[], [], .refl h hs.sound rfl⟩
  | checked hold hm hcheck =>
      exact ⟨_, _, hs.propagate_traffic (s.replaced h f _) rfl rfl (hs.ready_update hold hm)⟩

theorem delete_traffic (hs : s.Consistent) (h : Handle) :
    ∃ out, s.Traffic (s.delete h).1 h out [] (s.delete h).2.events := by
  cases hold : s.facts.get? h with
  | none =>
      rw [delete_of_dead hold]
      exact ⟨[], .refl h hs.sound rfl⟩
  | some f =>
      have hafter := (delete_spec hs h).1.consistent.sound
      rw [(delete_spec hs h).1.network] at hafter
      obtain ⟨p', hrun, heq⟩ := hs.delete_run hold
      rw [heq] at hafter ⊢
      exact ⟨_, p', p', hrun.departures hs.network, hafter, .refl, rfl, rfl⟩

/-- **Every call is a sequence of departures of its fact and then one of arrivals.** -/
theorem perform_traffic (hs : s.Consistent) (c : Call) : ∃ out into,
    s.Traffic (s.perform c).1 (c.about s.facts) out into (s.perform c).2.events ∧
      (c.isInsertion = true → out = []) ∧ (c.isDeletion = true → into = []) := by
  cases c with
  | insert f =>
      obtain ⟨into, htraffic⟩ := insertAt_traffic hs s.facts.nextHandle f
      exact ⟨[], into, htraffic, fun _ => rfl, fun hc => nomatch hc⟩
  | insertAt h f =>
      obtain ⟨into, htraffic⟩ := insertAt_traffic hs h f
      exact ⟨[], into, htraffic, fun _ => rfl, fun hc => nomatch hc⟩
  | update h f =>
      obtain ⟨out, into, htraffic⟩ := update_traffic hs h f
      exact ⟨out, into, htraffic, (fun hc => nomatch hc), fun hc => nomatch hc⟩
  | delete h =>
      obtain ⟨out, htraffic⟩ := delete_traffic hs h
      exact ⟨out, [], htraffic, (fun hc => nomatch hc), fun _ => rfl⟩

end Session

end RuleMatching
