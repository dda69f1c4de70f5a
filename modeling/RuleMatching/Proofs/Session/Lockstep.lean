import Mathlib.Data.List.Induction
import RuleMatching.Proofs.Session.Alike
import RuleMatching.Proofs.Session.Several

set_option autoImplicit false

/-! # The same work on states that are alike

Under a network and under the same network with keys of another length, a fact enters and leaves
states that are alike in lockstep (`Propagation.LeaveRun.alike`, `Propagation.EnterRun.alike`): the
joins find the same matches and facts in the same order, whether they look them up or try them all,
so that the same changes are made one after the other. -/

namespace RuleMatching

open Network

namespace Propagation

variable {net : Network} {facts : FactStore} {d : Nat} {p p' : Propagation}

/-- From states that are alike, the work on a new match leads to states that are alike. -/
def HandsOnAlike (net : Network) (d : Nat) (facts : FactStore) (r : CompiledRule)
    (later : List Entry) (next next' : TupleId → Propagation → Result) : Prop :=
  ∀ x t t' p p', Coherent net facts p.toMatchState →
    Coherent (net.atDepth d) facts p'.toMatchState →
    Pending net p x t r later →
    Pending (net.atDepth d) p' x t' (r.atDepth d) (later.map (Entry.atDepth d)) → p.Alike p' →
    (next x p).1.Alike (next' x p').1

section Lockstep

variable (hnet : net.WellFormed) (hnet' : (net.atDepth d).WellFormed)

include hnet hnet'

/-! ## Extensions -/

section Extend

variable {ctx : PropagationContext} {before later : List Entry} {e : Entry}
  {next next' : TupleId → Propagation → Result}
  (hnext : HandsOn net facts ctx.rule later next)
  (hnext' : HandsOn (net.atDepth d) facts (ctx.atDepth d).rule (later.map (Entry.atDepth d)) next')
  (halike : HandsOnAlike net d facts ctx.rule later next next')
  (hcut : net.Cut ctx.rule before (e :: later))

include hnext hnext' halike hcut

theorem extend_alike (hs : Coherent net facts p.toMatchState)
    (hs' : Coherent (net.atDepth d) facts p'.toMatchState) (h : p.Alike p') {x : TupleId}
    {t : Tuple} (hx : p.arena.get? x = some t) (hsink : t.sink = e.node) {k : Handle}
    (hheld : p.holds e.node k = true) :
    (extend ctx e.node (ctx.rule.sinkAfter later) next x k p).1.Alike
      (extend (ctx.atDepth d) (e.atDepth d).node
        ((ctx.atDepth d).rule.sinkAfter (later.map (Entry.atDepth d))) next' x k p').1 := by
  obtain ⟨l, hx', -⟩ := h.arena.get? hx
  have hcut' : (net.atDepth d).Cut (ctx.atDepth d).rule _ _ := hcut.atDepth d
  have hheld' : p'.holds (e.atDepth d).node k = true := (h.holds e.node k).trans hheld
  have hpending := pending_addChild hnet hs hcut hx hheld
  have hpending' := pending_addChild hnet' hs' hcut' hx' hheld'
  have hs₁ := (change_addChild hnet hs hcut hx hsink hheld).coherent hnet hs
  have hs₁' := (change_addChild hnet' hs' hcut' hx' hsink hheld').coherent hnet' hs'
  obtain ⟨q, hrun, -⟩ := hnext _ _ _ hs₁ hpending
  obtain ⟨q', hrun', -⟩ := hnext' _ _ _ hs₁' hpending'
  have hsinks : (ctx.atDepth d).rule.sinkAfter (later.map (Entry.atDepth d)) =
      ctx.rule.sinkAfter later :=
    sinkAfter_atDepth ctx.rule later
  have hadd := h.addChild e.node (ctx.rule.sinkAfter later) x k
  rw [h.arena.next] at hpending'
  have hq := halike p.arena.next _ _ _ _ hs₁ hs₁' hpending hpending' (by rw [hsinks]; exact hadd)
  rw [hrun, ← h.arena.next, hrun'] at hq
  rw [extend_eq hrun, extend_eq hrun']
  exact hq

theorem each_extend_alike {α : Type} (pair : α → TupleId × Handle) {l : List α}
    (hs : Coherent net facts p.toMatchState) (hs' : Coherent (net.atDepth d) facts p'.toMatchState)
    (h : p.Alike p') (hlive : ∀ a ∈ l, ∃ t, p.arena.get? (pair a).1 = some t ∧ t.sink = e.node)
    (hheld : ∀ a ∈ l, p.holds e.node (pair a).2 = true) :
    (each (fun a p => extend ctx e.node (ctx.rule.sinkAfter later) next (pair a).1 (pair a).2 p)
      l p).1.Alike
      (each (fun a p => extend (ctx.atDepth d) (e.atDepth d).node
        ((ctx.atDepth d).rule.sinkAfter (later.map (Entry.atDepth d))) next' (pair a).1
          (pair a).2 p)
      l p').1 := by
  induction l generalizing p p' with
  | nil => exact h
  | cons a rest ih =>
      obtain ⟨t, hx, hsink⟩ := hlive a List.mem_cons_self
      have hk := hheld a List.mem_cons_self
      obtain ⟨l, hx', -⟩ := h.arena.get? hx
      have hk' : p'.holds (e.atDepth d).node (pair a).2 = true := (h.holds e.node _).trans hk
      obtain ⟨q, hrun, hgrows⟩ := extend_spec hnet hs hnext hcut hx hsink hk
      obtain ⟨q', hrun', hgrows'⟩ :=
        extend_spec hnet' hs' hnext' (hcut.atDepth d) hx' hsink hk'
      have hq := extend_alike hnet hnet' hnext hnext' halike hcut hs hs' h hx hsink hk
      rw [hrun, hrun'] at hq
      rw [each, each, hrun, hrun']
      refine ih (hgrows.changes.coherent hnet hs) (hgrows'.changes.coherent hnet' hs') hq
        (fun b hb => ?_) fun b hb => ?_
      · exact hgrows.live_sink (hlive b (List.mem_cons_of_mem a hb))
      · rw [hgrows.same.holds]
        exact hheld b (List.mem_cons_of_mem a hb)

end Extend

/-- **A match is handed on alike.** -/
theorem leftInsert_alike {ctx : PropagationContext} (hctx : ctx.facts = facts)
    {before later : List Entry} (hcut : net.Cut ctx.rule before later) :
    HandsOnAlike net d facts ctx.rule later (leftInsert ctx later)
      (leftInsert (ctx.atDepth d) (later.map (Entry.atDepth d))) := by
  induction later generalizing before with
  | nil =>
      intro x t t' p p' _ _ _ _ h
      exact h.activate ctx x
  | cons e later ih =>
      intro x t t' p p' hs hs' hpending hpending' h
      have hctx' : (ctx.atDepth d).facts = facts := hctx
      have hcut' : (net.atDepth d).Cut (ctx.atDepth d).rule _ _ := hcut.atDepth d
      obtain ⟨he, m, l, left, hm, hchange, heq⟩ :=
        leftInsert_cons_eq hnet hctx hs hcut hpending.newest hpending.sink hpending.unstored
      obtain ⟨-, m', l', left', hm', hchange', heq'⟩ := leftInsert_cons_eq hnet' hctx'
        hs' hcut' hpending'.newest hpending'.sink hpending'.unstored
      -- Both joins find the same facts.
      have hkeys : m'.rightEntries.keys = m.rightEntries.keys :=
        congrArg Prod.fst (h.face_eq hm hm')
      rw [hkeys, h.arena.handles] at heq'
      rw [heq, List.map_cons, heq']
      refine each_extend_alike hnet hnet' (leftInsert_spec hnet hctx hcut.next)
        (leftInsert_spec hnet' hctx' hcut'.next) (ih hcut.next) hcut (fun k => (x, k))
        (hchange.coherent hnet hs) (hchange'.coherent hnet' hs')
          (h.putLeft hm hm' x l l' left left')
        (fun k _ => ⟨_, get?_stored hs hpending rfl, hpending.sink⟩) fun k hk => ?_
      exact holds_putLeft hnet hs he hm x l left (List.mem_of_mem_filter hk)

/-! ## A fact that enters -/

section Enter

variable (hs : Sound net facts p.toMatchState) (hs' : Sound (net.atDepth d) facts p'.toMatchState)
  (h : p.Alike p')

include hs hs' h

theorem assertRoot_alike (ctx : PropagationContext) (hctx : ctx.facts = facts)
    (hr : ctx.rule ∈ net.rules) {k : Handle} (hread : Readable facts ctx.rule.first k)
    (hnot : p.holds ctx.rule.first.node k = false) :
    (assertRoot ctx ctx.rule.first ctx.rule.joins k p).1.Alike
      (assertRoot (ctx.atDepth d) (ctx.atDepth d).rule.first
        (ctx.atDepth d).rule.joins k p').1 := by
  have hr' : (ctx.atDepth d).rule ∈ (net.atDepth d).rules := List.mem_map_of_mem hr
  obtain ⟨m, q, hm, -, hchange, -, hrun, heq⟩ :=
    assertRoot_eq ctx hnet hctx hr hs.coherent hread hnot
  obtain ⟨m', q', hm', -, hchange', -, hrun', heq'⟩ := assertRoot_eq (ctx.atDepth d) hnet' hctx hr'
    hs'.coherent hread ((h.holds _ k).trans hnot)
  obtain rfl := h.adapter_eq hm hm'
  have hpending := pending_addRoot hnet hs.coherent hr hm k
  have hpending' := pending_addRoot hnet' hs'.coherent hr' hm' k
  rw [h.arena.next] at hpending' hrun'
  have hq : (leftInsert ctx ctx.rule.joins p.arena.next (addRoot ctx.rule k m' p)).1.Alike
      (leftInsert (ctx.atDepth d) (ctx.atDepth d).rule.joins p.arena.next
        (addRoot (ctx.atDepth d).rule k m' p')).1 :=
    leftInsert_alike hnet hnet' hctx (Cut.first hr).next _ _ _ _ _
      (hchange.coherent hnet hs.coherent) (hchange'.coherent hnet' hs'.coherent) hpending hpending'
      (h.addRoot ctx.rule k m')
  rw [hrun, hrun'] at hq
  rw [heq, heq']
  exact hq

theorem rightInsert_alike (ctx : PropagationContext) (hctx : ctx.facts = facts)
    {before later : List Entry} {e : Entry} (hcut : net.Cut ctx.rule before (e :: later))
    (he : e ∈ net.allJoins) {k : Handle} (hread : Readable facts e k)
    (hnot : p.holds e.node k = false) :
    (rightInsert ctx e later k p).1.Alike
      (rightInsert (ctx.atDepth d) (e.atDepth d) (later.map (Entry.atDepth d)) k p').1 := by
  have hctx' : (ctx.atDepth d).facts = facts := hctx
  have hcut' : (net.atDepth d).Cut (ctx.atDepth d).rule _ _ := hcut.atDepth d
  have he' := mem_allJoins_atDepth he d
  obtain ⟨m, l, right, hm, hnew, hchange, heq⟩ := rightInsert_eq ctx hnet hctx hcut he hs hread hnot
  obtain ⟨m', l', right', hm', hnew', hchange', heq'⟩ := rightInsert_eq (ctx.atDepth d) hnet' hctx'
    hcut' he' hs' hread ((h.holds _ k).trans hnot)
  -- Both joins find the same matches.
  have hfound : (p'.arena.storedAt (e.atDepth d).node).filter
      (fun x => (e.atDepth d).joins facts (p'.arena.handles x) k) =
        (p.arena.storedAt e.node).filter fun x => e.joins facts (p.arena.handles x) k := by
    show (p'.arena.storedAt e.node).filter (fun x => e.joins facts (p'.arena.handles x) k) = _
    simp only [h.arena.storedAt, h.arena.handles]
  rw [heq, heq', hfound]
  refine each_extend_alike hnet hnet' (leftInsert_spec hnet hctx hcut.next)
    (leftInsert_spec hnet' hctx' hcut'.next)
    (leftInsert_alike hnet hnet' hctx hcut.next) hcut (fun x => (x, k))
    (hchange.coherent hnet hs.coherent) (hchange'.coherent hnet' hs'.coherent)
    (h.putRight hm hm' hnew hnew' l l' right right') (fun x hx => ?_) fun x _ => ?_
  · obtain ⟨t, -, ht, hsink, -⟩ :=
      (Arena.mem_storedAt hs.coherent.arena.valid).mp (List.mem_filter.mp hx).1
    exact ⟨t, ht, hsink⟩
  · exact (holds_putRight hnet hs.coherent he hm k l right _ _).mpr (Or.inr ⟨rfl, rfl⟩)

/-- **A fact enters at an entry alike.** -/
theorem assertAt_alike {n : NodeId} {place : Place} (hplace : net.place? n = some place)
    {k : Handle} (hnot : p.holds n k = false) :
    (assertAt facts place k p).1.Alike (assertAt facts (place.atDepth d) k p').1 := by
  cases assertAt_branch hnet hplace facts k with
  | absent hf =>
      rw [assertAt_of_absent hf, assertAt_of_absent hf]
      exact h
  | unreadable hf hreads =>
      rw [assertAt_of_unreadable _ hf hreads, assertAt_of_unreadable (place.atDepth d) hf hreads]
      exact h
  | @first rule hr hpos hread =>
      rw [assertAt_first _ hpos hread,
        assertAt_first (Place.atDepth d ⟨rule, rule.first, rule.joins⟩) hpos hread]
      exact assertRoot_alike hnet hnet' hs hs' h ⟨facts, k, rule⟩ rfl hr hread hnot
  | @join rule _ later e hcut he hpos hread =>
      rw [assertAt_join _ hpos hread, assertAt_join (Place.atDepth d ⟨rule, e, later⟩) hpos hread]
      exact rightInsert_alike hnet hnet' hs hs' h ⟨facts, k, rule⟩ rfl hcut he hread hnot

end Enter

/-! ## Matches that go -/

/-- **Matches are removed with their extensions alike.** -/
theorem foldl_deleteWithin_alike {rule : CompiledRule} {depth : Nat} {ts : List TupleId}
    (hc : Clears net facts rule depth ts p)
    (hc' : Clears (net.atDepth d) facts (rule.atDepth d) depth ts p') (h : p.Alike p') :
    (ts.foldl (deleteWithin rule depth) p).Alike
      (ts.foldl (deleteWithin (rule.atDepth d) depth) p') := by
  induction hc generalizing p' with
  | nil => exact h
  | @leaf p x rest _ hx _ ih =>
      cases hc' with
      | leaf _ hx' others' =>
          exact ih others' (h.removeTuple hnet hnet' hx.coherent hx'.coherent rule x)
  | @node p depth x rest _ hx _ ih ih' =>
      cases hc' with
      | node below' hx' others' =>
          have hchildren : p'.arena.children x = p.arena.children x := h.arena.children x
          rw [hchildren] at below' hx'
          refine ih' others' ?_
          rw [deleteWithin, deleteWithin]
          show Alike _ (removeTuple _ ((p'.arena.children x).foldl _ p') x)
          rw [hchildren]
          exact (ih below' h).removeTuple hnet hnet' hx.coherent hx'.coherent rule x

theorem deleteTuple_alike (hs : Coherent net facts p.toMatchState)
    (hs' : Coherent (net.atDepth d) facts p'.toMatchState) (h : p.Alike p') {rule : CompiledRule}
    {x : TupleId} (hroot : Unrooted p.toMatchState x) (hrule : OfRule net p.arena rule x)
    (hrule' : OfRule (net.atDepth d) p'.arena (rule.atDepth d) x) :
    (deleteTuple rule p x).Alike (deleteTuple (rule.atDepth d) p' x) := by
  have hc' := hs'.clears_single hnet' (h.unrooted hroot) hrule'
  have hsize : SlotMap.size p'.arena = SlotMap.size p.arena := h.arena.size
  show (deleteWithin rule p.arena.size p x).Alike
    (deleteWithin (rule.atDepth d) p'.arena.size p' x)
  rw [hsize] at hc' ⊢
  exact foldl_deleteWithin_alike hnet hnet' (hs.clears_single hnet hroot hrule) hc' h

theorem foldl_deleteTuple_alike (rule : CompiledRule) (l : List TupleId)
    (hs : Coherent net facts p.toMatchState) (hs' : Coherent (net.atDepth d) facts p'.toMatchState)
    (h : p.Alike p') (hl : ∀ x ∈ l, ∀ t, p.arena.get? x = some t → t.parent ≠ none)
    (hrule : ∀ x ∈ l, OfRule net p.arena rule x)
    (hrule' : ∀ x ∈ l, OfRule (net.atDepth d) p'.arena (rule.atDepth d) x) :
    (l.foldl (deleteTuple rule) p).Alike (l.foldl (deleteTuple (rule.atDepth d)) p') := by
  induction l generalizing p p' with
  | nil => exact h
  | cons x rest ih =>
      have hroot := hs.unrooted (hl x List.mem_cons_self)
      have hroot' := h.unrooted hroot
      have hfirst := deleteTuple_spec hnet hs hroot (hrule x List.mem_cons_self)
      have hfirst' := deleteTuple_spec hnet' hs' hroot' (hrule' x List.mem_cons_self)
      exact ih (hfirst.changes.coherent hnet hs) (hfirst'.changes.coherent hnet' hs')
        (deleteTuple_alike hnet hnet' hs hs' h hroot (hrule x List.mem_cons_self)
          (hrule' x List.mem_cons_self))
        (fun y hy t ht => hl y (List.mem_cons_of_mem x hy) t (hfirst.sub y t ht))
        (fun y hy t ht => hrule y (List.mem_cons_of_mem x hy) t (hfirst.sub y t ht))
        fun y hy t ht => hrule' y (List.mem_cons_of_mem x hy) t (hfirst'.sub y t ht)

/-! ## A fact that leaves -/

section Leave

variable (hs : Sound net facts p.toMatchState) (hs' : Sound (net.atDepth d) facts p'.toMatchState)
  (h : p.Alike p')

include hs hs' h

theorem retractRoot_alike {rule : CompiledRule} (hr : rule ∈ net.rules) {k : Handle}
    (hheld : p.holds rule.first.node k = true) :
    (retractRoot rule rule.first.node k p).1.Alike
      (retractRoot (rule.atDepth d) (rule.atDepth d).first.node k p').1 := by
  have hr' : rule.atDepth d ∈ (net.atDepth d).rules := List.mem_map_of_mem hr
  obtain ⟨m, x, t, hm, hx, -, -, -, -, hchange, hroot, hrule, heq⟩ :=
    retractRoot_eq hnet hs hr hheld
  obtain ⟨m', x', t', hm', hx', -, -, -, -, hchange', -, hrule', heq'⟩ :=
    retractRoot_eq hnet' hs' hr' ((h.holds _ k).trans hheld)
  obtain rfl := h.adapter_eq hm hm'
  have hxx : x' = x := Option.some.inj (hx'.symm.trans hx)
  subst hxx
  rw [heq, heq']
  exact deleteTuple_alike hnet hnet' (hchange.coherent hnet hs.coherent)
    (hchange'.coherent hnet' hs'.coherent) (h.dropRoot _ k m') hroot hrule hrule'

theorem rightRemove_alike {rule : CompiledRule} {before later : List Entry} {e : Entry}
    (hcut : net.Cut rule before (e :: later)) (he : e ∈ net.allJoins) {k : Handle}
    (hheld : p.holds e.node k = true) :
    (rightRemove rule e.node k p).1.Alike
      (rightRemove (rule.atDepth d) (e.atDepth d).node k p').1 := by
  have hcut' := hcut.atDepth d
  have he' := mem_allJoins_atDepth he d
  obtain ⟨m, right, hm, hchange, heq⟩ := rightRemove_eq hnet hs.coherent rule he hheld
  obtain ⟨m', right', hm', hchange', heq'⟩ :=
    rightRemove_eq hnet' hs'.coherent (rule.atDepth d) he' ((h.holds _ k).trans hheld)
  have hmade := h.arena.madeBy e.node k
  rw [heq, heq', show p'.arena.madeBy (e.atDepth d).node k = p.arena.madeBy e.node k from hmade]
  refine foldl_deleteTuple_alike hnet hnet' rule _ (hchange.coherent hnet hs.coherent)
    (hchange'.coherent hnet' hs'.coherent) (h.dropRight hm hm' k right right') (fun x hx => ?_)
    (fun x hx => ?_) fun x hx => ?_
  · exact (ofRule_of_mem_madeBy hnet hs.coherent hcut he hx).1
  · exact (ofRule_of_mem_madeBy hnet hs.coherent hcut he hx).2
  · exact (ofRule_of_mem_madeBy hnet' hs'.coherent hcut' he' (hmade ▸ hx)).2

/-- **A fact leaves an entry alike.** -/
theorem retractAt_alike {n : NodeId} {place : Place} (hplace : net.place? n = some place)
    {k : Handle} (hheld : p.holds n k = true) :
    (retractAt place k p).1.Alike (retractAt (place.atDepth d) k p').1 := by
  obtain ⟨hn, before, hcut⟩ := WellFormed.cut_of_place? hplace
  rw [← hn] at hheld
  rw [retractAt, retractAt, show (place.atDepth d).entry.position = place.entry.position from rfl]
  rcases hnet.first_or_join hcut with ⟨hpos, hfirst, -⟩ | ⟨hpos, he⟩
  · simp only [if_pos hpos]
    rw [← hfirst] at hheld
    rw [Place.atDepth, ← hfirst]
    exact retractRoot_alike hnet hnet' hs hs' h hcut.mem hheld
  · simp only [if_neg hpos]
    exact rightRemove_alike hnet hnet' hs hs' h hcut he hheld

end Leave

/-! ## Several entries -/

/-- **A fact leaves some entries alike.** -/
theorem LeaveRun.alike {k : Handle} {l : List NodeId} {q : Propagation}
    (hrun : LeaveRun net facts k l p q) (hs' : Sound (net.atDepth d) facts p'.toMatchState)
    (h : p.Alike p') : q.Alike (leaveAll (net.atDepth d) k l p').1 := by
  induction hrun generalizing p' with
  | nil => exact h
  | @cons n rest place p q _ hs hplace hheld hretract _ _ ih =>
      have hplace' := place?_atDepth_of_eq hplace d
      obtain ⟨q', hretract', hleaves'⟩ :=
        retractAt_spec hnet' hs' hplace' ((h.holds _ k).trans hheld)
      have hq := retractAt_alike hnet hnet' hs hs' h hplace hheld
      rw [hretract, hretract'] at hq
      rw [leaveAll_cons hplace' hretract']
      exact ih hleaves'.sound hq

theorem leaveAll_alike (hs : Sound net facts p.toMatchState)
    (hs' : Sound (net.atDepth d) facts p'.toMatchState) (h : p.Alike p') {k : Handle}
    {l : List NodeId} (hl : l.Nodup) (hheld : ∀ n ∈ l, p.holds n k = true) :
    (leaveAll net k l p).1.Alike (leaveAll (net.atDepth d) k l p').1 := by
  obtain ⟨q, hleave, hrun⟩ := leaveAll_run hnet hs hl hheld
  rw [hleave]
  exact hrun.alike hnet hnet' hs' h

/-- **A fact enters some entries alike.** -/
theorem EnterRun.alike {k : Handle} {f : Fact} {l : List NodeId} {o : Result}
    (hrun : EnterRun net facts k f l p o) (hf : facts.get? k = some f)
    (hs' : Sound (net.atDepth d) facts p'.toMatchState) (h : p.Alike p') :
    o.1.Alike (enterAll (net.atDepth d) facts k l p').1 := by
  -- Both networks check an entry alike, so the fact is refused at both or enters at both.
  have hcheck' := (routesAlike_atDepth net d).check
  induction hrun generalizing p' with
  | nil => exact h
  | @stop n rest place p failure hs hplace hnot hcheck _ =>
      have hplace' := place?_atDepth_of_eq hplace d
      have hspec' := assertAt_spec hnet' hs' hplace' hf ((h.holds _ k).trans hnot)
      rw [hcheck', hcheck] at hspec'
      rw [enterAll_stop hplace' hspec']
      exact h
  | @cons n rest place p q _ hs hplace hnot hcheck hassert _ _ ih =>
      have hplace' := place?_atDepth_of_eq hplace d
      have hspec' := assertAt_spec hnet' hs' hplace' hf ((h.holds _ k).trans hnot)
      rw [hcheck', hcheck] at hspec'
      obtain ⟨q', hassert', henters'⟩ := hspec'
      have hq := assertAt_alike hnet hnet' hs hs' h hplace hnot
      rw [hassert, hassert'] at hq
      rw [enterAll_cons hplace' hassert']
      exact ih henters'.sound hq

theorem enterAll_alike (hs : Sound net facts p.toMatchState)
    (hs' : Sound (net.atDepth d) facts p'.toMatchState) (h : p.Alike p') {k : Handle} {f : Fact}
    (hf : facts.get? k = some f) {l : List NodeId} (hl : l.Nodup)
    (hmem : ∀ n ∈ l, ∃ e ∈ net.allEntries, e.node = n) (hnot : ∀ n ∈ l, p.holds n k = false) :
    (enterAll net facts k l p).1.Alike (enterAll (net.atDepth d) facts k l p').1 :=
  (enterAll_run hnet hs hf hl hmem hnot).alike hnet hnet' hf hs' h

end Lockstep

end Propagation

end RuleMatching
