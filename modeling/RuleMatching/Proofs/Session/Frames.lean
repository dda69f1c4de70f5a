import RuleMatching.Proofs.Session.Memories
import RuleMatching.Proofs.Session.Traffic

set_option autoImplicit false

/-! # What a call leaves alone

A call about a fact leaves every match that does not contain the fact where it is, with its facts,
and makes no other match without it (`Session.sameBut_perform`). **The deletion of a fact removes
exactly the matches that contain it**, from the arena and from all memories, and the fact itself
from all adapters and right memories (`Session.frames_run`). -/

namespace RuleMatching

open Network Propagation

/-! ## States that differ by one fact -/

namespace MatchState

/-- The match of one pattern that the adapter at the node knows for the fact. -/
def root? (s : MatchState) (n : NodeId) (h : Handle) : Option TupleId :=
  (s.adapters.get? n).bind fun m => m.roots.get? h

/-- Where the join at the node keeps the fact on its right. -/
def rightLocation? (s : MatchState) (n : NodeId) (h : Handle) : Option Location :=
  (s.joins.get? n).bind fun m => (m.rightEntries.get? h).map RightEntry.location

/-- The facts on the right of the join at the node. -/
def factsAt (s : MatchState) (n : NodeId) : List Handle :=
  ((s.joins.get? n).map (·.right.items)).getD []

/-- The tuple that the join or the terminal at the node has at the location. -/
def tupleAt? (s : MatchState) (n : NodeId) (l : Location) : Option TupleId :=
  (s.joins.get? n).bind (·.left.at? l) <|> (s.terminals.get? n).bind (·.tuples.get? l.slot)

/-- Every tuple is found in the memory of its sink at the location that it has. -/
def Located (s : MatchState) : Prop :=
  ∀ x t, s.arena.get? x = some t → ∃ l, t.location = some l ∧ s.tupleAt? t.sink l = some x

end MatchState

/-- Every tuple without the fact is in the other arena too, with the same record and
the same facts. -/
def Arena.Keeps (h : Handle) (a a' : Arena) : Prop :=
  ∀ x t, a.get? x = some t → h ∉ a.handles x → a'.get? x = some t ∧ a'.handles x = a.handles x

/-- The states have the same tuples without the fact, and know all other facts at the
same places. -/
structure MatchState.SameBut (h : Handle) (s s' : MatchState) : Prop where
  kept : s.arena.Keeps h s'.arena
  new : s'.arena.Keeps h s.arena
  root : ∀ n k, k ≠ h → s'.root? n k = s.root? n k
  right : ∀ n k, k ≠ h → s'.rightLocation? n k = s.rightLocation? n k

namespace Arena.Keeps

variable {h : Handle} {a a' a'' : Arena}

theorem refl (h : Handle) (a : Arena) : a.Keeps h a := fun _ _ hx _ => ⟨hx, rfl⟩

theorem trans (hk : a.Keeps h a') (hk' : a'.Keeps h a'') : a.Keeps h a'' := by
  intro x t hx hh
  obtain ⟨hx', hhandles⟩ := hk x t hx hh
  obtain ⟨hx'', hhandles'⟩ := hk' x t hx' (hhandles ▸ hh)
  exact ⟨hx'', hhandles'.trans hhandles⟩

/-- A tuple with the fact is created. -/
theorem add (ha : a.WellFormed) {t : Tuple} (hp : ∀ p, t.parent = some p → ∃ u, a.get? p = some u)
    (hmem : h ∈ (t.parent.map a.handles).getD [] ++ [t.handle]) :
    a.Keeps h (SlotMap.add a t) ∧ Arena.Keeps h (SlotMap.add a t) a := by
  have hold : ∀ x u, a.get? x = some u → (SlotMap.add a t).get? x = some u ∧
      Arena.handles (SlotMap.add a t) x = a.handles x := fun x u hx =>
    ⟨SlotMap.get?_add_of_get? ha.valid t hx, Arena.handles_add ha hp hx⟩
  refine ⟨fun x u hx _ => hold x u hx, fun x u hx hh => ?_⟩
  have hget := SlotMap.get?_add ha.valid t x
  by_cases hxn : x = a.next
  · -- The facts of the new tuple are those of its parent and its own.
    refine absurd ?_ hh
    rw [if_pos hxn] at hget
    rw [Arena.handles_eq (Arena.wellFormed_add ha hp) hget]
    cases hpar : t.parent with
    | none =>
        rw [hpar] at hmem
        exact hmem
    | some p =>
        obtain ⟨v, hv⟩ := hp p hpar
        rw [hpar] at hmem
        rw [Option.map_some, (hold p v hv).2]
        exact hmem
  · rw [if_neg hxn] at hget
    have hxa : a.get? x = some u := hget.symm.trans hx
    exact ⟨hxa, (hold x u hxa).2.symm⟩

/-- A tuple with the fact is stored. -/
theorem setLocation {x : TupleId} (hmem : h ∈ a.handles x) (l : Location) :
    a.Keeps h (a.setLocation x l) ∧ (a.setLocation x l).Keeps h a := by
  have hhandles := fun y => Arena.handles_setLocation a x y l
  have hother : ∀ y, y ≠ x → (a.setLocation x l).get? y = a.get? y := fun y hne => by
    rw [Arena.get?_setLocation, if_neg hne]
  refine ⟨fun y t hy hh => ?_, fun y t hy hh => ?_⟩
  · have hne : y ≠ x := fun heq => hh (heq ▸ hmem)
    exact ⟨(hother y hne).trans hy, hhandles y⟩
  · rw [hhandles] at hh
    have hne : y ≠ x := fun heq => hh (heq ▸ hmem)
    exact ⟨(hother y hne).symm.trans hy, (hhandles y).symm⟩

/-- A tuple with the fact is removed. -/
theorem remove (ha : a.WellFormed) {x : TupleId}
    (hleaf : ∀ y u, a.get? y = some u → u.parent ≠ some x) (hmem : h ∈ a.handles x) :
    a.Keeps h (SlotMap.remove a x) ∧ Arena.Keeps h (SlotMap.remove a x) a := by
  refine ⟨fun y t hy hh => ?_, fun y t hy _ => ?_⟩
  · have hne : y ≠ x := fun heq => hh (heq ▸ hmem)
    exact ⟨by rw [SlotMap.get?_remove ha.valid, if_neg hne,
      hy], Arena.handles_remove ha hleaf hy hne⟩
  · rw [SlotMap.get?_remove ha.valid] at hy
    split at hy
    · cases hy
    · next hne => exact ⟨hy, (Arena.handles_remove ha hleaf hy hne).symm⟩

end Arena.Keeps

namespace MatchState.SameBut

variable {h : Handle} {s s' s'' : MatchState}

theorem refl (h : Handle) (s : MatchState) : s.SameBut h s :=
  ⟨.refl h _, .refl h _, fun _ _ _ => rfl, fun _ _ _ => rfl⟩

theorem trans (hs : s.SameBut h s') (hs' : s'.SameBut h s'') : s.SameBut h s'' :=
  ⟨hs.kept.trans hs'.kept, hs'.new.trans hs.new,
    fun n k hk => (hs'.root n k hk).trans (hs.root n k hk),
    fun n k hk => (hs'.right n k hk).trans (hs.right n k hk)⟩

end MatchState.SameBut

/-! ## Single changes -/

section Changes

variable {net : Network} {ctx : PropagationContext} {facts : FactStore} {h : Handle}
    {ns : List NodeId}
  {p p' : Propagation}

/-- The removal of a tuple leaves the facts on the right of the joins where they are. -/
theorem rightLocation?_removeTuple (r : CompiledRule) (x : TupleId) (p : Propagation) (n : NodeId)
    (k : Handle) : (removeTuple r p x).rightLocation? n k = p.rightLocation? n k := by
  have hunstore : ∀ t, (unstore r x t p).rightLocation? n k = p.rightLocation? n k := by
    intro t
    rcases unstore_cases r x t p with heq | ⟨m, l, y, left, -, hm, -, heq⟩ | ⟨m, l, -, -, -, -, heq⟩
    · rw [heq]
    · rw [heq]
      exact FiniteMap.bind_get?_insert hm (by rfl) n
    · rw [heq]
      rfl
  unfold removeTuple
  split
  · rfl
  · next t ht =>
    refine Eq.trans ?_ (hunstore t)
    unfold forgetMade
    split
    · rfl
    · refine FiniteMap.bind_get?_modify _ _ (fun m => ?_) n
      simp only [FiniteMap.get?_modify]
      split
      · cases m.rightEntries.get? k <;> rfl
      · rfl

theorem Arrival.sameBut (hnet : net.WellFormed) (hs : Coherent net ctx.facts p.toMatchState)
    (ha : Arrival net ctx p p') : p.toMatchState.SameBut ctx.trigger p'.toMatchState := by
  -- What is written is about the fact that enters: its root, its entry, or a match with it.
  cases ha with
  | @root m hr hm hnew hchange =>
      obtain ⟨hkept, hnew'⟩ := Arena.Keeps.add (h := ctx.trigger) hs.arena
        (t := ⟨ctx.trigger, none, p.arena.childSize none, ctx.rule.sinkAfter ctx.rule.joins,
          none, none⟩)
        (fun q hq => nomatch hq) (by simp)
      refine ⟨hkept, hnew', fun n k hk => FiniteMap.bind_get?_insert hm ?_ n, fun _ _ _ => rfl⟩
      exact FiniteMap.get?_insert_ne _ _ hk
  | @child before later e x t k m entry hcut hx hsink hm hentry hmem =>
      obtain ⟨hkept, hnew'⟩ := Arena.Keeps.add (h := ctx.trigger) hs.arena
        (t := ⟨k, some x, p.arena.childSize (some x), ctx.rule.sinkAfter later, some e.node, none⟩)
        (fun q hq => by cases hq; exact ⟨t, hx⟩) hmem
      refine ⟨hkept, hnew', fun _ _ _ => rfl,
        fun n j _ => FiniteMap.bind_get?_modify _ _ (fun m => ?_) n⟩
      simp only [FiniteMap.get?_modify]
      split
      · cases m.rightEntries.get? j <;> rfl
      · rfl
  | @storeLeft before later e x t m l left hcut he hx hsink hloc hm hmem hchange =>
      obtain ⟨hkept, hnew⟩ := Arena.Keeps.setLocation hmem l
      exact ⟨hkept, hnew, fun _ _ _ => rfl, fun n k _ => FiniteMap.bind_get?_insert hm (by rfl) n⟩
  | @activate x t hr hx hsink hloc hmem =>
      obtain ⟨m, _, heq, _⟩ := hs.activate hnet hr hx hsink hloc
      obtain ⟨hkept, hnew⟩ := Arena.Keeps.setLocation hmem ⟨none, m.tuples.next⟩
      rw [heq]
      exact ⟨hkept, hnew, fun _ _ _ => rfl, fun _ _ _ => rfl⟩
  | storeRight hcut he hm hnew hchange =>
      refine ⟨.refl _ _, .refl _ _, fun _ _ _ => rfl,
        fun n k hk => FiniteMap.bind_get?_insert hm ?_ n⟩
      rw [FiniteMap.get?_insert_ne _ _ hk]

theorem Departure.sameBut (hnet : net.WellFormed) (hs : Coherent net ctx.facts p.toMatchState)
    (hd : Departure net ctx p p') : p.toMatchState.SameBut ctx.trigger p'.toMatchState := by
  cases hd with
  | @remove before later x t hx hcut hsink hleaf hroot hmem =>
      obtain ⟨harena, hadapters, -⟩ := hs.removeTuple hnet ctx.rule hx hleaf hcut hsink hroot
      obtain ⟨hkept, hnew⟩ := Arena.Keeps.remove hs.arena hleaf hmem
      rw [← harena] at hkept hnew
      refine ⟨hkept, hnew, fun n k _ => ?_,
        fun n k _ => rightLocation?_removeTuple ctx.rule x p n k⟩
      rw [MatchState.root?, MatchState.root?, hadapters]
  | dropRoot hr hm hx =>
      refine ⟨.refl _ _, .refl _ _, fun n k hk => FiniteMap.bind_get?_insert hm ?_ n,
        fun _ _ _ => rfl⟩
      exact FiniteMap.get?_erase_ne _ hk
  | dropRight hcut he hm hchange =>
      refine ⟨.refl _ _, .refl _ _, fun _ _ _ => rfl,
        fun n k hk => FiniteMap.bind_get?_insert hm ?_ n⟩
      rw [FiniteMap.get?_erase_ne _ hk]

theorem Arrivals.sameBut (hnet : net.WellFormed) (hs : Coherent net facts p.toMatchState)
    (ha : Arrivals net facts h ns p p') : p.toMatchState.SameBut h p'.toMatchState := by
  refine lift_steps (Q := fun q q' => q.toMatchState.SameBut h q'.toMatchState) hnet
    (fun q q' hstep => ?_) (fun q => .refl h _) (fun _ _ _ hq hq' => hq.trans hq')
    (fun q q' hq hstep => ?_) hs ha
  · obtain ⟨r, -, harrival⟩ := hstep
    exact harrival.change
  · obtain ⟨r, -, harrival⟩ := hstep
    exact harrival.sameBut hnet hq

theorem Departures.sameBut (hnet : net.WellFormed) (hs : Coherent net facts p.toMatchState)
    (hd : Departures net facts h ns p p') : p.toMatchState.SameBut h p'.toMatchState := by
  refine lift_steps (Q := fun q q' => q.toMatchState.SameBut h q'.toMatchState) hnet
    (fun q q' hstep => ?_) (fun q => .refl h _) (fun _ _ _ hq hq' => hq.trans hq')
    (fun q q' hq hstep => ?_) hs hd
  · obtain ⟨r, -, hdeparture⟩ := hstep
    exact hdeparture.change
  · obtain ⟨r, -, hdeparture⟩ := hstep
    exact hdeparture.sameBut hnet hq

/-- The removal of a tuple counts it. -/
theorem counters_removeTuple (r : CompiledRule) {x : TupleId} {t : Tuple}
    (hx : p.arena.get? x = some t) :
    (removeTuple r p x).counters.created = p.counters.created ∧
      (removeTuple r p x).counters.deleted = p.counters.deleted + 1 := by
  have hunstore : (unstore r x t p).counters.created = p.counters.created ∧
      (unstore r x t p).counters.deleted = p.counters.deleted := by
    rcases unstore_cases r x t p with heq | ⟨_, _, _, _, -, -, -, heq⟩ | ⟨_, _, -, -, -, -, heq⟩ <;>
      rw [heq] <;> exact ⟨rfl, rfl⟩
  have hforget : (forgetMade x t (unstore r x t p)).counters = (unstore r x t p).counters := by
    unfold forgetMade
    split <;> rfl
  rw [removeTuple_live hx]
  simp only [giveUp, hforget, hunstore]
  exact ⟨trivial, trivial⟩

theorem Departure.counters (hnet : net.WellFormed) (hs : Coherent net ctx.facts p.toMatchState)
    (hd : Departure net ctx p p') : p'.counters.created = p.counters.created ∧
      p'.counters.deleted + p'.arena.size = p.counters.deleted + p.arena.size := by
  cases hd with
  | @remove before later x t hx hcut hsink hleaf hroot hmem =>
      obtain ⟨hcreated, hdeleted⟩ := counters_removeTuple ctx.rule hx
      obtain ⟨harena, -⟩ := hs.removeTuple hnet ctx.rule hx hleaf hcut hsink hroot
      have hsize := SlotMap.size_remove hs.arena.valid hx
      rw [← harena] at hsize
      exact ⟨hcreated, by omega⟩
  | dropRoot hr hm hx => exact ⟨rfl, rfl⟩
  | dropRight hcut he hm hchange => exact ⟨rfl, rfl⟩

/-- **Departures create nothing, and count what they remove.** -/
theorem Departures.counters (hnet : net.WellFormed) (hs : Coherent net facts p.toMatchState)
    (hd : Departures net facts h ns p p') : p'.counters.created = p.counters.created ∧
      p'.counters.deleted + p'.arena.size = p.counters.deleted + p.arena.size := by
  refine lift_steps (Q := fun q q' => q'.counters.created = q.counters.created ∧
      q'.counters.deleted + q'.arena.size = q.counters.deleted + q.arena.size) hnet
        (fun q q' hstep => ?_)
    (fun q => ⟨rfl, rfl⟩) (fun _ _ _ hq hq' => ⟨hq'.1.trans hq.1, hq'.2.trans hq.2⟩)
    (fun q q' hq hstep => ?_) hs hd
  · obtain ⟨r, -, hdeparture⟩ := hstep
    exact hdeparture.change
  · obtain ⟨r, -, hdeparture⟩ := hstep
    exact hdeparture.counters hnet hq

/-! ## Tuples and their facts -/

/-- The facts of a live tuple are live. -/
theorem Coherent.get?_of_mem_handles {s : MatchState} (hs : Coherent net facts s) {x : TupleId}
    {t : Tuple} (hx : s.arena.get? x = some t) {k : Handle} (hk : k ∈ s.arena.handles x) :
    ∃ f, facts.get? k = some f := by
  have hall : ∀ es hs, List.Forall₂ (Readable facts) es hs → ∀ k ∈ hs, ∃ f,
      facts.get? k = some f := by
    intro es hs hread
    induction hread with
    | nil => exact List.forall_mem_nil _
    | cons hread _ ih =>
        obtain ⟨f, hf, -⟩ := hread
        exact List.forall_mem_cons.mpr ⟨⟨f, hf⟩, ih⟩
  obtain ⟨r, before, e, later, hl⟩ := hs.lineage x t hx
  exact hall _ _ hl.readable k hk

/-- **Every tuple is where it says.** -/
theorem Sound.located (hnet : net.WellFormed) {s : MatchState} (hs : Sound net facts s) :
    s.Located := by
  intro x t hx
  have hcoherent := hs.coherent
  obtain ⟨l, hloc⟩ := Option.ne_none_iff_exists'.mp (hs.kept x t hx).stored
  have hstored : ∀ n, t.sink = n → x ∈ s.arena.storedAt n := fun n hn =>
    (Arena.mem_storedAt hcoherent.arena.valid).mpr ⟨t, l, hx, hn, hloc⟩
  have hlocation := (Arena.locationOf_eq hx).trans hloc
  refine ⟨l, hloc, ?_⟩
  obtain ⟨r, before, e, later, hl⟩ := hcoherent.lineage x t hx
  have hsink := hl.sink
  -- A full match is found at the terminal, any other at the left of the next join.
  cases later with
  | nil =>
      obtain ⟨m, hm, hfits⟩ := hcoherent.terminals.at_site r hl.cut.mem
      have hjoin := hcoherent.join_terminal_eq_none hnet hl.cut.mem
      have hat := hfits.tuple_at x (hstored _ hsink) l hlocation
      rw [MatchState.tupleAt?, hsink, CompiledRule.sinkAfter, hjoin, hm]
      exact hat
  | cons e' later =>
      have he := hcoherent.join_of_sink hnet hx hl.cut.next hsink
      obtain ⟨m, hm, hfits⟩ := hcoherent.joins.at_site e' he
      have hat := hfits.left.tuple_at x (hstored _ hsink) l hlocation
      rw [MatchState.tupleAt?, hsink, CompiledRule.sinkAfter, hm, Option.bind_some, hat]
      rfl

/-- The facts that a join has on its right are those that it knows a place for, each once. -/
theorem Coherent.factsAt_spec {s : MatchState} (hs : Coherent net facts s) (n : NodeId) :
    (s.factsAt n).Nodup ∧ ∀ k, k ∈ s.factsAt n ↔ ∃ l, s.rightLocation? n k = some l := by
  unfold MatchState.factsAt MatchState.rightLocation?
  cases hm : s.joins.get? n with
  | none => exact ⟨List.nodup_nil, fun k => by simp⟩
  | some m =>
      obtain ⟨e, he, rfl⟩ := hs.joins.only_sites n m hm
      have hperm := (hs.joins.fits_of_get? he hm).right.holds.perm_items m.rightEntries.nodup_keys
      refine ⟨hperm.nodup_iff.mpr m.rightEntries.nodup_keys, fun k => hperm.mem_iff.trans ?_⟩
      rw [FiniteMap.mem_keys_iff, Option.bind_some]
      cases m.rightEntries.get? k <;> simp

/-- A node that is no place has no tuples. -/
theorem Coherent.tuplesAt_eq_nil {s : MatchState} (hs : Coherent net facts s) {n : NodeId}
    (hn : n ∉ net.places) : s.tuplesAt n = [] := by
  have hjoin : s.joins.get? n = none := by
    refine hs.joins.get?_eq_none fun e he heq => hn ?_
    obtain ⟨r, hr, he⟩ := List.mem_flatMap.mp he
    exact List.mem_flatMap.mpr ⟨r, hr, List.mem_append_left _ (heq ▸ List.mem_map_of_mem he)⟩
  have hterminal : s.terminals.get? n = none := by
    refine hs.terminals.get?_eq_none fun r hr heq => hn ?_
    exact List.mem_flatMap.mpr ⟨r, hr, List.mem_append_right _ (List.mem_singleton.mpr heq.symm)⟩
  rw [MatchState.tuplesAt, MatchState.terminalTuples, hjoin, hterminal]
  rfl

end Changes

/-! ## Calls -/

namespace Session

variable {s s' : Session} {h : Handle} {f : Fact}

theorem Traffic.sameBut {out into : List NodeId} {events : List ActivationEvent} (hs : s.Consistent)
    (ht : s.Traffic s' h out into events) : s.state.SameBut h s'.state := by
  obtain ⟨p, p', hout, hsound, hinto, hstate, -⟩ := ht
  rw [← hstate]
  exact (hout.sameBut hs.network hs.sound.coherent).trans (hinto.sameBut hs.network hsound.coherent)

/-- **A call concerns no match without its fact.** -/
theorem sameBut_perform (hs : s.Consistent) (c : Call) :
    s.state.SameBut (c.about s.facts) (s.perform c).1.state := by
  obtain ⟨out, into, htraffic, -⟩ := perform_traffic hs c
  exact htraffic.sameBut hs

section Delete

variable (hs : s.Consistent) (hlive : s.facts.get? h = some f)

include hs hlive

/-- The session that a deletion leads to. -/
theorem delete_consistent : (s.delete h).1.network = s.network ∧ (s.delete h).1.Consistent ∧
    (s.delete h).1.facts.get? h = none := by
  obtain ⟨hadvances, -⟩ := delete_spec hs h
  refine ⟨hadvances.network, hadvances.consistent, ?_⟩
  rw [(delete_of_live hs hlive).1]
  exact (FactStore.get?_drop s.facts h h).trans (if_pos rfl)

/-- **A deletion removes the matches that contain the fact, and no other.** -/
theorem get?_delete (x : TupleId) : (s.delete h).1.state.arena.get? x =
    if h ∈ s.state.arena.handles x then none else s.state.arena.get? x := by
  obtain ⟨-, hs', hdead⟩ := delete_consistent hs hlive
  have hsame : s.state.SameBut h (s.delete h).1.state := sameBut_perform hs (.delete h)
  -- What is left does not contain the fact, so it was there before.
  have hleft : ∀ t, (s.delete h).1.state.arena.get? x = some t →
      s.state.arena.get? x = some t ∧ h ∉ s.state.arena.handles x := by
    intro t hx
    have hnot : h ∉ (s.delete h).1.state.arena.handles x := by
      intro hmem
      obtain ⟨g, hg⟩ := hs'.sound.coherent.get?_of_mem_handles hx hmem
      rw [hdead] at hg
      cases hg
    obtain ⟨hx', hhandles⟩ := hsame.new x t hx hnot
    exact ⟨hx', hhandles ▸ hnot⟩
  split
  · next hmem =>
    cases hx : (s.delete h).1.state.arena.get? x with
    | none => rfl
    | some t => exact absurd hmem (hleft t hx).2
  · next hmem =>
    cases hx : s.state.arena.get? x with
    | some t => exact (hsame.kept x t hx hmem).1
    | none =>
        cases hx' : (s.delete h).1.state.arena.get? x with
        | none => rfl
        | some t => exact absurd (hx.symm.trans (hleft t hx').1) (by simp)

theorem perm_refs_delete : (s.delete h).1.state.arena.refs.Perm
    (s.state.arena.refs.filter (h ∉ s.state.arena.handles ·)) := by
  obtain ⟨-, hs', -⟩ := delete_consistent hs hlive
  have hvalid := hs.sound.coherent.arena.valid
  have hvalid' := hs'.sound.coherent.arena.valid
  refine (List.perm_ext_iff_of_nodup hvalid'.nodup_refs (hvalid.nodup_refs.filter _)).mpr ?_
  intro x
  rw [List.mem_filter, SlotMap.mem_refs_iff hvalid', SlotMap.mem_refs_iff hvalid,
    get?_delete hs hlive x, decide_eq_true_eq]
  split
  · next hmem => simp [hmem]
  · next hmem => simp [hmem]

/-- The memories lose the matches that contain the fact, and no other. -/
theorem perm_tuplesAt_delete (n : NodeId) : ((s.delete h).1.state.tuplesAt n).Perm
    ((s.state.tuplesAt n).filter (h ∉ s.state.arena.handles ·)) := by
  obtain ⟨hnet, hs', -⟩ := delete_consistent hs hlive
  have hcoherent := hs.sound.coherent
  have hcoherent' := hs'.sound.coherent
  have hvalid := hcoherent.arena.valid
  have hvalid' := hcoherent'.arena.valid
  by_cases hn : n ∈ s.network.places
  · refine (hcoherent'.perm_tuplesAt hs'.network (hnet.symm ▸ hn)).trans ?_
    refine List.Perm.trans ?_ ((hcoherent.perm_tuplesAt hs.network hn).filter _).symm
    refine (List.perm_ext_iff_of_nodup (Arena.nodup_storedAt hvalid' n)
      ((Arena.nodup_storedAt hvalid n).filter _)).mpr fun x => ?_
    rw [List.mem_filter, Arena.mem_storedAt hvalid', Arena.mem_storedAt hvalid,
      get?_delete hs hlive x, decide_eq_true_eq]
    split
    · next hmem => simp [hmem]
    · next hmem => simp [hmem]
  · rw [hcoherent.tuplesAt_eq_nil hn, hcoherent'.tuplesAt_eq_nil (hnet.symm ▸ hn)]
    exact List.Perm.refl _

/-- The matches that go are counted, each once. -/
theorem counters_delete : (s.delete h).1.state.counters.created = s.state.counters.created ∧
    (s.delete h).1.state.counters.deleted = s.state.counters.deleted +
      (s.state.arena.refs.filter (h ∈ s.state.arena.handles ·)).length := by
  obtain ⟨out, p, p', hout, -, hinto, hstate, -⟩ := delete_traffic hs h
  obtain ⟨hcreated, hdeleted⟩ := hout.counters hs.network hs.sound.coherent
  rw [← hinto.of_nil, hstate] at hcreated hdeleted
  have hcount : (s.delete h).1.state.counters.deleted + (s.delete h).1.state.arena.size =
      s.state.counters.deleted + s.state.arena.size := hdeleted
  have hlength : (s.delete h).1.state.arena.refs.length =
      (s.state.arena.refs.filter (h ∉ s.state.arena.handles ·)).length :=
    (perm_refs_delete hs hlive).length_eq
  have hsplit : s.state.arena.refs.length =
      (s.state.arena.refs.filter (h ∈ s.state.arena.handles ·)).length +
        (s.state.arena.refs.filter (h ∉ s.state.arena.handles ·)).length := by
    simp only [decide_not]
    exact List.length_eq_length_filter_add _
  rw [SlotMap.length_refs] at hlength hsplit
  exact ⟨hcreated, by omega⟩

omit hlive in
/-- A fact that is dead is in no adapter and at no join. -/
theorem Consistent.absent_of_dead (hdead : s.facts.get? h = none) (n : NodeId) :
    s.state.root? n h = none ∧ s.state.rightLocation? n h = none := by
  have hnot := hs.not_holds_of_get?_eq_none hdead n
  rw [Bool.eq_false_iff, ne_eq, holds_iff, not_or] at hnot
  unfold MatchState.root? MatchState.rightLocation?
  constructor
  · rw [Option.eq_none_iff_forall_not_mem]
    intro x hx
    obtain ⟨m, hm, hx⟩ := Option.bind_eq_some_iff.mp hx
    exact hnot.1 ⟨m, x, hm, hx⟩
  · rw [Option.eq_none_iff_forall_not_mem]
    intro l hl
    obtain ⟨m, hm, hl⟩ := Option.bind_eq_some_iff.mp hl
    obtain ⟨entry, hentry, -⟩ := Option.map_eq_some_iff.mp hl
    exact hnot.2 ⟨m, entry, hm, hentry⟩

/-- The fact goes from every node, and no other fact does. -/
theorem places_delete (n : NodeId) (k : Handle) :
    (s.delete h).1.state.root? n k = (if k = h then none else s.state.root? n k) ∧
      (s.delete h).1.state.rightLocation? n k =
        if k = h then none else s.state.rightLocation? n k := by
  obtain ⟨-, hs', hdead⟩ := delete_consistent hs hlive
  have hsame : s.state.SameBut h (s.delete h).1.state := sameBut_perform hs (.delete h)
  by_cases hk : k = h
  · rw [if_pos hk, if_pos hk, hk]
    exact hs'.absent_of_dead hdead n
  · rw [if_neg hk, if_neg hk]
    exact ⟨hsame.root n k hk, hsame.right n k hk⟩

theorem perm_factsAt_delete (n : NodeId) :
    ((s.delete h).1.state.factsAt n).Perm ((s.state.factsAt n).filter (· ≠ h)) := by
  obtain ⟨-, hs', -⟩ := delete_consistent hs hlive
  obtain ⟨hnodup, hmem⟩ := hs.sound.coherent.factsAt_spec n
  obtain ⟨hnodup', hmem'⟩ := hs'.sound.coherent.factsAt_spec n
  refine (List.perm_ext_iff_of_nodup hnodup' (hnodup.filter _)).mpr fun k => ?_
  rw [List.mem_filter, hmem, hmem', (places_delete hs hlive n k).2, decide_eq_true_eq]
  split
  · next hk => simp [hk]
  · next hk => simp [hk]

end Delete

/-- **A deletion removes exactly the matches that contain its fact, and no call touches a match
without its fact.** In the state that any run leads to, the deletion of a live fact answers with the
fact. What does not contain the fact is left of the arena and of every memory; the tuples that went
are counted, each once. Adapters and joins know the fact no more, and all other facts as before.
Whatever the next call, the matches without the fact that it is about stay with their records and
facts, there are no others, and all are found in the memories where their records say. -/
theorem frames_run {rules : List Rule} {schemas : SchemaRegistry} {config : Config} {net : Network}
    (hbuild : Network.build rules schemas config = .ok net) (calls : List Call) :
    let s := ((ofNetwork net).run calls).1
    (∀ h f, s.get? h = some f → let s' := (s.delete h).1
      (s.delete h).2.result = .ok f ∧
      (∀ x, s'.state.arena.get? x =
        if h ∈ s.state.arena.handles x then none else s.state.arena.get? x) ∧
      (∀ n,
        (s'.state.tuplesAt n).Perm ((s.state.tuplesAt n).filter (h ∉ s.state.arena.handles ·))) ∧
      s'.state.counters.created = s.state.counters.created ∧
      s'.state.counters.deleted = s.state.counters.deleted +
        (s.state.arena.refs.filter (h ∈ s.state.arena.handles ·)).length ∧
      (∀ n k, s'.state.root? n k = if k = h then none else s.state.root? n k) ∧
      (∀ n, (s'.state.factsAt n).Perm ((s.state.factsAt n).filter (· ≠ h)))) ∧
    (∀ c, s.state.SameBut (c.about s.facts) (s.perform c).1.state ∧ (s.perform c).1.state.Located) ∧
    s.state.Located := by
  intro s
  obtain ⟨-, hs, -⟩ := run_ofNetwork (wellFormed_build hbuild) calls
  refine ⟨fun h f hlive => ?_, fun c => ⟨sameBut_perform hs c, ?_⟩, hs.sound.located hs.network⟩
  · obtain ⟨hcreated, hdeleted⟩ := counters_delete hs hlive
    exact ⟨(delete_of_live hs hlive).2, get?_delete hs hlive, perm_tuplesAt_delete hs hlive,
      hcreated, hdeleted, fun n k => (places_delete hs hlive n k).1, perm_factsAt_delete hs hlive⟩
  · have hs' := (perform_spec hs c).1.consistent
    exact hs'.sound.located hs'.network

/-- The order 2 is deleted, and with it its pairs with itself and with the other order. The pair of
the other order with itself stays. -/
theorem frames_orders : ∃ net, Network.build [pairRule] orderSchemas .standard = .ok net ∧
    let s := ((ofNetwork net).run orderCalls).1
    (∃ f, s.get? 2 = some f ∧ (s.delete 2).2.result = .ok f) ∧
    (s.state.arena.handles ⟨2, 1⟩ = [2, 5] ∧ s.state.arena.contains ⟨2, 1⟩ = true ∧
      (s.delete 2).1.state.arena.get? ⟨2, 1⟩ = none) ∧
    (s.state.arena.handles ⟨7, 0⟩ = [5, 5] ∧ s.state.arena.contains ⟨7, 0⟩ = true ∧
      (s.delete 2).1.state.arena.get? ⟨7, 0⟩ = s.state.arena.get? ⟨7, 0⟩) ∧
    (s.delete 2).1.state.counters.deleted = s.state.counters.deleted + 4 := by
  obtain ⟨net, hnet, f, hlive, hgoes, hwas, hstays, his, hfour⟩ :
      ∃ net, Network.build [pairRule] orderSchemas .standard = .ok net ∧
        let s := ((ofNetwork net).run orderCalls).1
        ∃ f, s.get? 2 = some f ∧
          s.state.arena.handles ⟨2, 1⟩ = [2, 5] ∧ s.state.arena.contains ⟨2, 1⟩ = true ∧
          s.state.arena.handles ⟨7, 0⟩ = [5, 5] ∧ s.state.arena.contains ⟨7, 0⟩ = true ∧
          (s.state.arena.refs.filter (2 ∈ s.state.arena.handles ·)).length = 4 :=
    ⟨_, rfl, order 8 2, by decide +kernel⟩
  obtain ⟨hdelete, -⟩ := frames_run hnet orderCalls
  obtain ⟨hresult, harena, -, -, hdeleted, -⟩ := hdelete 2 f hlive
  refine ⟨net, hnet, ⟨f, hlive, hresult⟩, ⟨hgoes, hwas, ?_⟩, ⟨hstays, his, ?_⟩, hdeleted.trans ?_⟩
  · rw [harena, hgoes, if_pos (by decide)]
  · rw [harena, hstays, if_neg (by decide)]
  · rw [hfour]

end Session

end RuleMatching
