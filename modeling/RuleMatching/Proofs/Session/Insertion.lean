import RuleMatching.Proofs.Outcome
import RuleMatching.Proofs.Session.Growth

set_option autoImplicit false

/-! # How matches are added

In a coherent state no read fails and no memory refuses an item, so handing on a match always
succeeds (`Propagation.leftInsert_spec`): it is stored at its sink and extended by exactly the facts
there that join it, and so are its extensions. The index of a join has no part in this: the facts
and matches that a join finds are those that pass all its tests, in the order in which they came
(`Propagation.leftMatches_eq`, `Propagation.rightMatches_eq`). -/

namespace RuleMatching

open Network

namespace Propagation

variable {net : Network} {facts : FactStore} {p : Propagation}

/-! ## Search -/

/-- A search among some candidates finds what it would find everywhere, if nothing else
passes its test. -/
theorem select_filter {α ε : Type} {test : α → Except ε Bool} {c q : α → Bool} {l : List α}
    (htest : ∀ a ∈ l, c a = true → test a = .ok (q a)) (hq : ∀ a ∈ l, q a = true → c a = true) :
    select test (l.filter c) = .ok (l.filter q) := by
  induction l with
  | nil => rfl
  | cons a rest ih =>
      have hrest := ih (fun b hb => htest b (List.mem_cons_of_mem a hb))
        fun b hb => hq b (List.mem_cons_of_mem a hb)
      cases hc : c a with
      | false =>
          have hqa : q a = false := by
            cases hqa : q a with
            | false => rfl
            | true =>
                rw [hq a List.mem_cons_self hqa] at hc
                cases hc
          rw [List.filter_cons_of_neg (by simp [hc]), List.filter_cons_of_neg (by simp [hqa])]
          exact hrest
      | true =>
          rw [List.filter_cons_of_pos hc, select, htest a List.mem_cons_self hc, hrest]
          cases hqa : q a with
          | false =>
              rw [List.filter_cons_of_neg (by simp [hqa])]
              rfl
          | true =>
              rw [List.filter_cons_of_pos hqa]
              rfl

theorem fact_eq {ctx : PropagationContext} {h : Handle} {f : Fact}
    (hf : ctx.facts.get? h = some f) : fact ctx h = .ok f := by
  rw [fact, hf]

theorem tupleFacts_eq {ctx : PropagationContext} {es : List Entry} {x : TupleId}
    (h : List.Forall₂ (Readable ctx.facts) es (p.arena.handles x)) :
    tupleFacts ctx p x = .ok (factsOf ctx.facts (p.arena.handles x)) := by
  show (p.arena.handles x).mapM (fact ctx) = _
  generalize p.arena.handles x = hs at h
  induction h with
  | nil => rfl
  | @cons e k es hs hread _ ih =>
      obtain ⟨f, hf, _⟩ := hread
      have hcons : factsOf ctx.facts (k :: hs) = f :: factsOf ctx.facts hs :=
        List.filterMap_cons_some hf
      rw [List.mapM_cons, fact_eq hf, ih, hcons]
      rfl

section Joins

variable (hnet : net.WellFormed) (hs : Coherent net facts p.toMatchState) {r : CompiledRule}
  {before later : List Entry} {e : Entry}

/-- A pair that can be read has equal keys and passes the filters iff the fact joins the match. -/
theorem joins_iff {bound : List Handle} {h : Handle} {f : Fact} (hnet : net.WellFormed)
    (hcut : net.Cut r before (e :: later)) (hbound : List.Forall₂ (Readable facts) before bound)
    (hf : facts.get? h = some f) (hok : tryReads f e.reads = .ok ()) :
    e.joins facts bound h = true ↔
      rightKeyOf facts e h = keyOf (e.condition.leftKey (factsOf facts bound)) ∧
        e.condition.filters.all (·.passes (factsOf facts bound) f) = true := by
  have hr := hnet.rule r hcut.mem
  have hb : e.condition.BoundReadable (factsOf facts bound) :=
    boundReadable_of_forall₂ hr hcut.split (factsOf_eq_of_forall₂ hbound).2
  have hi : e.condition.Indexable := hr.indexable e (by rw [hcut.split]; simp)
  rw [Entry.joins, hf]
  exact JoinCondition.passes_iff hi hb (candidateReadable_of_tryReads hr hcut.split hok)
    (leftKey_eq_ok hnet hcut hbound).1 (rightKey_eq_ok hnet hcut hf hok).1

/-- Of a pair with equal keys the filters tell whether the fact joins the match. -/
theorem isAllowed_eq_joins {bound : List Handle} {h : Handle} {f : Fact} (hnet : net.WellFormed)
    (hcut : net.Cut r before (e :: later)) (hbound : List.Forall₂ (Readable facts) before bound)
    (hf : facts.get? h = some f) (hok : tryReads f e.reads = .ok ())
    (hkey : rightKeyOf facts e h = keyOf (e.condition.leftKey (factsOf facts bound))) :
    e.condition.isAllowed (factsOf facts bound) f = .ok (e.joins facts bound h) := by
  have hr := hnet.rule r hcut.mem
  have hjoins : e.condition.filters.all (·.passes (factsOf facts bound) f) =
      e.joins facts bound h := by
    rw [Bool.eq_iff_iff, joins_iff hnet hcut hbound hf hok]
    exact ⟨fun hall => ⟨hkey, hall⟩, fun h => h.2⟩
  rw [← hjoins]
  exact JoinCondition.isAllowed_eq
    (boundReadable_of_forall₂ hr hcut.split (factsOf_eq_of_forall₂ hbound).2)
    (candidateReadable_of_tryReads hr hcut.split hok)

include hnet hs

/-- **A match finds the facts on the right that join it, in the order in which they entered.** -/
theorem leftMatches_eq {ctx : PropagationContext} (hctx : ctx.facts = facts)
    (hcut : net.Cut r before (e :: later)) (he : e ∈ net.allJoins) {x : TupleId} {t : Tuple}
    (hx : p.arena.get? x = some t) (hsink : t.sink = e.node) {m : JoinMemory}
    (hm : p.joins.get? e.node = some m) :
    leftMatches ctx e x p = .ok (leftKeyOf facts p.arena e x,
      m.rightEntries.keys.filter fun h => e.joins facts (p.arena.handles x) h) := by
  subst hctx
  have hfits := hs.joins.fits_of_get? he hm
  have hbound := hs.readable_of_sink hnet hx hcut hsink
  obtain ⟨hkey, hsome⟩ := leftKey_eq_ok hnet hcut hbound
  have hread : ∀ h ∈ m.rightEntries.keys, Readable ctx.facts e h := by
    intro h hh
    obtain ⟨entry, hentry⟩ := (FiniteMap.mem_keys_iff _ _).mp hh
    exact hfits.right.readable h entry hentry
  have hcand : m.right.candidates (leftKeyOf ctx.facts p.arena e x) =
      m.rightEntries.keys.filter fun h =>
        rightKeyOf ctx.facts e h = leftKeyOf ctx.facts p.arena e x :=
    hfits.right.holds.candidates
      (show m.right.Fits _ by rw [Memory.Fits, hfits.right.indexed, leftKeyOf, hsome])
  -- The candidates agree on the key already; what `select` decides is left to the other tests.
  have hselect : select (fun h => do
        atNode ctx e.node (e.condition.isAllowed (factsOf ctx.facts (p.arena.handles x))
          (← fact ctx h)))
      (m.right.candidates (leftKeyOf ctx.facts p.arena e x)) =
      .ok (m.rightEntries.keys.filter fun h => e.joins ctx.facts (p.arena.handles x) h) := by
    rw [hcand]
    refine select_filter (fun h hh hc => ?_) fun h hh hjoins => ?_
    · obtain ⟨f, hf, hok⟩ := hread h hh
      rw [fact_eq hf]
      show atNode ctx e.node (e.condition.isAllowed _ f) = _
      rw [isAllowed_eq_joins hnet hcut hbound hf hok (decide_eq_true_eq.mp hc)]
      rfl
    · obtain ⟨f, hf, hok⟩ := hread h hh
      exact decide_eq_true ((joins_iff hnet hcut hbound hf hok).mp hjoins).1
  have hkey' : atNode ctx e.node (e.condition.leftKey (factsOf ctx.facts (p.arena.handles x))) =
      .ok (leftKeyOf ctx.facts p.arena e x) := by
    rw [hkey]
    rfl
  have hmem : atJoin ctx e.node (MatchStore.facing? p e.node (leftKeyOf ctx.facts p.arena e x)) =
      .ok (m.right.candidates (leftKeyOf ctx.facts p.arena e x)) := by
    simp only [MatchStore.facing?, hm, Option.map_some, atJoin]
  exact Outcome.bind_eq_ok_iff.mpr ⟨_, tupleFacts_eq hbound, Outcome.bind_eq_ok_iff.mpr ⟨_, hkey',
    Outcome.bind_eq_ok_iff.mpr ⟨_, hmem, Outcome.bind_eq_ok_iff.mpr ⟨_, hselect, rfl⟩⟩⟩⟩

/-- **A fact finds the matches on the left that it joins, in the order in which they came.** -/
theorem rightMatches_eq {ctx : PropagationContext} (hctx : ctx.facts = facts)
    (hcut : net.Cut r before (e :: later)) (he : e ∈ net.allJoins) {h : Handle}
    (hread : Readable facts e h) {m : JoinMemory} (hm : p.joins.get? e.node = some m)
    (hnew : m.rightEntries.get? h = none) :
    rightMatches ctx e h p = .ok (rightKeyOf facts e h,
      (p.arena.storedAt e.node).filter fun x => e.joins facts (p.arena.handles x) h) := by
  subst hctx
  have hfits := hs.joins.fits_of_get? he hm
  have hbound : ∀ x ∈ p.arena.storedAt e.node,
      List.Forall₂ (Readable ctx.facts) before (p.arena.handles x) := by
    intro x hx
    obtain ⟨t, _, ht, hsink, _⟩ := (Arena.mem_storedAt hs.arena.valid).mp hx
    exact hs.readable_of_sink hnet ht hcut hsink
  obtain ⟨f, hf, hok⟩ := hread
  obtain ⟨hkey, hsome⟩ := rightKey_eq_ok hnet hcut hf hok
  have hcand : m.left.candidates (rightKeyOf ctx.facts e h) =
      (p.arena.storedAt e.node).filter fun x =>
        leftKeyOf ctx.facts p.arena e x = rightKeyOf ctx.facts e h :=
    hfits.left.holds.candidates
      (show m.left.Fits _ by rw [Memory.Fits, hfits.left.indexed, hsome])
  -- The same with the sides exchanged: the candidates are the stored matches under the
  -- key of the fact.
  have hselect : select (fun x => do
        atNode ctx e.node (e.condition.isAllowed (← tupleFacts ctx p x) f))
      (m.left.candidates (rightKeyOf ctx.facts e h)) =
      .ok ((p.arena.storedAt e.node).filter fun x => e.joins ctx.facts (p.arena.handles x) h) := by
    rw [hcand]
    refine select_filter (fun x hx hc => ?_) fun x hx hjoins => ?_
    · rw [tupleFacts_eq (hbound x hx)]
      show atNode ctx e.node (e.condition.isAllowed _ f) = _
      rw [isAllowed_eq_joins hnet hcut (hbound x hx) hf hok (decide_eq_true_eq.mp hc).symm]
      rfl
    · exact decide_eq_true ((joins_iff hnet hcut (hbound x hx) hf hok).mp hjoins).1.symm
  have hmem : atJoin ctx e.node (MatchStore.waiting? p e.node (rightKeyOf ctx.facts e h)) =
      .ok (m.left.candidates (rightKeyOf ctx.facts e h)) := by
    simp only [MatchStore.waiting?, hm, Option.map_some, atJoin]
  have hcontains : MatchStore.hasRight p e.node h = false := by
    simp [MatchStore.hasRight, MatchState.hasRight, hm, FiniteMap.contains, hnew]
  have hkey' : atNode ctx e.node (e.condition.rightKey f) = .ok (rightKeyOf ctx.facts e h) := by
    rw [hkey]
    rfl
  refine Outcome.bind_eq_ok_iff.mpr ⟨f, fact_eq hf, Outcome.bind_eq_ok_iff.mpr ⟨_, hkey',
    Outcome.bind_eq_ok_iff.mpr ⟨_, hmem, ?_⟩⟩⟩
  rw [hcontains]
  exact Outcome.bind_eq_ok_iff.mpr ⟨_, hselect, rfl⟩

end Joins

end Propagation

/-! ## Facts that are in -/

section Holds

variable {net : Network} {facts : FactStore} {s : MatchState}

/-- A fact is in at a node iff an adapter or a join there has it. -/
theorem holds_iff (s : MatchState) (n : NodeId) (h : Handle) :
    s.holds n h = true ↔ (∃ m x, s.adapters.get? n = some m ∧ m.roots.get? h = some x) ∨
      ∃ m entry, s.joins.get? n = some m ∧ m.rightEntries.get? h = some entry := by
  rw [MatchState.holds, Bool.or_eq_true]
  refine or_congr ?_ ?_
  · cases s.adapters.get? n with
    | none => simp
    | some m => simp [FiniteMap.contains_iff]
  · cases s.joins.get? n with
    | none => simp
    | some m => simp [FiniteMap.contains_iff]

/-- A fact is in at a join iff the join has it on its right. -/
theorem Coherent.holds_join_iff (hnet : net.WellFormed) (hs : Coherent net facts s) {e : Entry}
    (he : e ∈ net.allJoins) {m : JoinMemory} (hm : s.joins.get? e.node = some m) (h : Handle) :
    s.holds e.node h = true ↔ ∃ entry, m.rightEntries.get? h = some entry := by
  rw [holds_iff, hs.adapter_eq_none hnet he, hm]
  simp

/-- A fact is in at an adapter iff the adapter knows its match of one pattern. -/
theorem Coherent.holds_first_iff (hnet : net.WellFormed) (hs : Coherent net facts s)
    {r : CompiledRule} (hr : r ∈ net.rules) {m : AdapterMemory}
    (hm : s.adapters.get? r.first.node = some m) (h : Handle) :
    s.holds r.first.node h = true ↔ ∃ x, m.roots.get? h = some x := by
  rw [holds_iff, hs.join_eq_none hnet hr, hm]
  simp

/-- Whether a map of a memory has a key can be read off the list of its keys. -/
theorem contains_map_congr {α β : Type} {map : α → FiniteMap Handle β} {o o' : Option α}
    (ho : o'.map (fun m => (map m).keys) = o.map fun m => (map m).keys) (h : Handle) :
    (o'.map fun m => (map m).contains h).getD false =
      (o.map fun m => (map m).contains h).getD false := by
  have hkeys : ∀ o : Option α, (o.map fun m => (map m).contains h).getD false =
      ((o.map fun m => (map m).keys).map fun ks => decide (h ∈ ks)).getD false := by
    intro o
    cases o with
    | none => rfl
    | some m =>
        simp only [Option.map_some, Option.getD_some]
        rw [Bool.eq_iff_iff, decide_eq_true_iff, FiniteMap.mem_keys_iff_contains]
  rw [hkeys, hkeys, ho]

/-- Which facts are in depends on the keys of the maps alone. -/
theorem holds_congr {s' : MatchState}
    (ha : ∀ n, (s'.adapters.get? n).map (·.roots.keys) = (s.adapters.get? n).map (·.roots.keys))
    (hj : ∀ n, (s'.joins.get? n).map (·.rightEntries.keys) =
      (s.joins.get? n).map (·.rightEntries.keys)) (n : NodeId) (h : Handle) :
    s'.holds n h = s.holds n h := by
  unfold MatchState.holds
  rw [contains_map_congr (ha n), contains_map_congr (hj n)]

end Holds

namespace Propagation

variable {net : Network} {facts : FactStore} {p : Propagation}

theorem rightKeys_addChild (node sink : NodeId) (x : TupleId) (h : Handle) (p : Propagation)
    (n : NodeId) :
    ((addChild node sink x h p).joins.get? n).map (·.rightEntries.keys) =
      (p.joins.get? n).map (·.rightEntries.keys) := by
  refine FiniteMap.map_get?_modify p.joins node (fun m => ?_) n
  exact FiniteMap.keys_modify _ _ _

theorem rightKeys_putLeft {node : NodeId} {m : JoinMemory} (hm : p.joins.get? node = some m)
    (x : TupleId) (l : Location) (left : Memory TupleId) (n : NodeId) :
    ((putLeft node x m l left p).joins.get? n).map (·.rightEntries.keys) =
      (p.joins.get? n).map (·.rightEntries.keys) := by
  refine FiniteMap.map_get?_insert hm ?_ n
  rfl

theorem sameFacts_addChild (node sink : NodeId) (x : TupleId) (h : Handle) (p : Propagation) :
    SameFacts p.toMatchState (addChild node sink x h p).toMatchState :=
  ⟨holds_congr (fun _ => rfl) (rightKeys_addChild node sink x h p), rfl⟩

theorem sameFacts_putLeft {node : NodeId} {m : JoinMemory} (hm : p.joins.get? node = some m)
    (x : TupleId) (l : Location) (left : Memory TupleId) :
    SameFacts p.toMatchState (putLeft node x m l left p).toMatchState :=
  ⟨holds_congr (fun _ => rfl) (rightKeys_putLeft hm x l left), rfl⟩

/-- The facts on the right of a join are in there, also once a match is stored on its left. -/
theorem holds_putLeft (hnet : net.WellFormed) (hs : Coherent net facts p.toMatchState) {e : Entry}
    (he : e ∈ net.allJoins) {m : JoinMemory} (hm : p.joins.get? e.node = some m) (x : TupleId)
    (l : Location) (left : Memory TupleId) {h : Handle} (hh : h ∈ m.rightEntries.keys) :
    (putLeft e.node x m l left p).holds e.node h = true := by
  rw [(sameFacts_putLeft hm x l left).holds, hs.holds_join_iff hnet he hm]
  exact (FiniteMap.mem_keys_iff _ _).mp hh

/-! ## Handing on a match -/

/-- A match that was created and is still to be stored. -/
structure Pending (net : Network) (p : Propagation) (x : TupleId) (t : Tuple) (r : CompiledRule)
    (later : List Entry) : Prop where
  newest : p.arena.live.getLast? = some (x, t)
  unstored : t.location = none
  sink : t.sink = r.sinkAfter later
  backed : Backed net p.toMatchState t
  rooted : Rooted net p.toMatchState x t
  childless : ∀ k c, ¬ Extends p.arena x k c

/-- The work hands a new match on to the rest of the chain, and always succeeds. -/
def HandsOn (net : Network) (facts : FactStore) (r : CompiledRule) (later : List Entry)
    (next : TupleId → Propagation → Result) : Prop :=
  ∀ x t p, Coherent net facts p.toMatchState → Pending net p x t r later →
    ∃ p', next x p = (p', none) ∧ Stores net facts x p p'

theorem extend_eq {ctx : PropagationContext} {node sink : NodeId}
    {next : TupleId → Propagation → Result} {x : TupleId} {h : Handle} {q : Propagation}
    (hrun : next p.arena.next (addChild node sink x h p) = (q, none)) :
    extend ctx node sink next x h p = (q, none) := by
  rw [extend, newTuple_eq]
  dsimp only
  rw [linkMade_createTuple, hrun]

section Extend

variable {ctx : PropagationContext} {before later : List Entry} {e : Entry}
  {next : TupleId → Propagation → Result} (hnet : net.WellFormed)

include hnet

/-- A new extension of a match is to be stored. -/
theorem pending_addChild (hs : Coherent net facts p.toMatchState) {r : CompiledRule}
    (hcut : net.Cut r before (e :: later)) {x : TupleId} {t : Tuple} (hx : p.arena.get? x = some t)
    {h : Handle} (hheld : p.holds e.node h = true) :
    Pending net (addChild e.node (r.sinkAfter later) x h p) p.arena.next
      ⟨h, some x, p.arena.childSize (some x), r.sinkAfter later, some e.node, none⟩ r later := by
  have hsame := sameFacts_addChild e.node (r.sinkAfter later) x h p
  obtain ⟨u, hu⟩ : ∃ u : Tuple, u = ⟨h, some x, p.arena.childSize (some x), r.sinkAfter later,
    some e.node, none⟩ := ⟨_, rfl⟩
  have harena : (addChild e.node (r.sinkAfter later) x h p).arena = SlotMap.add p.arena u := by
    rw [hu]
    rfl
  rw [← hu]
  have hnone : p.arena.get? p.arena.next = none := SlotMap.get?_next hs.arena.valid
  refine ⟨by rw [harena]; simp, by rw [hu], by rw [hu], ?_, ?_, ?_⟩
  · intro r' before₂ e' later' hcut' hsink'
    obtain ⟨-, -, rfl, -⟩ := hnet.next_inj hcut hcut' (by rw [← hsink', hu])
    rw [hsame.holds, hu]
    exact hheld
  · intro hroot
    rw [hu] at hroot
    cases hroot
  · -- Nothing extends a tuple that was not there before.
    rintro k c ⟨v, hv, hp, -⟩
    rw [harena, SlotMap.get?_add hs.arena.valid] at hv
    split at hv
    · cases hv
      rw [hu, Option.some.injEq] at hp
      rw [hp, hnone] at hx
      cases hx
    · obtain ⟨w, hw⟩ := Arena.parent_live hs.arena hv hp
      rw [hnone] at hw
      cases hw

/-- A match that waits at a join can be extended there by a fact that is in. -/
theorem change_addChild (hs : Coherent net facts p.toMatchState) {r : CompiledRule}
    (hcut : net.Cut r before (e :: later)) {x : TupleId} {t : Tuple} (hx : p.arena.get? x = some t)
    (hsink : t.sink = e.node) {h : Handle} (hheld : p.holds e.node h = true) :
    Change net facts p (addChild e.node (r.sinkAfter later) x h p) := by
  have he := hs.join_of_sink hnet hx hcut hsink
  obtain ⟨m, hm, _⟩ := hs.joins.at_site e he
  obtain ⟨entry, hentry⟩ := (hs.holds_join_iff hnet he hm h).mp hheld
  exact .child hcut hx hsink hm hentry

omit hnet in
/-- A match has grown by one fact when its new extension was stored. -/
theorem grows_of_stores (hs : Coherent net facts p.toMatchState) {x : TupleId} {t u : Tuple}
    (hx : p.arena.get? x = some t) (hp : u.parent = some x) {q p' : Propagation}
    (hchange : Change net facts p q) (hsame : SameFacts p.toMatchState q.toMatchState)
    (harena : q.arena = SlotMap.add p.arena u) (hstores : Stores net facts p.arena.next q p') :
    Grows net facts [(x, u.handle)] p p' := by
  have hvalid := hs.arena.valid
  have hnone : p.arena.get? p.arena.next = none := SlotMap.get?_next hvalid
  have hne : ∀ y v, p.arena.get? y = some v → y ≠ p.arena.next := by
    rintro y v hy rfl
    rw [hnone] at hy
    cases hy
  have hold : ∀ y, y ≠ p.arena.next → q.arena.get? y = p.arena.get? y := by
    intro y hyn
    rw [harena, SlotMap.get?_add hvalid, if_neg hyn]
  have hcur : q.arena.get? p.arena.next = some u := by
    rw [harena, SlotMap.get?_add hvalid, if_pos rfl]
  obtain ⟨l, hplaced⟩ := hstores.placed u hcur
  -- The match is extended by the new one, and by those that extended it before.
  have hext : ∀ c, Extends p'.arena x u.handle c ↔ c = p.arena.next ∨
      Extends p.arena x u.handle c := by
    intro c
    rw [hstores.extends_iff hcur ((hold x (hne x t hx)).trans hx) (hne x t hx), harena,
      extends_add hvalid]
    split
    · next hc => simp [hc, hp]
    · next hc => simp [hc]
  refine ⟨.head hchange hstores.changes, hsame.trans hstores.same, fun y v hy => ?_,
    fun y v hy hv => ?_, fun z k hzk => ?_, fun y v hy hv => ?_⟩
  · exact hstores.kept y v (hne y v hy) ((hold y (hne y v hy)).trans hy)
  · by_cases hyn : y = p.arena.next
    · rw [hyn, hplaced] at hv
      cases hv
      exact ⟨x, hp, Or.inl (List.mem_singleton_self _)⟩
    -- Another new tuple hangs below the new extension, or below a tuple that came after it.
    · obtain ⟨z, hz, hmem⟩ := hstores.fresh y v ((hold y hyn).trans hy) hv
      refine ⟨z, hz, Or.inr ?_⟩
      by_cases hzn : z = p.arena.next
      · rw [hzn]
        exact hnone
      · rcases hmem with heq | hdead
        · exact absurd heq hzn
        · exact (hold z hzn).symm.trans hdead
  · obtain ⟨rfl, rfl⟩ := Prod.mk.inj (List.mem_singleton.mp hzk)
    refine ⟨p.arena.next, hnone, (hext _).mpr (Or.inl rfl), fun c hc hextends => ?_⟩
    rcases (hext c).mp hextends with hcn | ⟨v, hv, -⟩
    · exact hcn
    · rw [hc] at hv
      cases hv
  · refine hstores.settled y v ?_ hv
    by_cases hyn : y = p.arena.next
    · exact Or.inl hyn
    · exact Or.inr ((hold y hyn).trans hy)

/-- **A match is extended by one fact.** -/
theorem extend_spec (hs : Coherent net facts p.toMatchState)
    (hnext : HandsOn net facts ctx.rule later next) (hcut : net.Cut ctx.rule before (e :: later))
    {x : TupleId} {t : Tuple} (hx : p.arena.get? x = some t) (hsink : t.sink = e.node) {h : Handle}
    (hheld : p.holds e.node h = true) :
    ∃ p', extend ctx e.node (ctx.rule.sinkAfter later) next x h p = (p', none) ∧
      Grows net facts [(x, h)] p p' := by
  have hchange := change_addChild hnet hs hcut hx hsink hheld
  have hsame := sameFacts_addChild e.node (ctx.rule.sinkAfter later) x h p
  obtain ⟨p', hrun, hstores⟩ := hnext _ _ _ (hchange.coherent hnet hs)
    (pending_addChild hnet hs hcut hx hheld)
  obtain ⟨u, hu⟩ : ∃ u : Tuple, u = ⟨h, some x, p.arena.childSize (some x),
    ctx.rule.sinkAfter later, some e.node, none⟩ := ⟨_, rfl⟩
  have harena : (addChild e.node (ctx.rule.sinkAfter later) x h p).arena =
      SlotMap.add p.arena u := by
    rw [hu]
    rfl
  have hgrows := grows_of_stores hs hx (by rw [hu]) hchange hsame harena hstores
  rw [hu] at hgrows
  exact ⟨p', extend_eq hrun, hgrows⟩

/-- **Matches are extended one after the other.** -/
theorem each_extend_spec {α : Type} (pair : α → TupleId × Handle) {l : List α}
    (hnext : HandsOn net facts ctx.rule later next) (hcut : net.Cut ctx.rule before (e :: later))
    (hs : Coherent net facts p.toMatchState) (hnodup : (l.map pair).Nodup)
    (hlive : ∀ a ∈ l, ∃ t, p.arena.get? (pair a).1 = some t ∧ t.sink = e.node)
    (hheld : ∀ a ∈ l, p.holds e.node (pair a).2 = true) :
    ∃ p',
      each (fun a p => extend ctx e.node (ctx.rule.sinkAfter later) next (pair a).1 (pair a).2 p)
        l p = (p', none) ∧ Grows net facts (l.map pair) p p' := by
  induction l generalizing p with
  | nil => exact ⟨p, rfl, .refl net facts p⟩
  | cons a rest ih =>
      rw [List.map_cons, List.nodup_cons] at hnodup
      obtain ⟨t, ht, hsink⟩ := hlive a List.mem_cons_self
      obtain ⟨p₁, hrun, hgrows⟩ :=
        extend_spec hnet hs hnext hcut ht hsink (hheld a List.mem_cons_self)
      obtain ⟨p', hrest, hgrows'⟩ := ih (hgrows.changes.coherent hnet hs) hnodup.2
        (fun b hb => hgrows.live_sink (hlive b (List.mem_cons_of_mem a hb)))
        fun b hb => by
          rw [hgrows.same.holds]
          exact hheld b (List.mem_cons_of_mem a hb)
      -- The pairs that are still to come were live before the first extension, and none of
      -- them is its pair.
      refine ⟨p', ?_, ?_⟩
      · rw [each, hrun]
        exact hrest
      · refine hgrows.trans hnet hs hgrows' (fun z k hzk => ?_) fun zk hzk => ?_
        · have hmem : (z, k) ∈ (a :: rest).map pair := hzk
          obtain ⟨b, hb, hpair⟩ := List.mem_map.mp hmem
          obtain ⟨v, hv, _⟩ := hlive b hb
          rw [hpair] at hv
          exact ⟨v, hv⟩
        · rw [List.mem_singleton.mp hzk]
          exact hnodup.1

end Extend

section Stored

variable {ks : List Handle} {x : TupleId} {t : Tuple} {r : CompiledRule} {later : List Entry}
  {q p' : Propagation} {l : Location} (hs : Coherent net facts p.toMatchState)
  (hpending : Pending net p x t r later) (harena : q.arena = p.arena.setLocation x l)
  (hgrows : Grows net facts (ks.map fun k => (x, k)) q p')

include hs hpending harena

theorem get?_stored : q.arena.get? x = some { t with location := some l } := by
  rw [harena, Arena.get?_setLocation, if_pos rfl, Arena.get?_newest hs.arena.valid hpending.newest]
  rfl

include hgrows

/-- The extensions of a match that was just stored are new. -/
theorem extends_stored {k : Handle} {c : TupleId} (hc : Extends p'.arena x k c) :
    q.arena.get? c = none ∧ k ∈ ks := by
  rcases hgrows.extends_cases (get?_stored hs hpending harena) hc with hold | ⟨hnone, hmem⟩
  · rw [harena, extends_setLocation] at hold
    exact absurd hold (hpending.childless k c)
  · exact ⟨hnone, by simpa using hmem⟩

/-- A match that was stored and then extended by the facts that join it is settled. -/
theorem settled_stored (hnet : net.WellFormed) (hchanges : Changes net facts p q)
    (hsame : SameFacts p.toMatchState q.toMatchState)
    (hjoined : ∀ e ∈ net.allJoins, t.sink = e.node → ∀ h, p.holds e.node h = true →
      (e.joins facts (p.arena.handles x) h = true ↔ h ∈ ks)) :
    Settled net facts p'.toMatchState x { t with location := some l } := by
  have hsame' := hsame.trans hgrows.same
  have hnew : ∀ k c, Extends p'.arena x k c → q.arena.get? c = none ∧ k ∈ ks := fun _ _ =>
    extends_stored hs hpending harena hgrows
  have hpair : ∀ k ∈ ks, (x, k) ∈ ks.map fun k => (x, k) := fun k hk => List.mem_map_of_mem hk
  have hhandles : p'.arena.handles x = p.arena.handles x := by
    have hq := hchanges.coherent hnet hs
    calc p'.arena.handles x = q.arena.handles x :=
          Arena.handles_kept hq.arena (hgrows.changes.coherent hnet hq).arena
            (fun z w hw => ⟨w, hgrows.kept z w hw, rfl, rfl⟩) (get?_stored hs hpending harena)
      _ = p.arena.handles x := by rw [harena, Arena.handles_setLocation]
  -- Backed, rooted and extended only once by each fact; and extended by those facts that join it.
  refine ⟨⟨by simp, fun r' before e later' hcut hsink => ?_, fun hroot r' hr' hsink m hm => ?_,
    fun k c c' hc hc' => ?_⟩, fun e he hsink h hh => ?_⟩
  · rw [hsame'.holds]
    exact hpending.backed r' before e later' hcut hsink
  · rw [hsame'.adapters] at hm
    exact hpending.rooted hroot r' hr' hsink m hm
  · obtain ⟨hnone, hk⟩ := hnew k c hc
    obtain ⟨d, -, -, huniq⟩ := hgrows.made x k (hpair k hk)
    rw [huniq c hnone hc, huniq c' (hnew k c' hc').1 hc']
  · rw [hsame'.holds] at hh
    rw [hhandles, hjoined e he hsink h hh]
    constructor
    · intro hmem
      obtain ⟨c, -, hext, -⟩ := hgrows.made x h (hpair h hmem)
      exact ⟨c, hext⟩
    · rintro ⟨c, hext⟩
      exact (hnew h c hext).2

/-- A match that was stored and then extended by the facts that join it is stored as
it should be. -/
theorem stores_of_grows (hnet : net.WellFormed) (hchanges : Changes net facts p q)
    (hsame : SameFacts p.toMatchState q.toMatchState)
    (hjoined : ∀ e ∈ net.allJoins, t.sink = e.node → ∀ h, p.holds e.node h = true →
      (e.joins facts (p.arena.handles x) h = true ↔ h ∈ ks)) : Stores net facts x p p' := by
  have hx := Arena.get?_newest hs.arena.valid hpending.newest
  have hxq := get?_stored hs hpending harena
  have hother : ∀ y, y ≠ x → q.arena.get? y = p.arena.get? y := by
    intro y hne
    rw [harena, Arena.get?_setLocation, if_neg hne]
  have hne : ∀ y, p.arena.get? y = none → y ≠ x := by
    rintro y hy rfl
    rw [hx] at hy
    cases hy
  refine ⟨hchanges.trans hgrows.changes, hsame.trans hgrows.same, fun y v hyx hy => ?_,
    fun u hu => ?_, fun y v hy hv => ?_, fun y v hy hv => ?_⟩
  · exact hgrows.kept y v (by rw [hother y hyx, hy])
  · rw [hx] at hu
    cases hu
    exact ⟨l, hgrows.kept x _ hxq⟩
  · obtain ⟨z, hz, hmem⟩ := hgrows.fresh y v (by rw [hother y (hne y hy), hy]) hv
    refine ⟨z, hz, ?_⟩
    by_cases hzx : z = x
    · exact Or.inl hzx
    · rcases hmem with hmem | hmem
      · simp only [List.mem_map, Prod.mk.injEq] at hmem
        obtain ⟨_, _, hzx', _⟩ := hmem
        exact absurd hzx'.symm hzx
      · exact Or.inr (by rw [← hother z hzx, hmem])
  -- The match itself is settled by its extensions; the tuples that came after it were settled
  -- as they came.
  · rcases hy with rfl | hy
    · have hv' := hgrows.kept y _ hxq
      rw [hv] at hv'
      cases hv'
      exact settled_stored hs hpending harena hgrows hnet hchanges hsame hjoined
    · exact hgrows.settled y v (by rw [hother y (hne y hy), hy]) hv

end Stored

/-- A match that comes to a join is stored there, and then extended by the facts that join it. -/
theorem leftInsert_cons_eq (hnet : net.WellFormed) {ctx : PropagationContext}
    (hctx : ctx.facts = facts) (hs : Coherent net facts p.toMatchState) {before later : List Entry}
    {e : Entry} (hcut : net.Cut ctx.rule before (e :: later)) {x : TupleId} {t : Tuple}
    (hx : p.arena.live.getLast? = some (x, t)) (hsink : t.sink = e.node)
    (hloc : t.location = none) :
    e ∈ net.allJoins ∧ ∃ m l left, p.joins.get? e.node = some m ∧
      Change net facts p (putLeft e.node x m l left p) ∧
      leftInsert ctx (e :: later) x p =
        each (fun h p => extend ctx e.node (ctx.rule.sinkAfter later) (leftInsert ctx later) x h p)
          (m.rightEntries.keys.filter fun h => e.joins facts (p.arena.handles x) h)
          (putLeft e.node x m l left p) := by
  have hget := Arena.get?_newest hs.arena.valid hx
  have he := hs.join_of_sink hnet hget hcut hsink
  obtain ⟨m, l, left, hm, hstore, -⟩ := hs.storeLeft hnet he hx hsink hloc
  refine ⟨he, m, l, left, hm, Change.storeLeft he hx hsink hloc hstore, ?_⟩
  rw [leftInsert, leftMatches_eq hnet hs hctx hcut he hget hsink hm]
  simp only [MatchStore.storeLeft?, hstore]

/-- **Handing on a match always succeeds**: the match is stored, and extended by the facts
that join it. -/
theorem leftInsert_spec (hnet : net.WellFormed) {ctx : PropagationContext}
    (hctx : ctx.facts = facts) {before later : List Entry} (hcut : net.Cut ctx.rule before later) :
    HandsOn net facts ctx.rule later (leftInsert ctx later) := by
  -- On the joins that the match has not passed: with none left it is full, and the
  -- terminal stores it.
  induction later generalizing before with
  | nil =>
      intro x t p hs hpending
      obtain ⟨m, hm, heq, -⟩ :=
        hs.activate hnet hcut.mem hpending.newest hpending.sink hpending.unstored
      have hchange : Change net facts p (activate ctx x p).1 :=
        Change.activate hcut.mem hpending.newest hpending.sink hpending.unstored
      rw [heq] at hchange
      have harena : (putFull ctx x m p).arena = p.arena.setLocation x ⟨none, m.tuples.next⟩ := rfl
      have hsame : SameFacts p.toMatchState (putFull ctx x m p).toMatchState :=
        ⟨fun _ _ => rfl, rfl⟩
      have hgrows : Grows net facts (([] : List Handle).map fun k => (x, k)) (putFull ctx x m p)
          (putFull ctx x m p) :=
        .refl net facts _
      refine ⟨_, heq, stores_of_grows hs hpending harena hgrows hnet (.single hchange) hsame
        fun e he hsink => ?_⟩
      exact absurd (hsink.symm.trans hpending.sink) (hnet.join_ne_terminal he hcut.mem)
  | cons e later ih =>
      intro x t p hs hpending
      have hsink : t.sink = e.node := hpending.sink
      obtain ⟨he, m, l, left, hm, hchange, heq⟩ :=
        leftInsert_cons_eq hnet hctx hs hcut hpending.newest hsink hpending.unstored
      have hsame := sameFacts_putLeft hm x l left
      obtain ⟨q, hq⟩ : ∃ q, q = putLeft e.node x m l left p := ⟨_, rfl⟩
      rw [← hq] at hchange heq hsame
      have harena : q.arena = p.arena.setLocation x l := by rw [hq]; rfl
      have hxq := get?_stored hs hpending harena
      obtain ⟨ks, hks⟩ : ∃ ks, ks =
        m.rightEntries.keys.filter fun h => e.joins facts (p.arena.handles x) h := ⟨_, rfl⟩
      rw [← hks] at heq
      have hheld : ∀ k ∈ ks, p.holds e.node k = true := by
        intro k hk
        rw [hks, List.mem_filter] at hk
        exact (hs.holds_join_iff hnet he hm k).mpr ((FiniteMap.mem_keys_iff _ _).mp hk.1)
      have hnodup : (ks.map fun k => (x, k)).Nodup := by
        refine List.Nodup.map (fun _ _ h => (Prod.mk.inj h).2) ?_
        rw [hks]
        exact m.rightEntries.nodup_keys.filter _
      -- The hypothesis takes every extension through the rest of the chain.
      obtain ⟨p', hrun, hgrows⟩ := each_extend_spec hnet (fun k => (x, k)) (ih hcut.next) hcut
        (hchange.coherent hnet hs) hnodup (fun _ _ => ⟨_, hxq, hsink⟩) fun k hk => by
          rw [hsame.holds]
          exact hheld k hk
      refine ⟨p', heq.trans hrun,
        stores_of_grows hs hpending harena hgrows hnet (.single hchange) hsame ?_⟩
      intro e' he' hsink' k hk
      have hee : e' = e := hnet.join_inj he he' (hsink'.symm.trans hsink)
      subst hee
      rw [hks, List.mem_filter, FiniteMap.mem_keys_iff, ← hs.holds_join_iff hnet he hm k]
      exact ⟨fun h => ⟨hk, h⟩, fun h => h.2⟩

end Propagation

end RuleMatching
