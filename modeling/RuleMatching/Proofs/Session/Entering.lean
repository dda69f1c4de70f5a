import RuleMatching.Proofs.Session.Waiting

set_option autoImplicit false

/-! # A fact that enters

A state is sound if every match is made of facts that are in, and exact if it has every match that
it should have. **A fact that enters at one entry keeps a sound state sound and an exact state
exact** (`Propagation.assertAt_spec`); it cannot enter iff a join could not read it, and then
nothing changes. -/

namespace RuleMatching

open Network

/-- Every match is made of facts that are in, and there is no match twice. -/
structure Sound (net : Network) (facts : FactStore) (s : MatchState) : Prop where
  coherent : Coherent net facts s
  kept : ∀ x t, s.arena.get? x = some t → Kept net s x t

/-- The matches are exactly those that there should be. -/
structure Exact (net : Network) (facts : FactStore) (s : MatchState) : Prop where
  coherent : Coherent net facts s
  settled : ∀ x t, s.arena.get? x = some t → Settled net facts s x t

theorem Exact.sound {net : Network} {facts : FactStore} {s : MatchState} (h : Exact net facts s) :
    Sound net facts s :=
  ⟨h.coherent, fun x t hx => (h.settled x t hx).toKept⟩

/-- **In a sound state exactly the facts that are in at the first entry wait after it.** -/
theorem Sound.waits_first_iff {net : Network} {facts : FactStore} {s : MatchState}
    (hnet : net.WellFormed) (hs : Sound net facts s) {r : CompiledRule} (hr : r ∈ net.rules)
    {l : List Handle} : Waits s (r.sinkAfter r.joins) l ↔ ∃ k, l = [k] ∧
    s.holds r.first.node k = true := by
  rw [RuleMatching.waits_first_iff hnet hs.coherent hr]
  constructor
  · rintro ⟨x, t, hx, -, hsink, rfl⟩
    exact ⟨t.handle, rfl, (hs.kept x t hx).backed r [] r.first r.joins (.first hr) hsink⟩
  · rintro ⟨k, rfl, hk⟩
    obtain ⟨m, hm, hfits⟩ := hs.coherent.adapters.at_site r hr
    obtain ⟨x, hx⟩ := (hs.coherent.holds_first_iff hnet hr hm k).mp hk
    obtain ⟨t, ht, hp, rfl, hsink⟩ := hfits.root k x hx
    exact ⟨x, t, ht, hp, hsink, rfl⟩

/-- A fact has entered at some nodes. -/
structure Enters (net : Network) (facts : FactStore) (ns : List NodeId) (h : Handle)
    (p p' : Propagation) : Prop where
  changes : Changes net facts p p'
  sound : Sound net facts p'.toMatchState
  exact : Exact net facts p.toMatchState → Exact net facts p'.toMatchState
  holds : ∀ n k, p'.holds n k = true ↔ p.holds n k = true ∨ (n ∈ ns ∧ k = h)
  adds : Adds net facts ns h p.toMatchState p'.toMatchState

variable {net : Network} {facts : FactStore} {p p' p'' : Propagation}

namespace Enters

theorem refl (hs : Sound net facts p.toMatchState) (h : Handle) : Enters net facts [] h p p :=
  ⟨.refl, hs, id, by simp, .refl net facts h _⟩

theorem trans {ns ns' : List NodeId} {h : Handle} (he : Enters net facts ns h p p')
    (he' : Enters net facts ns' h p' p'') : Enters net facts (ns ++ ns') h p p'' := by
  refine ⟨he.changes.trans he'.changes, he'.sound, fun hs => he'.exact (he.exact hs), fun n k => ?_,
    he.adds.trans he'.adds he'.holds⟩
  rw [he'.holds, he.holds, List.mem_append, or_and_right, or_assoc]

end Enters

/-- A fact came in at one node. The matches that wait there are now extended by it if it joins them,
all other matches have the extensions that they had, and the new matches are settled. -/
structure EntersAt (net : Network) (facts : FactStore) (n : NodeId) (h : Handle)
    (p p' : Propagation) : Prop where
  changes : Changes net facts p p'
  holds : ∀ m k, p'.holds m k = true ↔ p.holds m k = true ∨ (m = n ∧ k = h)
  kept : ∀ y t, p.arena.get? y = some t → p'.arena.get? y = some t
  fresh : ∀ y t, p.arena.get? y = none → p'.arena.get? y = some t →
    Settled net facts p'.toMatchState y t
  rooted : ∀ y t, p.arena.get? y = some t → Rooted net p.toMatchState y t →
    Rooted net p'.toMatchState y t
  others : ∀ y t, p.arena.get? y = some t → ∀ k, ¬ (t.sink = n ∧ k = h) →
    ∀ c, Extends p'.arena y k c ↔ Extends p.arena y k c
  unique : ∀ y t, p.arena.get? y = some t → t.sink = n →
    ∀ c c', Extends p'.arena y h c → Extends p'.arena y h c' → c = c'
  joined : ∀ e ∈ net.allJoins, e.node = n → ∀ y t, p.arena.get? y = some t → t.sink = n →
    (e.joins facts (p.arena.handles y) h = true ↔ ∃ c, Extends p'.arena y h c)

namespace EntersAt

variable {n : NodeId} {h : Handle}

/-- The matches that were there are kept. -/
theorem kept_of_kept (he : EntersAt net facts n h p p') {y : TupleId} {t : Tuple}
    (hy : p.arena.get? y = some t) (hk : Kept net p.toMatchState y t) :
    Kept net p'.toMatchState y t := by
  refine ⟨hk.stored, fun r before e later hcut hsink => ?_, he.rooted y t hy hk.rooted,
    fun k c c' hc hc' => ?_⟩
  · exact (he.holds _ _).mpr (Or.inl (hk.backed r before e later hcut hsink))
  · by_cases hn : t.sink = n ∧ k = h
    · rw [hn.2] at hc hc'
      exact he.unique y t hy hn.1 c c' hc hc'
    · have hext := he.others y t hy k hn
      exact hk.unique k c c' ((hext c).mp hc) ((hext c').mp hc')

/-- The settled matches stay settled. -/
theorem settled_of_settled (hnet : net.WellFormed) (hs : Coherent net facts p.toMatchState)
    (he : EntersAt net facts n h p p') {y : TupleId} {t : Tuple} (hy : p.arena.get? y = some t)
    (hset : Settled net facts p.toMatchState y t) : Settled net facts p'.toMatchState y t := by
  refine ⟨he.kept_of_kept hy hset.toKept, fun e hjoin hsink k hk => ?_⟩
  have hhandles : p'.arena.handles y = p.arena.handles y :=
    Arena.handles_kept hs.arena (he.changes.coherent hnet hs).arena
      (fun z w hw => ⟨w, he.kept z w hw, rfl, rfl⟩) hy
  rw [hhandles]
  by_cases hn : t.sink = n ∧ k = h
  · rw [hn.2]
    exact he.joined e hjoin (hsink.symm.trans hn.1) y t hy hn.1
  · have hk' : p.holds e.node k = true := by
      rcases (he.holds _ _).mp hk with hk | hk
      · exact hk
      · exact absurd ⟨hsink.trans hk.1, hk.2⟩ hn
    rw [hset.joined e hjoin hsink k hk']
    exact exists_congr fun c => (he.others y t hy k hn c).symm

section Adds

variable (hnet : net.WellFormed) (hs : Sound net facts p.toMatchState)
  (hs' : Sound net facts p'.toMatchState) (he : EntersAt net facts n h p p')

include hs hs' he

/-- Matches that were there keep their facts. -/
theorem handles_eq {y : TupleId} {t : Tuple} (hy : p.arena.get? y = some t) :
    p'.arena.handles y = p.arena.handles y :=
  Arena.handles_kept hs.coherent.arena hs'.coherent.arena (fun z w hw => ⟨w, he.kept z w hw,
    rfl, rfl⟩) hy

include hnet

/-- **What a fact that came in at one node adds**: its extensions of the matches that wait there,
and what comes after them. -/
theorem adds : Adds net facts [n] h p.toMatchState p'.toMatchState := by
  have hwaits : ∀ m l, Waits p.toMatchState m l → Waits p'.toMatchState m l := by
    rintro m l ⟨x, t, hx, hsink, rfl⟩
    exact ⟨x, t, he.kept x t hx, hsink, he.handles_eq hs hs' hx⟩
  refine ⟨he.kept, hwaits, fun r before e later hcut hb l k => ⟨fun hw => ?_, fun hw => ?_⟩⟩
  · obtain ⟨y, u, hy, husink, rfl, c, v, hc, hp, rfl⟩ :=
      (waits_next_iff hnet hs'.coherent hcut hb).mp hw
    have hheld : p'.holds e.node v.handle = true := by
      have hvsink := hs'.coherent.sink_of_parent hnet hc hp hy hcut husink
      exact (hs'.kept c v hc).backed r before e later hcut hvsink
    cases hyold : p.arena.get? y with
    | some w =>
        have hyw := he.kept y w hyold
        rw [hy, Option.some.injEq] at hyw
        subst hyw
        rw [he.handles_eq hs hs' hyold]
        by_cases hn : u.sink = n ∧ v.handle = h
        · have hjoins := (he.joined e (hcut.join hb) (husink.symm.trans hn.1) y u hyold hn.1).mpr
            ⟨c, v, hc, hp, hn.2⟩
          rw [← hn.2] at hjoins
          exact Or.inr ⟨hwaits _ _ ⟨y, u, hyold, husink, rfl⟩, hheld, hjoins,
            Or.inr ⟨List.mem_singleton.mpr (husink.symm.trans hn.1), hn.2⟩⟩
        · have hext := (he.others y u hyold _ hn c).mp ⟨v, hc, hp, rfl⟩
          exact Or.inl ((waits_next_iff hnet hs.coherent hcut hb).mpr
            ⟨y, u, hyold, husink, rfl, c, hext⟩)
    | none =>
        -- A new match is settled, and it is the only one of its facts.
        have hjoins := ((he.fresh y u hyold hy).joined e (hcut.join hb) husink _ hheld).mpr
          ⟨c, v, hc, hp, rfl⟩
        refine Or.inr ⟨⟨y, u, hy, husink, rfl⟩, hheld, hjoins, Or.inl ?_⟩
        rintro ⟨z, w, hz, hwsink, heq⟩
        rw [← he.handles_eq hs hs' hz] at heq
        have hzy :=
          handles_inj hnet hs'.coherent hs'.kept hcut (he.kept z w hz) hy hwsink husink heq
        rw [hzy, hyold] at hz
        cases hz
  · rcases hw with hold | ⟨⟨y, u, hy, husink, rfl⟩, hheld, hjoins, hnew⟩
    · exact hwaits _ _ hold
    · refine (waits_next_iff hnet hs'.coherent hcut hb).mpr ⟨y, u, hy, husink, rfl, ?_⟩
      cases hyold : p.arena.get? y with
      | none => exact ((he.fresh y u hyold hy).joined e (hcut.join hb) husink k hheld).mp hjoins
      | some w =>
          have hyw := he.kept y w hyold
          rw [hy, Option.some.injEq] at hyw
          subst hyw
          rw [he.handles_eq hs hs' hyold] at hjoins hnew
          rcases hnew with hnot | ⟨hn, rfl⟩
          · exact absurd ⟨y, u, hyold, husink, rfl⟩ hnot
          · rw [List.mem_singleton] at hn
            exact (he.joined e (hcut.join hb) hn y u hyold (husink.trans hn)).mp hjoins

end Adds

/-- **A fact that came in at one node has entered there.** -/
theorem enters (hnet : net.WellFormed) (hs : Sound net facts p.toMatchState)
    (he : EntersAt net facts n h p p') : Enters net facts [n] h p p' := by
  have hs' := he.changes.coherent hnet hs.coherent
  -- A live tuple was there before, or it is settled.
  have hcases : ∀ y t, p'.arena.get? y = some t → p.arena.get? y = some t ∨
      Settled net facts p'.toMatchState y t := by
    intro y t hy
    cases hold : p.arena.get? y with
    | none => exact Or.inr (he.fresh y t hold hy)
    | some u =>
        rw [he.kept y u hold] at hy
        exact Or.inl hy
  have hsound : Sound net facts p'.toMatchState := by
    refine ⟨hs', fun y t hy => ?_⟩
    rcases hcases y t hy with hold | hset
    · exact he.kept_of_kept hold (hs.kept y t hold)
    · exact hset.toKept
  refine ⟨he.changes, hsound, fun hexact => ⟨hs', fun y t hy => ?_⟩, by simpa using he.holds,
    he.adds hnet hs hsound⟩
  rcases hcases y t hy with hold | hset
  · exact he.settled_of_settled hnet hs.coherent hold (hexact.settled y t hold)
  · exact hset

end EntersAt

/-- In a sound state a join has made matches only with facts that are in. -/
theorem Sound.madeBy_eq_nil (hnet : net.WellFormed) {s : MatchState} (hs : Sound net facts s)
    {e : Entry} (he : e ∈ net.allJoins) {h : Handle} (hh : s.holds e.node h = false) :
    s.arena.madeBy e.node h = [] := by
  rw [List.eq_nil_iff_forall_not_mem]
  intro c hc
  obtain ⟨t, ht, ho, hth⟩ := (Arena.mem_madeBy hs.coherent.arena.valid).mp hc
  obtain ⟨r, before, e', later, hl⟩ := hs.coherent.lineage c t ht
  by_cases hb : before = []
  · rw [(hl.root hb).2] at ho
    cases ho
  · rw [(hl.child hb).1, Option.some.injEq] at ho
    have hee := hnet.join_inj he (hl.cut.join hb) ho
    subst hee
    have hback := (hs.kept c t ht).backed r before e' later hl.cut hl.sink
    rw [hth, hh] at hback
    cases hback

/-- A join has no entry for a fact that is not in there. -/
theorem Coherent.rightEntry_eq_none (hnet : net.WellFormed) {s : MatchState}
    (hs : Coherent net facts s) {e : Entry} (he : e ∈ net.allJoins) {m : JoinMemory}
    (hm : s.joins.get? e.node = some m) {h : Handle} (hnot : s.holds e.node h = false) :
    m.rightEntries.get? h = none := by
  cases hentry : m.rightEntries.get? h with
  | none => rfl
  | some entry =>
      rw [(hs.holds_join_iff hnet he hm h).mpr ⟨entry, hentry⟩] at hnot
      cases hnot

namespace Propagation

/-! ## At an adapter -/

theorem holds_addRoot (hnet : net.WellFormed) (hs : Coherent net facts p.toMatchState)
    {r : CompiledRule} (hr : r ∈ net.rules) {m : AdapterMemory}
    (hm : p.adapters.get? r.first.node = some m) (h : Handle) (n : NodeId) (k : Handle) :
    (addRoot r h m p).holds n k = true ↔ p.holds n k = true ∨ (n = r.first.node ∧ k = h) := by
  rw [holds_iff, holds_iff]
  have hadapters : (addRoot r h m p).adapters.get? n = if n = r.first.node then
      some { m with roots := m.roots.insert h p.arena.next, counters := m.counters.addLeft }
      else p.adapters.get? n := FiniteMap.get?_insert _ _ _ _
  have hjoins : (addRoot r h m p).joins = p.joins := rfl
  rw [hadapters, hjoins]
  by_cases hn : n = r.first.node
  · subst hn
    rw [if_pos rfl, hs.join_eq_none hnet hr, hm]
    simp only [Option.some.injEq, reduceCtorEq, false_and, exists_false, or_false, true_and]
    simp only [exists_and_left, exists_eq_left', FiniteMap.get?_insert]
    by_cases hk : k = h <;> simp [hk]
  · rw [if_neg hn]
    simp [hn]

/-- A new match of one pattern is to be stored. -/
theorem pending_addRoot (hnet : net.WellFormed) (hs : Coherent net facts p.toMatchState)
    {r : CompiledRule} (hr : r ∈ net.rules) {m : AdapterMemory}
    (hm : p.adapters.get? r.first.node = some m) (h : Handle) :
    Pending net (addRoot r h m p) p.arena.next
      ⟨h, none, p.arena.childSize none, r.sinkAfter r.joins, none, none⟩ r r.joins := by
  have hholds := holds_addRoot hnet hs hr hm h
  obtain ⟨t, ht⟩ : ∃ t : Tuple, t = ⟨h, none, p.arena.childSize none, r.sinkAfter r.joins,
      none, none⟩ :=
    ⟨_, rfl⟩
  have harena : (addRoot r h m p).arena = SlotMap.add p.arena t := by
    rw [ht]
    rfl
  rw [← ht]
  have hnone : p.arena.get? p.arena.next = none := SlotMap.get?_next hs.arena.valid
  refine ⟨by rw [harena]; simp, by rw [ht], by rw [ht], ?_, ?_, ?_⟩
  · intro r' before e later hcut hsink
    obtain ⟨-, -, rfl, -⟩ := hnet.next_inj (Cut.first hr) hcut (by rw [← hsink, ht])
    rw [hholds, ht]
    exact Or.inr ⟨rfl, rfl⟩
  · intro _ r' hr' hsink m' hm'
    have hrr := (hnet.next_inj (Cut.first hr) (Cut.first hr') (by rw [← hsink, ht])).1
    have hm₁ := FiniteMap.get?_insert_self p.adapters r.first.node
      { m with roots := m.roots.insert h p.arena.next, counters := m.counters.addLeft }
    rw [← hrr, show (addRoot r h m p).adapters = p.adapters.insert r.first.node _ from rfl,
      hm₁] at hm'
    cases hm'
    rw [ht]
    exact FiniteMap.get?_insert_self _ _ _
  · rintro k c ⟨v, hv, hp, -⟩
    rw [harena, SlotMap.get?_add hs.arena.valid] at hv
    split at hv
    · cases hv
      rw [ht] at hp
      cases hp
    -- An older tuple cannot have it as parent, as parents are live.
    · obtain ⟨w, hw⟩ := Arena.parent_live hs.arena hv hp
      rw [hnone] at hw
      cases hw

/-- A fact that comes to an adapter is noted there with a new match, which is then handed on. -/
theorem assertRoot_eq (ctx : PropagationContext) (hnet : net.WellFormed) (hctx : ctx.facts = facts)
    (hr : ctx.rule ∈ net.rules) (hs : Coherent net facts p.toMatchState) {h : Handle}
    (hread : Readable facts ctx.rule.first h) (hnot : p.holds ctx.rule.first.node h = false) :
    ∃ m q, p.adapters.get? ctx.rule.first.node = some m ∧ m.roots.get? h = none ∧
      Change net facts p (addRoot ctx.rule h m p) ∧
      Stores net facts p.arena.next (addRoot ctx.rule h m p) q ∧
      leftInsert ctx ctx.rule.joins p.arena.next (addRoot ctx.rule h m p) = (q, none) ∧
      assertRoot ctx ctx.rule.first ctx.rule.joins h p = (q, none) := by
  obtain ⟨m, hm, _⟩ := hs.adapters.at_site ctx.rule hr
  have hnew : m.roots.get? h = none := by
    cases hroot : m.roots.get? h with
    | none => rfl
    | some x =>
        rw [(hs.holds_first_iff hnet hr hm h).mpr ⟨x, hroot⟩] at hnot
        cases hnot
  have hcontains : m.roots.contains h = false := by
    rw [FiniteMap.contains, hnew]
    rfl
  have hchange := Change.root hr hread hm hnew
  have hpending := pending_addRoot hnet hs hr hm h
  obtain ⟨p₁, hp₁⟩ : ∃ p₁, p₁ = addRoot ctx.rule h m p := ⟨_, rfl⟩
  rw [← hp₁] at hchange hpending
  obtain ⟨q, hrun, hstores⟩ :=
    leftInsert_spec hnet hctx (Cut.first hr).next _ _ p₁ (hchange.coherent hnet hs) hpending
  refine ⟨m, q, hm, hnew, hp₁ ▸ hchange, hp₁ ▸ hstores, hp₁ ▸ hrun, ?_⟩
  simp only [assertRoot, MatchStore.adapters, hm, hcontains, Bool.false_eq_true, if_false,
    newTuple_eq]
  rw [show leftInsert ctx ctx.rule.joins p.arena.next _ =
    leftInsert ctx ctx.rule.joins p.arena.next p₁ by rw [hp₁]; rfl, hrun]

/-- A match that was there keeps its root when a new one is noted. -/
theorem rooted_addRoot (hnet : net.WellFormed) {r : CompiledRule} (hr : r ∈ net.rules)
    {m : AdapterMemory} (hm : p.adapters.get? r.first.node = some m) {h : Handle}
    (hnew : m.roots.get? h = none) {y : TupleId} {t : Tuple}
    (hroot : Rooted net p.toMatchState y t) : Rooted net (addRoot r h m p).toMatchState y t := by
  intro hp r' hr' hsink m' hm'
  have hadapters : (addRoot r h m p).adapters.get? r'.first.node = if r'.first.node =
      r.first.node then
      some { m with roots := m.roots.insert h p.arena.next, counters := m.counters.addLeft }
      else p.adapters.get? r'.first.node := FiniteMap.get?_insert _ _ _ _
  rw [hadapters] at hm'
  split at hm'
  · next hn =>
    have hrr := hnet.first_inj hr hr' hn
    subst hrr
    cases hm'
    have hold := hroot hp _ hr hsink m hm
    have hne : t.handle ≠ h := by
      intro heq
      rw [heq, hnew] at hold
      cases hold
    show (m.roots.insert h p.arena.next).get? t.handle = some y
    rw [FiniteMap.get?_insert_ne _ _ hne]
    exact hold
  · exact hroot hp r' hr' hsink m' hm'

/-- **A fact enters at the adapter of a rule.** -/
theorem assertRoot_spec (ctx : PropagationContext) (hnet : net.WellFormed)
    (hctx : ctx.facts = facts) (hr : ctx.rule ∈ net.rules) (hs : Sound net facts p.toMatchState)
    {h : Handle} (hread : Readable facts ctx.rule.first h)
    (hnot : p.holds ctx.rule.first.node h = false) :
    ∃ p', assertRoot ctx ctx.rule.first ctx.rule.joins h p = (p', none) ∧
      Enters net facts [ctx.rule.first.node] h p p' := by
  obtain ⟨m, p', hm, hnew, hchange, hstores, -, heq⟩ :=
    assertRoot_eq ctx hnet hctx hr hs.coherent hread hnot
  refine ⟨p', heq, EntersAt.enters hnet hs ?_⟩
  have hvalid := hs.coherent.arena.valid
  obtain ⟨t, ht⟩ : ∃ t : Tuple, t = ⟨h, none, p.arena.childSize none,
    ctx.rule.sinkAfter ctx.rule.joins, none, none⟩ := ⟨_, rfl⟩
  have harena : (addRoot ctx.rule h m p).arena = SlotMap.add p.arena t := by
    rw [ht]
    rfl
  have hget : ∀ y, (addRoot ctx.rule h m p).arena.get? y =
      if y = p.arena.next then some t else p.arena.get? y := by
    intro y
    rw [harena, SlotMap.get?_add hvalid]
  have hcur : (addRoot ctx.rule h m p).arena.get? p.arena.next = some t := by rw [hget, if_pos rfl]
  have hne : ∀ y v, p.arena.get? y = some v → y ≠ p.arena.next := by
    rintro y v hy rfl
    rw [SlotMap.get?_next hvalid] at hy
    cases hy
  have hkept : ∀ y v, p.arena.get? y = some v → p'.arena.get? y = some v := fun y v hy =>
    hstores.kept y v (hne y v hy) (by rw [hget, if_neg (hne y v hy), hy])
  -- The new match has no parent, so the others have the extensions that they had.
  have hext : ∀ y v, p.arena.get? y = some v → ∀ k c,
      Extends p'.arena y k c ↔ Extends p.arena y k c := by
    intro y v hy k c
    rw [hstores.extends_iff hcur (by rw [hget, if_neg (hne y v hy), hy]) (hne y v hy), harena,
      extends_add hvalid, ht]
    split
    · next hc =>
      simp only [reduceCtorEq, false_and, false_iff]
      rintro ⟨u, hu, -⟩
      exact hne c u hu hc
    · rfl
  refine ⟨.head hchange hstores.changes, fun n k => ?_, hkept, fun y v hold hy => ?_,
    fun y v _ hroot => ?_, fun y v hy k _ => hext y v hy k, fun y v hy _ c c' hc hc' => ?_,
    fun e he hn => absurd hn (hnet.join_ne_first he hr)⟩
  · rw [hstores.same.holds]
    exact holds_addRoot hnet hs.coherent hr hm h n k
  -- A tuple that is new is the match of one pattern or came after it.
  · refine hstores.settled y v ?_ hy
    by_cases hyn : y = p.arena.next
    · exact Or.inl hyn
    · exact Or.inr (by rw [hget, if_neg hyn, hold])
  · unfold Rooted
    rw [hstores.same.adapters]
    exact rooted_addRoot hnet hr hm hnew hroot
  · exact (hs.kept y v hy).unique h c c' ((hext y v hy h c).mp hc) ((hext y v hy h c').mp hc')

/-! ## At a join -/

theorem holds_putRight (hnet : net.WellFormed) (hs : Coherent net facts p.toMatchState) {e : Entry}
    (he : e ∈ net.allJoins) {m : JoinMemory} (hm : p.joins.get? e.node = some m) (h : Handle)
    (l : Location) (right : Memory Handle) (n : NodeId) (k : Handle) :
    (putRight e.node h m l right p).holds n k = true ↔
      p.holds n k = true ∨ (n = e.node ∧ k = h) := by
  rw [holds_iff, holds_iff]
  simp only [putRight, FiniteMap.get?_insert]
  by_cases hn : n = e.node
  · subst hn
    rw [if_pos rfl, hs.adapter_eq_none hnet he, hm]
    simp only [Option.some.injEq, reduceCtorEq, false_and, exists_false, false_or, true_and]
    simp only [exists_and_left, exists_eq_left', FiniteMap.get?_insert]
    by_cases hk : k = h <;> simp [hk]
  · rw [if_neg hn]
    simp [hn]

/-- A fact that comes to a join is stored there, and then extends the matches that it joins. -/
theorem rightInsert_eq (ctx : PropagationContext) (hnet : net.WellFormed) (hctx : ctx.facts = facts)
    {before later : List Entry} {e : Entry} (hcut : net.Cut ctx.rule before (e :: later))
    (he : e ∈ net.allJoins) (hs : Sound net facts p.toMatchState) {h : Handle}
    (hread : Readable facts e h) (hnot : p.holds e.node h = false) :
    ∃ m l right, p.joins.get? e.node = some m ∧ m.rightEntries.get? h = none ∧
      Change net facts p (putRight e.node h m l right p) ∧
      rightInsert ctx e later h p =
        each (fun x p => extend ctx e.node (ctx.rule.sinkAfter later) (leftInsert ctx later) x h p)
          ((p.arena.storedAt e.node).filter fun x => e.joins facts (p.arena.handles x) h)
          (putRight e.node h m l right p) := by
  obtain ⟨m, hm, -⟩ := hs.coherent.joins.at_site e he
  have hnew := hs.coherent.rightEntry_eq_none hnet he hm hnot
  have hmade := hs.madeBy_eq_nil hnet he hnot
  obtain ⟨l, right, hstore, -⟩ := hs.coherent.storeRight hnet he hread hm hnew hmade
  refine ⟨m, l, right, hm, hnew, .storeRight he hread hm hnew hmade hstore, ?_⟩
  rw [rightInsert, rightMatches_eq hnet hs.coherent hctx hcut he hread hm hnew]
  simp only [MatchStore.storeRight?, hstore]

/-- In a sound state a fact that is not in at a join extends none of the matches that wait there. -/
theorem not_extends_of_not_holds (hnet : net.WellFormed) (hs : Sound net facts p.toMatchState)
    {e : Entry} (he : e ∈ net.allJoins) {h : Handle} (hnot : p.holds e.node h = false) {y : TupleId}
    {t : Tuple} (hy : p.arena.get? y = some t) (hsink : t.sink = e.node) (c : TupleId) :
    ¬ Extends p.arena y h c := by
  rintro ⟨u, hu, hp, hh⟩
  have ho := hs.coherent.origin_eq_sink hu hp hy
  have hc : c ∈ p.arena.madeBy e.node h :=
    (Arena.mem_madeBy hs.coherent.arena.valid).mpr ⟨u, hu, by rw [ho, hsink], hh⟩
  rw [hs.madeBy_eq_nil hnet he hnot] at hc
  cases hc

theorem mem_pairs_iff {xs : List TupleId} {h : Handle} (z : TupleId) (k : Handle) :
    (z, k) ∈ xs.map (fun x => (x, h)) ↔ z ∈ xs ∧ k = h := by
  simp only [List.mem_map, Prod.mk.injEq]
  constructor
  · rintro ⟨z', hz', rfl, rfl⟩
    exact ⟨hz', rfl⟩
  · rintro ⟨hz, rfl⟩
    exact ⟨z, hz, rfl, rfl⟩

section Joined

variable (hs : Sound net facts p.toMatchState) {e : Entry} {h : Handle} {q : Propagation}
  (harena : q.arena = p.arena) {xs : List TupleId}
  (hxs : ∀ x, x ∈ xs ↔ x ∈ p.arena.storedAt e.node ∧ e.joins facts (p.arena.handles x) h = true)
  (hgrows : Grows net facts (xs.map fun x => (x, h)) q p')

include hs hxs in
/-- The matches that the fact joins are among those that wait at the join. -/
theorem mem_joined_iff {y : TupleId} {t : Tuple} (hy : p.arena.get? y = some t) :
    y ∈ xs ↔ t.sink = e.node ∧ e.joins facts (p.arena.handles y) h = true := by
  rw [hxs, Arena.mem_storedAt_of_get? hs.coherent.arena.valid hy,
    and_iff_left (hs.kept y t hy).stored]

include harena hgrows

/-- All other matches have the extensions that they had. -/
theorem extends_iff_of_not_joined {y : TupleId} {t : Tuple} (hy : p.arena.get? y = some t)
    {k : Handle} (hk : ¬ (y ∈ xs ∧ k = h)) (c : TupleId) :
    Extends p'.arena y k c ↔ Extends p.arena y k c := by
  have hyq : q.arena.get? y = some t := by rw [harena, hy]
  rw [hgrows.extends_iff hyq fun hmem => hk ((mem_pairs_iff y k).mp hmem), harena]

include hs

/-- The matches that the fact extends are those that it joins, and the extensions are new. -/
theorem joined_of_extends (hnet : net.WellFormed) (he : e ∈ net.allJoins)
    (hnot : p.holds e.node h = false) {y c : TupleId} {t : Tuple} (hy : p.arena.get? y = some t)
    (hsink : t.sink = e.node) (hc : Extends p'.arena y h c) : y ∈ xs ∧ q.arena.get? c = none := by
  rcases hgrows.extends_cases (by rw [harena, hy]) hc with hold | ⟨hnone, hmem⟩
  · rw [harena] at hold
    exact absurd hold (not_extends_of_not_holds hnet hs he hnot hy hsink c)
  · exact ⟨((mem_pairs_iff y h).mp hmem).1, hnone⟩

include hxs

/-- **A fact is in at a join when the matches that it joins there have grown by it.** -/
theorem entersAt_of_grows (hnet : net.WellFormed) (he : e ∈ net.allJoins)
    (hnot : p.holds e.node h = false) (hchange : Change net facts p q)
    (hadapters : q.adapters = p.adapters)
    (hholds : ∀ n k, q.holds n k = true ↔ p.holds n k = true ∨ (n = e.node ∧ k = h)) :
    EntersAt net facts e.node h p p' := by
  -- What the matches have grown by are extensions by the fact, one of each match that it joins.
  have hmade := fun {y c t} hy hsink hc => joined_of_extends hs harena hgrows hnet he hnot
    (y := y) (c := c) (t := t) hy hsink hc
  refine ⟨.head hchange hgrows.changes, fun n k => ?_, fun y t hy => hgrows.kept y t (harena ▸ hy),
    fun y t hold hy => hgrows.settled y t (by rw [harena, hold]) hy, fun y t _ hroot => ?_,
    fun y t hy k hk c => ?_, fun y t hy hsink c c' hc hc' => ?_, fun e' he' hn y t hy hsink => ?_⟩
  · rw [hgrows.same.holds]
    exact hholds n k
  · unfold Rooted
    rw [hgrows.same.adapters, hadapters]
    exact hroot
  · exact extends_iff_of_not_joined harena hgrows hy
      (fun hyk => hk ⟨((mem_joined_iff hs hxs hy).mp hyk.1).1, hyk.2⟩) c
  · obtain ⟨hyx, hcq⟩ := hmade hy hsink hc
    obtain ⟨-, hcq'⟩ := hmade hy hsink hc'
    obtain ⟨d, -, -, huniq⟩ := hgrows.made y h ((mem_pairs_iff y h).mpr ⟨hyx, rfl⟩)
    rw [huniq c hcq hc, huniq c' hcq' hc']
  · have hee := hnet.join_inj he he' hn
    subst hee
    constructor
    · intro hjoins
      have hyx := (mem_joined_iff hs hxs hy).mpr ⟨hsink, hjoins⟩
      obtain ⟨c, -, hc, -⟩ := hgrows.made y h ((mem_pairs_iff y h).mpr ⟨hyx, rfl⟩)
      exact ⟨c, hc⟩
    · rintro ⟨c, hc⟩
      exact ((mem_joined_iff hs hxs hy).mp (hmade hy hsink hc).1).2

end Joined

/-- **A fact enters on the right of a join.** -/
theorem rightInsert_spec (ctx : PropagationContext) (hnet : net.WellFormed)
    (hctx : ctx.facts = facts) {before later : List Entry} {e : Entry}
    (hcut : net.Cut ctx.rule before (e :: later)) (he : e ∈ net.allJoins)
    (hs : Sound net facts p.toMatchState) {h : Handle} (hread : Readable facts e h)
    (hnot : p.holds e.node h = false) : ∃ p', rightInsert ctx e later h p = (p', none) ∧
    Enters net facts [e.node] h p p' := by
  obtain ⟨m, l, right, hm, -, hchange, heq⟩ := rightInsert_eq ctx hnet hctx hcut he hs hread hnot
  have hholds := holds_putRight hnet hs.coherent he hm h l right
  have hvalid := hs.coherent.arena.valid
  obtain ⟨xs, hxs⟩ : ∃ xs, xs =
    (p.arena.storedAt e.node).filter fun x => e.joins facts (p.arena.handles x) h := ⟨_, rfl⟩
  have hmem : ∀ x, x ∈ xs ↔ x ∈ p.arena.storedAt e.node ∧
      e.joins facts (p.arena.handles x) h = true := by
    intro x
    rw [hxs, List.mem_filter]
  have hnodup : (xs.map fun x => (x, h)).Nodup := by
    refine List.Nodup.map (fun _ _ heq => (Prod.mk.inj heq).1) ?_
    rw [hxs]
    exact (Arena.nodup_storedAt hvalid _).filter _
  obtain ⟨p', hrun, hgrows⟩ := each_extend_spec hnet (fun x => (x, h))
    (leftInsert_spec hnet hctx hcut.next) hcut (hchange.coherent hnet hs.coherent) hnodup
    (fun x hx => by
      obtain ⟨t, _, ht, hsink, _⟩ := (Arena.mem_storedAt hvalid).mp ((hmem x).mp hx).1
      exact ⟨t, ht, hsink⟩)
    fun x _ => (hholds _ _).mpr (Or.inr ⟨rfl, rfl⟩)
  rw [← hxs] at heq
  have harena : (putRight e.node h m l right p).arena = p.arena := rfl
  exact ⟨p', heq.trans hrun,
    (entersAt_of_grows hs harena hmem hgrows hnet he hnot hchange rfl hholds).enters hnet hs⟩

/-! ## At entries -/

section AssertAt

variable {π : Type} [MatchStore π]

theorem assertAt_of_absent {h : Handle} (hf : facts.get? h = none) (place : Place)
    (p : π) : assertAt facts place h p = (p, some (.consistency (.unknownHandle h))) := by
  have hfact :
      fact ⟨facts, h, place.rule⟩ h = .error (.consistency (.unknownHandle h)) := by rw [fact, hf]
  rw [assertAt]
  simp only [hfact]

theorem assertAt_of_unreadable (place : Place) {h : Handle} {f : Fact} {failure : NodeFailure}
    (hf : facts.get? h = some f) (hreads : tryReads f place.entry.reads = .error failure)
    (p : π) : assertAt facts place h p = (p, some (.propagation h failure)) := by
  have hfact : fact ⟨facts, h, place.rule⟩ h = .ok f := fact_eq hf
  rw [assertAt]
  simp only [hfact, hreads]

theorem assertAt_first (place : Place) {h : Handle} (hpos : place.entry.position = 0)
    (hread : Readable facts place.entry h) (p : π) :
    assertAt facts place h p = assertRoot ⟨facts, h, place.rule⟩ place.entry place.later h p := by
  obtain ⟨f, hf, hreads⟩ := hread
  have hfact : fact ⟨facts, h, place.rule⟩ h = .ok f := fact_eq hf
  rw [assertAt]
  simp only [hfact, hreads, if_pos hpos]

theorem assertAt_join (place : Place) {h : Handle} (hpos : place.entry.position ≠ 0)
    (hread : Readable facts place.entry h) (p : π) :
    assertAt facts place h p = rightInsert ⟨facts, h, place.rule⟩ place.entry place.later h p := by
  obtain ⟨f, hf, hreads⟩ := hread
  have hfact : fact ⟨facts, h, place.rule⟩ h = .ok f := fact_eq hf
  rw [assertAt]
  simp only [hfact, hreads, if_neg hpos]

end AssertAt

/-- What a fact meets at an entry: it is not there, or the joins of the rule cannot read it, or it
goes to the adapter of the rule or to the right of a join. -/
inductive AssertBranch (net : Network) (facts : FactStore) (h : Handle) :
    NodeId → Place → Prop where
  | absent {n : NodeId} {place : Place} (hf : facts.get? h = none) :
      AssertBranch net facts h n place
  | unreadable {n : NodeId} {place : Place} {f : Fact} {failure : NodeFailure}
      (hf : facts.get? h = some f) (hreads : tryReads f place.entry.reads = .error failure) :
      AssertBranch net facts h n place
  | first {rule : CompiledRule} (hr : rule ∈ net.rules) (hpos : rule.first.position = 0)
      (hread : Readable facts rule.first h) :
      AssertBranch net facts h rule.first.node ⟨rule, rule.first, rule.joins⟩
  | join {rule : CompiledRule} {before later : List Entry} {e : Entry}
      (hcut : net.Cut rule before (e :: later)) (he : e ∈ net.allJoins) (hpos : e.position ≠ 0)
      (hread : Readable facts e h) :
      AssertBranch net facts h e.node ⟨rule, e, later⟩

theorem assertAt_branch (hnet : net.WellFormed) {n : NodeId} {place : Place}
    (hplace : net.place? n = some place) (facts : FactStore) (h : Handle) :
    AssertBranch net facts h n place := by
  obtain ⟨rule, e, later⟩ := place
  obtain ⟨rfl, before, hcut⟩ : e.node = n ∧ ∃ before, net.Cut rule before (e :: later) :=
    WellFormed.cut_of_place? hplace
  cases hf : facts.get? h with
  | none => exact .absent hf
  | some f =>
      cases hreads : tryReads f e.reads with
      | error failure => exact .unreadable hf hreads
      | ok u =>
          rcases hnet.first_or_join hcut with ⟨hpos, rfl, rfl⟩ | ⟨hpos, he⟩
          · exact .first hcut.mem hpos ⟨f, hf, hreads⟩
          · exact .join hcut he hpos ⟨f, hf, hreads⟩

/-- **A fact enters at an entry, unless the joins of the rule cannot read it; then
nothing changes.** -/
theorem assertAt_spec (hnet : net.WellFormed) (hs : Sound net facts p.toMatchState) {n : NodeId}
    {place : Place} (hplace : net.place? n = some place) {h : Handle} {f : Fact}
    (hf : facts.get? h = some f) (hnot : p.holds n h = false) :
    match net.checkEntry n f with
    | .error failure => assertAt facts place h p = (p, some (.propagation h failure))
    | .ok () => ∃ p', assertAt facts place h p = (p', none) ∧ Enters net facts [n] h p p' := by
  obtain ⟨hn, before, hcut⟩ := WellFormed.cut_of_place? hplace
  have hcheck : net.checkEntry n f = tryReads f place.entry.reads := by
    rw [checkEntry, ← hn, hnet.entry?_eq (mem_allEntries_iff.mpr ⟨_, _, _, hcut⟩)]
  rw [hcheck]
  cases assertAt_branch hnet hplace facts h with
  | absent hnone => cases hnone.symm.trans hf
  | unreadable hf' hreads =>
      cases hf'.symm.trans hf
      rw [hreads]
      exact assertAt_of_unreadable place hf hreads p
  | @first rule hr hpos hread =>
      rw [hread.tryReads_eq hf, assertAt_first _ hpos hread]
      exact assertRoot_spec ⟨facts, h, rule⟩ hnet rfl hr hs hread hnot
  | @join rule _ _ _ hcut he hpos hread =>
      rw [hread.tryReads_eq hf, assertAt_join _ hpos hread]
      exact rightInsert_spec ⟨facts, h, rule⟩ hnet rfl hcut he hs hread hnot

end Propagation

end RuleMatching
