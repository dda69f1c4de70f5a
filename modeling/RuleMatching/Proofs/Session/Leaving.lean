import RuleMatching.Proofs.Session.Deleting

set_option autoImplicit false

/-! # A fact that leaves

A fact that leaves at one entry takes the matches with it that end there, with all their extensions
(`Leaves`). **It keeps a sound state sound and an exact state exact**
(`Propagation.retractAt_spec`). -/

namespace RuleMatching

open Network

variable {net : Network} {facts : FactStore} {p p' p'' : Propagation}

/-! ## A fact that leaves a node -/

/-- The last fact of the match entered at the node. -/
def EndsAt (net : Network) (n : NodeId) (h : Handle) (t : Tuple) : Prop :=
  ∃ r before e later, net.Cut r before (e :: later) ∧ t.sink = r.sinkAfter later ∧ e.node = n ∧
    t.handle = h

/-- A fact has left some nodes. -/
structure Leaves (net : Network) (facts : FactStore) (ns : List NodeId) (h : Handle)
    (p p' : Propagation) : Prop where
  changes : Changes net facts p p'
  sound : Sound net facts p'.toMatchState
  exact : Exact net facts p.toMatchState → Exact net facts p'.toMatchState
  holds : ∀ n k, p'.holds n k = true ↔ p.holds n k = true ∧ ¬(n ∈ ns ∧ k = h)
  drops : Drops net ns h p.toMatchState p'.toMatchState

namespace Leaves

theorem refl (hnet : net.WellFormed) (hs : Sound net facts p.toMatchState) (h : Handle) :
    Leaves net facts [] h p p :=
  ⟨.refl, hs, id, by simp, .refl hnet hs.coherent h⟩

theorem trans {ns ns' : List NodeId} {h : Handle} (hl : Leaves net facts ns h p p')
    (hl' : Leaves net facts ns' h p' p'') : Leaves net facts (ns ++ ns') h p p'' := by
  refine ⟨hl.changes.trans hl'.changes, hl'.sound, fun hs => hl'.exact (hl.exact hs), fun n k => ?_,
    hl.drops.trans hl'.drops⟩
  rw [hl'.holds, hl.holds, List.mem_append, or_and_right, not_or, and_assoc]

end Leaves

/-- The fact is forgotten at the node, its matches are still there. -/
structure Dropped (net : Network) (n : NodeId) (h : Handle) (p q : Propagation) : Prop where
  arena : q.arena = p.arena
  holds : ∀ n' k, q.holds n' k = true ↔ p.holds n' k = true ∧ ¬(n' = n ∧ k = h)
  roots : ∀ n' m', q.adapters.get? n' = some m' → ∃ m, p.adapters.get? n' = some m ∧
    ∀ k, ¬(n' = n ∧ k = h) → m'.roots.get? k = m.roots.get? k

/-- An extension at a join ends there. -/
theorem Coherent.endsAt_of_parent {s : MatchState} (hnet : net.WellFormed)
    (hs : Coherent net facts s) {x c : TupleId} {t u : Tuple} (hx : s.arena.get? x = some t)
    (hc : s.arena.get? c = some u) (hp : u.parent = some x) {n : NodeId} {h : Handle}
    (hends : EndsAt net n h u) : t.sink = n := by
  obtain ⟨r, before, e, later, hcut, hsink, rfl, -⟩ := hends
  have hl := hs.lineage_of_next hnet hc hcut hsink
  by_cases hb : before = []
  · rw [(hl.root hb).1] at hp
    cases hp
  · have ho := hs.origin_eq_sink hc hp hx
    rw [(hl.child hb).1, Option.some.injEq] at ho
    exact ho.symm

section Left

variable (hnet : net.WellFormed) (hs : Sound net facts p.toMatchState) {n : NodeId} {h : Handle}
  (hdrop : Dropped net n h p p') {doomed : List TupleId}
  (hremoves : Removes net facts doomed p' p'')
  (hdoomed : ∀ x t, p.arena.get? x = some t → (x ∈ doomed ↔ EndsAt net n h t))

include hs hdrop hremoves hdoomed

/-- A match that is left does not end with the fact that is forgotten, so it is kept. -/
theorem kept_of_removes {y : TupleId} {t : Tuple} (hy : p''.arena.get? y = some t) :
    Kept net p''.toMatchState y t := by
  have hsub : ∀ y t, p''.arena.get? y = some t → p.arena.get? y = some t := fun y t hy =>
    hdrop.arena ▸ hremoves.sub y t hy
  have hend : ¬ EndsAt net n h t := by
    intro hend
    rw [hremoves.gone y ((hdoomed y t (hsub y t hy)).mpr hend)] at hy
    cases hy
  have hk := hs.kept y t (hsub y t hy)
  refine ⟨hk.stored, fun r before e later hcut hsink => ?_, fun hp r hr hsink m' hm' => ?_,
    fun k c c' hc hc' => ?_⟩
  · rw [hremoves.same.holds, hdrop.holds]
    exact ⟨hk.backed r before e later hcut hsink, fun heq =>
      hend ⟨r, before, e, later, hcut, hsink, heq.1, heq.2⟩⟩
  · rw [hremoves.same.adapters] at hm'
    obtain ⟨m, hm, hroots⟩ := hdrop.roots _ m' hm'
    rw [hroots t.handle fun heq => hend ⟨r, [], r.first, r.joins, .first hr, hsink, heq.1, heq.2⟩]
    exact hk.rooted hp r hr hsink m hm
  · obtain ⟨u, hu, hext⟩ := hc
    obtain ⟨u', hu', hext'⟩ := hc'
    exact hk.unique k c c' ⟨u, hsub c u hu, hext⟩ ⟨u', hsub c' u' hu', hext'⟩

include hnet

/-- A match that is left has the extensions that it had by other facts. -/
theorem extends_iff_of_removes {y : TupleId} {t : Tuple} (hy : p''.arena.get? y = some t)
    {k : Handle} (hk : ¬ (t.sink = n ∧ k = h)) (c : TupleId) :
    Extends p''.arena y k c ↔ Extends p.arena y k c := by
  have hsub : ∀ y t, p''.arena.get? y = some t → p.arena.get? y = some t := fun y t hy =>
    hdrop.arena ▸ hremoves.sub y t hy
  constructor
  · rintro ⟨u, hu, hext⟩
    exact ⟨u, hsub c u hu, hext⟩
  · rintro ⟨u, hu, hp, hh⟩
    -- The extension is still there, since its parent is and its last fact did not leave.
    cases hc : p''.arena.get? c with
    | some v =>
        have hv := hsub c v hc
        rw [hu, Option.some.injEq] at hv
        exact ⟨v, hc, hv ▸ hp, hv ▸ hh⟩
    | none =>
        rcases hremoves.cause c u (hdrop.arena ▸ hu) hc with hmem | ⟨z, hz, hdead⟩
        · have hend := (hdoomed c u hu).mp hmem
          have hn := hs.coherent.endsAt_of_parent hnet (hsub y t hy) hu hp hend
          obtain ⟨-, -, -, -, -, -, -, huh⟩ := hend
          exact absurd ⟨hn, hh.symm.trans huh⟩ hk
        · rw [hp, Option.some.injEq] at hz
          rw [← hz, hy] at hdead
          cases hdead

/-- What is taken away when the matches that end with the fact are removed. -/
theorem drops_of_removes (hchange : Change net facts p p') :
    Drops net [n] h p.toMatchState p''.toMatchState := by
  have hs₁ := hchange.coherent hnet hs.coherent
  have hs₂ := hremoves.changes.coherent hnet hs₁
  have hsub : ∀ y t, p''.arena.get? y = some t → p.arena.get? y = some t := fun y t hy =>
    hdrop.arena ▸ hremoves.sub y t hy
  have hhandles : ∀ {y t}, p''.arena.get? y = some t → p''.arena.handles y = p.arena.handles y := by
    intro y t hy
    rw [hremoves.handles_eq hs₁.arena hs₂.arena hy, hdrop.arena]
  have hwaits : ∀ m l, Waits p''.toMatchState m l → Waits p.toMatchState m l := by
    rintro m l ⟨x, t, hx, hsink, rfl⟩
    exact ⟨x, t, hsub x t hx, hsink, (hhandles hx).symm⟩
  refine ⟨hsub, hwaits, fun r before e later hcut hb l k => ⟨fun hw => ⟨hwaits _ _ hw, ?_, ?_⟩, ?_⟩⟩
  · obtain ⟨l', k', heq, hw'⟩ := waits_of_waits_next hnet hs₂ hcut hb hw
    rw [(List.append_inj' heq rfl).1]
    exact hw'
  · rintro ⟨hn, rfl⟩
    obtain ⟨y, u, hy, husink, -, c, v, hc, hp, rfl⟩ := (waits_next_iff hnet hs₂ hcut hb).mp hw
    have hend : EndsAt net n v.handle v :=
      ⟨r, before, e, later, hcut, hs₂.sink_of_parent hnet hc hp hy hcut husink,
        List.mem_singleton.mp hn, rfl⟩
    rw [hremoves.gone c ((hdoomed c v (hsub c v hc)).mpr hend)] at hc
    cases hc
  · rintro ⟨hold, ⟨y, u, hy, husink, rfl⟩, hn⟩
    rw [hhandles hy] at hold
    -- The match before it is the only one of its facts, so the extension is one of the match
    -- that is left.
    obtain ⟨z, w, hz, hwsink, heq, c, hc⟩ := (waits_next_iff hnet hs.coherent hcut hb).mp hold
    have hzy := handles_inj hnet hs.coherent hs.kept hcut hz (hsub y u hy) hwsink husink heq
    subst hzy
    refine (waits_next_iff hnet hs₂ hcut hb).mpr ⟨z, u, hy, husink, rfl, c, ?_⟩
    exact (extends_iff_of_removes hnet hs hdrop hremoves hdoomed hy
      (fun heq => hn ⟨List.mem_singleton.mpr (husink.symm.trans heq.1), heq.2⟩) c).mpr hc

/-- A fact that is forgotten at a node has left it as soon as the matches that end with it there are
removed. -/
theorem leaves_of_removes (hchange : Change net facts p p') : Leaves net facts [n] h p p'' := by
  have hs₁ := hchange.coherent hnet hs.coherent
  have hs₂ := hremoves.changes.coherent hnet hs₁
  have hholds : ∀ n' k, p''.holds n' k = true ↔ p.holds n' k = true ∧ ¬(n' = n ∧ k = h) := by
    intro n' k
    rw [hremoves.same.holds, hdrop.holds]
  have hkept := fun y t => kept_of_removes hs hdrop hremoves hdoomed (y := y) (t := t)
  refine ⟨.head hchange hremoves.changes, ⟨hs₂, hkept⟩,
    fun hexact => ⟨hs₂, fun y t hy => ⟨hkept y t hy, fun e he hsink k hk => ?_⟩⟩,
    by simpa using hholds,
    drops_of_removes hnet hs hdrop hremoves hdoomed hchange⟩
  have hhandles : p''.arena.handles y = p.arena.handles y := by
    rw [hremoves.handles_eq hs₁.arena hs₂.arena hy, hdrop.arena]
  obtain ⟨hk₀, hk₁⟩ := (hholds _ _).mp hk
  rw [hhandles, (hexact.settled y t (hdrop.arena ▸ hremoves.sub y t hy)).joined e he hsink k hk₀]
  rw [← hsink] at hk₁
  exact exists_congr fun c =>
    (extends_iff_of_removes hnet hs hdrop hremoves hdoomed hy hk₁ c).symm

end Left

namespace Propagation

/-! ## At an adapter -/

theorem dropped_dropRoot (hnet : net.WellFormed) (hs : Coherent net facts p.toMatchState)
    {r : CompiledRule} (hr : r ∈ net.rules) {m : AdapterMemory}
    (hm : p.adapters.get? r.first.node = some m) (h : Handle) :
    Dropped net r.first.node h p (dropRoot r.first.node h m p) := by
  have hadapters : ∀ n, (dropRoot r.first.node h m p).adapters.get? n = if n = r.first.node then
      some { m with roots := m.roots.erase h, counters := m.counters.removeLeft }
      else p.adapters.get? n := fun n => FiniteMap.get?_insert _ _ _ _
  have hjoins : (dropRoot r.first.node h m p).joins = p.joins := rfl
  refine ⟨rfl, fun n k => ?_, fun n m' hm' => ?_⟩
  · rw [holds_iff, holds_iff, hadapters, hjoins]
    by_cases hn : n = r.first.node
    · subst hn
      rw [if_pos rfl, hs.join_eq_none hnet hr, hm]
      simp only [Option.some.injEq, reduceCtorEq, false_and, exists_false, or_false, true_and]
      simp only [exists_and_left, exists_eq_left', FiniteMap.get?_erase]
      by_cases hk : k = h <;> simp [hk]
    · rw [if_neg hn]
      simp [hn]
  · rw [hadapters] at hm'
    split at hm'
    · next hn =>
      cases hm'
      refine ⟨m, hn ▸ hm, fun k hk => ?_⟩
      rw [FiniteMap.get?_erase, if_neg fun heq => hk ⟨hn, heq⟩]
    · exact ⟨m', hm', fun _ _ => rfl⟩

/-- A match of one pattern goes when its fact leaves the adapter. -/
theorem retractRoot_eq (hnet : net.WellFormed) (hs : Sound net facts p.toMatchState)
    {rule : CompiledRule} (hr : rule ∈ net.rules) {h : Handle}
    (hheld : p.holds rule.first.node h = true) :
    ∃ m x t, p.adapters.get? rule.first.node = some m ∧ m.roots.get? h = some x ∧
      p.arena.get? x = some t ∧ t.parent = none ∧ t.handle = h ∧
      t.sink = rule.sinkAfter rule.joins ∧
      Change net facts p (dropRoot rule.first.node h m p) ∧
      Unrooted (dropRoot rule.first.node h m p).toMatchState x ∧ OfRule net p.arena rule x ∧
      retractRoot rule rule.first.node h p =
        (deleteTuple rule (dropRoot rule.first.node h m p) x, none) := by
  obtain ⟨m, hm, hfits⟩ := hs.coherent.adapters.at_site rule hr
  obtain ⟨x, hx⟩ := (hs.coherent.holds_first_iff hnet hr hm h).mp hheld
  obtain ⟨t, ht, hp, hh, hsink⟩ := hfits.root h x hx
  have hchange : Change net facts p (dropRoot rule.first.node h m p) := .dropRoot hr hm hx
  have hs₁ := hchange.coherent hnet hs.coherent
  refine ⟨m, x, t, hm, hx, ht, hp, hh, hsink, hchange, ?_, fun u hu => ?_, ?_⟩
  -- An adapter that knew the match still would be that of the same rule, under the same fact.
  · intro n m' hm' k hk
    obtain ⟨r', hr', rfl⟩ := hs₁.adapters.only_sites n m' hm'
    obtain ⟨u, hu, -, huh, husink⟩ := (hs₁.adapters.fits_of_get? hr' hm').root k x hk
    rw [show (dropRoot rule.first.node h m p).arena = p.arena from rfl, ht, Option.some.injEq] at hu
    obtain ⟨rfl, -, -⟩ := hnet.sink_inj (Cut.first hr).next (Cut.first hr').next
      (hsink.symm.trans (hu ▸ husink))
    have hkh : k = h := huh.symm.trans (hu ▸ hh)
    rw [dropRoot, FiniteMap.get?_insert_self, Option.some.injEq] at hm'
    rw [← hm', hkh, FiniteMap.get?_erase_self] at hk
    cases hk
  · rw [ht, Option.some.injEq] at hu
    exact ⟨_, _, (Cut.first hr).next, hu ▸ hsink⟩
  · simp only [retractRoot, MatchStore.adapters, hm, Option.bind_some, hx, Option.map_some]
    rfl

/-- **A fact leaves an adapter.** -/
theorem retractRoot_spec (hnet : net.WellFormed) (hs : Sound net facts p.toMatchState)
    {rule : CompiledRule} (hr : rule ∈ net.rules) {h : Handle}
    (hheld : p.holds rule.first.node h = true) :
    ∃ p', retractRoot rule rule.first.node h p = (p', none) ∧
    Leaves net facts [rule.first.node] h p p' := by
  obtain ⟨m, x, t, hm, hx, ht, -, hh, hsink, hchange, hroot, hrule, heq⟩ :=
    retractRoot_eq hnet hs hr hheld
  have hdrop := dropped_dropRoot hnet hs.coherent hr hm h
  have hremoves := deleteTuple_spec hnet (hchange.coherent hnet hs.coherent) hroot hrule
  refine ⟨_, heq, leaves_of_removes hnet hs hdrop hremoves (fun y u hy => ?_) hchange⟩
  rw [List.mem_singleton]
  constructor
  · rintro rfl
    rw [ht, Option.some.injEq] at hy
    exact ⟨rule, [], rule.first, rule.joins, .first hr, hy ▸ hsink, rfl, hy ▸ hh⟩
  · rintro ⟨r', before, e, later, hcut, husink, hn, huh⟩
    obtain ⟨rfl, rfl, rfl, rfl⟩ := hnet.entry_inj hcut (Cut.first hr) hn
    have hl := hs.coherent.lineage_of_next hnet hy hcut husink
    have hy' := (hs.kept y u hy).rooted (hl.root rfl).1 _ hr husink m hm
    rw [huh, hx, Option.some.injEq] at hy'
    exact hy'.symm

/-! ## At a join -/

theorem dropped_dropRight (hnet : net.WellFormed) (hs : Coherent net facts p.toMatchState)
    {e : Entry} (he : e ∈ net.allJoins) {m : JoinMemory} (hm : p.joins.get? e.node = some m)
    (h : Handle) (right : Memory Handle) :
    Dropped net e.node h p (dropRight e.node h m right p) := by
  have hjoins : ∀ n, (dropRight e.node h m right p).joins.get? n =
      if n = e.node then
        some
          { m with
            right, rightEntries := m.rightEntries.erase h, counters := m.counters.removeRight }
      else p.joins.get? n := fun n => FiniteMap.get?_insert _ _ _ _
  have hadapters : (dropRight e.node h m right p).adapters = p.adapters := rfl
  refine ⟨rfl, fun n k => ?_, fun n m' hm' => ⟨m', hm', fun _ _ => rfl⟩⟩
  rw [holds_iff, holds_iff, hjoins, hadapters]
  by_cases hn : n = e.node
  · subst hn
    rw [if_pos rfl, hs.adapter_eq_none hnet he, hm]
    simp only [Option.some.injEq, reduceCtorEq, false_and, exists_false, false_or, true_and]
    simp only [exists_and_left, exists_eq_left', FiniteMap.get?_erase]
    by_cases hk : k = h <;> simp [hk]
  · rw [if_neg hn]
    simp [hn]

/-- The matches that a join has made with a fact are those that end with it there. -/
theorem mem_madeBy_iff_endsAt (hnet : net.WellFormed) {s : MatchState} (hs : Coherent net facts s)
    {rule : CompiledRule} {before later : List Entry} {e : Entry}
    (hcut : net.Cut rule before (e :: later)) (he : e ∈ net.allJoins) (h : Handle) {y : TupleId}
    {u : Tuple} (hy : s.arena.get? y = some u) :
    y ∈ s.arena.madeBy e.node h ↔ EndsAt net e.node h u := by
  rw [Arena.mem_madeBy hs.arena.valid]
  constructor
  · rintro ⟨v, hv, ho, hh⟩
    rw [hy, Option.some.injEq] at hv
    subst hv
    obtain ⟨r', before', e', later', hl⟩ := hs.lineage y u hy
    by_cases hb : before' = []
    · rw [(hl.root hb).2] at ho
      cases ho
    · rw [(hl.child hb).1, Option.some.injEq] at ho
      exact ⟨r', before', e', later', hl.cut, hl.sink, ho, hh⟩
  · rintro ⟨r', before', e', later', hcut', hsink, hn, hh⟩
    obtain ⟨rfl, rfl, rfl, rfl⟩ := hnet.entry_inj hcut' hcut hn
    have hl := hs.lineage_of_next hnet hy hcut hsink
    have hb : before' ≠ [] := by
      rintro rfl
      exact hnet.join_ne_first he hcut.mem (congrArg Entry.node hcut.eq_first.1).symm
    exact ⟨u, hy, (hl.child hb).1, hh⟩

/-- The matches that a join has made are matches of its rule, each with a parent. -/
theorem ofRule_of_mem_madeBy (hnet : net.WellFormed) {s : MatchState} (hs : Coherent net facts s)
    {rule : CompiledRule} {before later : List Entry} {e : Entry}
    (hcut : net.Cut rule before (e :: later)) (he : e ∈ net.allJoins) {h : Handle} {y : TupleId}
    (hy : y ∈ s.arena.madeBy e.node h) :
    (∀ u, s.arena.get? y = some u → u.parent ≠ none) ∧ OfRule net s.arena rule y := by
  refine ⟨fun u hu hp => ?_, fun u hu => ?_⟩
  · obtain ⟨v, hv, ho, -⟩ := (Arena.mem_madeBy hs.arena.valid).mp hy
    rw [hu, Option.some.injEq] at hv
    subst hv
    obtain ⟨-, -, -, -, horigin, -⟩ := hs.root_lineage hu hp
    rw [horigin] at ho
    cases ho
  · obtain ⟨r', before', e', later', hcut', hsink, hn, -⟩ :=
      (mem_madeBy_iff_endsAt hnet hs hcut he h hu).mp hy
    obtain ⟨rfl, -, -, -⟩ := hnet.entry_inj hcut' hcut hn
    exact ⟨_, _, hcut'.next, hsink⟩

/-- The matches made with a fact go when it leaves the right of the join. -/
theorem rightRemove_eq (hnet : net.WellFormed) (hs : Coherent net facts p.toMatchState)
    (rule : CompiledRule) {e : Entry} (he : e ∈ net.allJoins) {h : Handle}
    (hheld : p.holds e.node h = true) :
    ∃ m right, p.joins.get? e.node = some m ∧
      Change net facts p (dropRight e.node h m right p) ∧
      rightRemove rule e.node h p =
        ((p.arena.madeBy e.node h).foldl (deleteTuple rule) (dropRight e.node h m right p),
          none) := by
  obtain ⟨m, hm, hfits⟩ := hs.joins.at_site e he
  obtain ⟨entry, hentry⟩ := (hs.holds_join_iff hnet he hm h).mp hheld
  obtain ⟨right, hremove, -⟩ := hs.dropRight hnet he hm hentry
  refine ⟨m, right, hm, .dropRight he hm hentry hremove, ?_⟩
  simp only [rightRemove, MatchStore.takeRight?, takeRight?_eq hm hentry hremove,
    hfits.made h entry hentry]

/-- **A fact leaves the right of a join.** -/
theorem rightRemove_spec (hnet : net.WellFormed) (hs : Sound net facts p.toMatchState)
    {rule : CompiledRule} {before later : List Entry} {e : Entry}
    (hcut : net.Cut rule before (e :: later)) (he : e ∈ net.allJoins) {h : Handle}
    (hheld : p.holds e.node h = true) :
    ∃ p', rightRemove rule e.node h p = (p', none) ∧ Leaves net facts [e.node] h p p' := by
  obtain ⟨m, right, hm, hchange, heq⟩ := rightRemove_eq hnet hs.coherent rule he hheld
  have hdrop := dropped_dropRight hnet hs.coherent he hm h right
  have hmade := fun y => ofRule_of_mem_madeBy hnet hs.coherent hcut he (h := h) (y := y)
  have hremoves := foldl_deleteTuple_spec rule (p.arena.madeBy e.node h) hnet
    (hchange.coherent hnet hs.coherent) (fun y hy => (hmade y hy).1) fun y hy => (hmade y hy).2
  exact ⟨_, heq, leaves_of_removes hnet hs hdrop hremoves
    (fun y u hy => mem_madeBy_iff_endsAt hnet hs.coherent hcut he h hy) hchange⟩

/-! ## At entries -/

/-- **A fact that is in at an entry can leave it.** -/
theorem retractAt_spec (hnet : net.WellFormed) (hs : Sound net facts p.toMatchState) {n : NodeId}
    {place : Place} (hplace : net.place? n = some place) {h : Handle} (hheld : p.holds n h = true) :
    ∃ p', retractAt place h p = (p', none) ∧ Leaves net facts [n] h p p' := by
  obtain ⟨hn, before, hcut⟩ := WellFormed.cut_of_place? hplace
  rw [← hn] at hheld ⊢
  rw [retractAt]
  rcases hnet.first_or_join hcut with ⟨hpos, hfirst, -⟩ | ⟨hpos, he⟩
  · rw [if_pos hpos, ← hfirst]
    rw [← hfirst] at hheld
    exact retractRoot_spec hnet hs hcut.mem hheld
  · rw [if_neg hpos]
    exact rightRemove_spec hnet hs hcut he hheld

end Propagation

end RuleMatching
