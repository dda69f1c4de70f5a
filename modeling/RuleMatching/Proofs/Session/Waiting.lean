import RuleMatching.Proofs.Session.Insertion

set_option autoImplicit false

/-! # Which matches wait where

A state is described up to the numbers of its tuples by the lists of facts whose matches wait or end
at each place (`Waits`). What becomes of these lists when a fact enters some entries does not depend
on the order of the entries (`Adds`), nor does what becomes of them when a fact leaves some entries
(`Drops`): both are stated along the chain, each place by the place before it. -/

namespace RuleMatching

open Network

/-- A match of the facts waits or ends at the place. -/
def Waits (s : MatchState) (n : NodeId) (l : List Handle) : Prop :=
  ∃ x t, s.arena.get? x = some t ∧ t.sink = n ∧ s.arena.handles x = l

variable {net : Network} {facts : FactStore} {s s' s'' : MatchState}

/-! ## One place and the next -/

section Places

variable (hnet : net.WellFormed) (hs : Coherent net facts s)

include hnet hs

/-- After the first entry wait matches of one fact. -/
theorem waits_first_iff {r : CompiledRule} (hr : r ∈ net.rules) {l : List Handle} :
    Waits s (r.sinkAfter r.joins) l ↔ ∃ x t, s.arena.get? x = some t ∧ t.parent = none ∧
      t.sink = r.sinkAfter r.joins ∧ l = [t.handle] := by
  constructor
  · rintro ⟨x, t, hx, hsink, rfl⟩
    have hl := hs.lineage_of_next hnet hx (Cut.first hr) hsink
    have hp := (hl.root rfl).1
    exact ⟨x, t, hx, hp, hsink, Arena.handles_root hs.arena hx hp⟩
  · rintro ⟨x, t, hx, hp, hsink, rfl⟩
    exact ⟨x, t, hx, hsink, Arena.handles_root hs.arena hx hp⟩

/-- After a later entry wait extensions of the matches that wait there. -/
theorem waits_next_iff {r : CompiledRule} {before later : List Entry} {e : Entry}
    (hcut : net.Cut r before (e :: later)) (hb : before ≠ []) {l : List Handle} {k : Handle} :
    Waits s (r.sinkAfter later) (l ++ [k]) ↔ ∃ y u, s.arena.get? y = some u ∧ u.sink = e.node ∧
      s.arena.handles y = l ∧ ∃ c, Extends s.arena y k c := by
  constructor
  · rintro ⟨c, t, hc, hsink, hl⟩
    have hline := hs.lineage_of_next hnet hc hcut hsink
    obtain ⟨-, y, u, hp, hy, husink⟩ := hline.child hb
    rw [Arena.handles_child hs.arena hc hp] at hl
    obtain ⟨hl, hk⟩ := List.append_inj' hl rfl
    exact ⟨y, u, hy, husink, hl, c, t, hc, hp, List.singleton_inj.mp hk⟩
  · rintro ⟨y, u, hy, husink, rfl, c, t, hc, hp, rfl⟩
    exact ⟨c, t, hc, hs.sink_of_parent hnet hc hp hy hcut husink,
      Arena.handles_child hs.arena hc hp⟩

/-- A match of one more fact is nonempty, and without this fact it waits before. -/
theorem waits_of_waits_next {r : CompiledRule} {before later : List Entry} {e : Entry}
    (hcut : net.Cut r before (e :: later)) (hb : before ≠ []) {l : List Handle}
    (h : Waits s (r.sinkAfter later) l) : ∃ l' k, l = l' ++ [k] ∧ Waits s e.node l' := by
  obtain ⟨c, t, hc, hsink, rfl⟩ := h
  have hline := hs.lineage_of_next hnet hc hcut hsink
  obtain ⟨-, y, u, hp, hy, husink⟩ := hline.child hb
  exact ⟨_, t.handle, Arena.handles_child hs.arena hc hp, y, u, hy, husink, rfl⟩

/-- **No match waits twice at a place.** -/
theorem handles_inj (hkept : ∀ x t, s.arena.get? x = some t → Kept net s x t) {r : CompiledRule}
    {before later : List Entry} (hcut : net.Cut r before later) {x y : TupleId} {t u : Tuple}
    (hx : s.arena.get? x = some t) (hy : s.arena.get? y = some u)
    (hxsink : t.sink = r.sinkAfter later) (hysink : u.sink = r.sinkAfter later)
    (heq : s.arena.handles x = s.arena.handles y) : x = y := by
  have ha := hs.arena
  -- The parents are the same by induction, and no fact extends a match twice.
  refine hs.match_induction hnet
    (C := fun x _ r _ later => ∀ y u, s.arena.get? y = some u → u.sink = r.sinkAfter later →
      s.arena.handles x = s.arena.handles y → x = y)
    (fun x t r hx hl y u hy hysink heq => ?_)
    (fun x t q v r before e later hx hl hb hq hv hvsink ih y u hy hysink heq => ?_)
    hx hcut hxsink y u hy hysink heq
  · have hl' := hs.lineage_of_next hnet hy hl.cut hysink
    have hroot := (hl.root rfl).1
    have hroot' := (hl'.root rfl).1
    rw [Arena.handles_root ha hx hroot, Arena.handles_root ha hy hroot', List.singleton_inj] at heq
    obtain ⟨m, hm, -⟩ := hs.adapters.at_site r hl.cut.mem
    -- Matches of one pattern are told apart by the adapter, which knows one for each fact.
    have hxroot := (hkept x t hx).rooted hroot r hl.cut.mem hl.sink m hm
    have hyroot := (hkept y u hy).rooted hroot' r hl.cut.mem hysink m hm
    rw [heq, hyroot, Option.some.injEq] at hxroot
    exact hxroot.symm
  · have hl' := hs.lineage_of_next hnet hy hl.cut hysink
    obtain ⟨-, q', v', hq', hv', hvsink'⟩ := hl'.child hb
    rw [Arena.handles_child ha hx hq, Arena.handles_child ha hy hq'] at heq
    obtain ⟨hparents, hlast⟩ := List.append_inj' heq rfl
    rw [List.singleton_inj] at hlast
    have hqq : q = q' := ih q' v' hv' hvsink' hparents
    subst hqq
    exact (hkept q v hv).unique t.handle x y ⟨t, hx, hq, rfl⟩ ⟨u, hy, hq', hlast.symm⟩

end Places

/-! ## What becomes of the matches -/

/-- What a fact that enters some entries adds behind the first entry of a rule: the extensions of
new matches by all facts that join them, and those of old matches by the fact where it enters. -/
structure Adds (net : Network) (facts : FactStore) (ns : List NodeId) (h : Handle)
    (s s' : MatchState) : Prop where
  kept : ∀ y t, s.arena.get? y = some t → s'.arena.get? y = some t
  waits : ∀ n l, Waits s n l → Waits s' n l
  next : ∀ r before e later, net.Cut r before (e :: later) → before ≠ [] → ∀ l k,
    (Waits s' (r.sinkAfter later) (l ++ [k]) ↔ Waits s (r.sinkAfter later) (l ++ [k]) ∨
      (Waits s' e.node l ∧ s'.holds e.node k = true ∧ e.joins facts l k = true ∧
        (¬ Waits s e.node l ∨ (e.node ∈ ns ∧ k = h))))

/-- What a fact that leaves some entries takes away behind the first entry of a rule: the matches
with the fact at one of the entries, and the extensions of matches that are taken away. -/
structure Drops (net : Network) (ns : List NodeId) (h : Handle) (s s' : MatchState) : Prop where
  kept : ∀ y t, s'.arena.get? y = some t → s.arena.get? y = some t
  waits : ∀ n l, Waits s' n l → Waits s n l
  next : ∀ r before e later, net.Cut r before (e :: later) → before ≠ [] → ∀ l k,
    (Waits s' (r.sinkAfter later) (l ++ [k]) ↔ Waits s (r.sinkAfter later) (l ++ [k]) ∧
      Waits s' e.node l ∧ ¬(e.node ∈ ns ∧ k = h))

/-- **What is added at several entries does not depend on their order.** -/
theorem Adds.trans {ns ns' : List NodeId} {h : Handle} (ha : Adds net facts ns h s s')
    (ha' : Adds net facts ns' h s' s'')
    (hholds : ∀ n k, s''.holds n k = true ↔ s'.holds n k = true ∨ (n ∈ ns' ∧ k = h)) :
    Adds net facts (ns ++ ns') h s s'' := by
  refine ⟨fun y t hy => ha'.kept y t (ha.kept y t hy),
    fun n l hw => ha'.waits n l (ha.waits n l hw), fun r before e later hcut hb l k => ?_⟩
  rw [ha'.next r before e later hcut hb l k, ha.next r before e later hcut hb l k, List.mem_append]
  have hmono := ha.waits e.node l
  have hmono' := ha'.waits e.node l
  have hh' := hholds e.node k
  -- An extension that is new in the end was new at the first entries, or at the later ones.
  constructor
  · rintro ((hold | ⟨hw, hk, hj, hnew⟩) | ⟨hw, hk, hj, hnew⟩)
    · exact Or.inl hold
    · exact Or.inr ⟨hmono' hw, hh'.mpr (Or.inl hk), hj, hnew.imp id fun hn => ⟨Or.inl hn.1, hn.2⟩⟩
    · exact Or.inr ⟨hw, hk, hj, hnew.imp (fun hnot hold => hnot (hmono hold)) fun hn =>
        ⟨Or.inr hn.1, hn.2⟩⟩
  · rintro (hold | ⟨hw, hk, hj, hnew⟩)
    · exact Or.inl (Or.inl hold)
    by_cases hmid : Waits s' e.node l
    · -- The match was there in the middle: the extension came with the fact or with the match.
      rcases hh'.mp hk with hk' | hlate
      · rcases hnew with hnot | ⟨hn | hn, hkh⟩
        · exact Or.inl (Or.inr ⟨hmid, hk', hj, Or.inl hnot⟩)
        · exact Or.inl (Or.inr ⟨hmid, hk', hj, Or.inr ⟨hn, hkh⟩⟩)
        · exact Or.inr ⟨hw, hk, hj, Or.inr ⟨hn, hkh⟩⟩
      · exact Or.inr ⟨hw, hk, hj, Or.inr hlate⟩
    · exact Or.inr ⟨hw, hk, hj, Or.inl hmid⟩

/-- **What is taken away at several entries does not depend on their order.** -/
theorem Drops.trans {ns ns' : List NodeId} {h : Handle} (hd : Drops net ns h s s')
    (hd' : Drops net ns' h s' s'') : Drops net (ns ++ ns') h s s'' := by
  refine ⟨fun y t hy => hd.kept y t (hd'.kept y t hy),
    fun n l hw => hd.waits n l (hd'.waits n l hw), fun r before e later hcut hb l k => ?_⟩
  have hmono := hd'.waits e.node l
  rw [hd'.next r before e later hcut hb l k, hd.next r before e later hcut hb l k, List.mem_append,
    or_and_right, not_or]
  exact ⟨fun ⟨⟨hold, _, hn⟩, hw, hn'⟩ => ⟨hold, hw, hn, hn'⟩,
    fun ⟨hold, hw, hn, hn'⟩ => ⟨⟨hold, hmono hw, hn⟩, hw, hn'⟩⟩

/-- Without entries nothing is added. -/
theorem Adds.refl (net : Network) (facts : FactStore) (h : Handle) (s : MatchState) :
    Adds net facts [] h s s := by
  refine ⟨fun _ _ hy => hy, fun _ _ hw => hw, fun r before e later hcut hb l k => ⟨Or.inl, ?_⟩⟩
  rintro (hold | ⟨hw, -, -, hnot | hn⟩)
  · exact hold
  · exact absurd hw hnot
  · exact absurd hn.1 List.not_mem_nil

theorem Drops.refl (hnet : net.WellFormed) (hs : Coherent net facts s) (h : Handle) :
    Drops net [] h s s := by
  refine ⟨fun _ _ hy => hy, fun _ _ hw => hw,
    fun r before e later hcut hb l k => ⟨fun hw => ?_, fun hw => hw.1⟩⟩
  obtain ⟨l', k', heq, hw'⟩ := waits_of_waits_next hnet hs hcut hb hw
  obtain ⟨rfl, -⟩ := List.append_inj' heq rfl
  exact ⟨hw, hw', by simp⟩

end RuleMatching
