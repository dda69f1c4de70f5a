import Mathlib.Data.List.Induction
import RuleMatching.Proofs.Network.Twins
import RuleMatching.Proofs.Session.Log
import RuleMatching.Proofs.Session.Memories

set_option autoImplicit false

/-! # States of twin networks

The state of a network mirrors that of its twin if the same facts are in and the same matches wait
at the same places (`Mirrors`). **A fact that leaves the same entries of both networks, or enters
the same entries, in whatever order, keeps the states mirrors of each other** (`Mirrors.leaves`,
`Mirrors.enters`); mirrors have the same matches of every rule and the same number of tuples. -/

namespace RuleMatching

open Network

theorem Entry.Alike.joins_eq {e e' : Entry} (h : e.Alike e') (facts : FactStore) (hs : List Handle)
    (k : Handle) : e'.joins facts hs k = e.joins facts hs k := by
  unfold Entry.joins
  rw [h.condition]

/-- The same facts are in and the same matches wait at the same places of both networks. -/
structure Mirrors (net net' : Network) (s s' : MatchState) : Prop where
  holds : ∀ {r before e later r' before' e' later'},
    net.SamePlace net' r before (e :: later) r' before' (e' :: later') →
    ∀ k, s'.holds e'.node k = true ↔ s.holds e.node k = true
  waits : ∀ {r before later r' before' later'},
    net.SamePlace net' r before later r' before' later' → before ≠ [] →
    ∀ l, Waits s' (r'.sinkAfter later') l ↔ Waits s (r.sinkAfter later) l

/-- The lists have the nodes at the same places. -/
def SameNodes (net net' : Network) (ns ns' : List NodeId) : Prop :=
  ∀ {r before e later r' before' e' later'},
    net.SamePlace net' r before (e :: later) r' before' (e' :: later') →
    (e'.node ∈ ns' ↔ e.node ∈ ns)

namespace Mirrors

variable {net net' : Network} {facts facts' : FactStore} {s s' : MatchState}

/-- **Mirrors are built place by place**: what waits at one place has to be decided by what
waits before. -/
theorem of_next (htwins : net.Twins net') (hs : Sound net facts s) (hs' : Sound net' facts' s')
    (hholds : ∀ {r before e later r' before' e' later'},
      net.SamePlace net' r before (e :: later) r' before' (e' :: later') →
      ∀ k, s'.holds e'.node k = true ↔ s.holds e.node k = true)
    (hnext : ∀ {r before e later r' before' e' later'},
      net.SamePlace net' r before (e :: later) r' before' (e' :: later') → before ≠ [] →
      (∀ l, Waits s' e'.node l ↔ Waits s e.node l) →
      ∀ l k, Waits s' (r'.sinkAfter later') (l ++ [k]) ↔ Waits s (r.sinkAfter later) (l ++ [k])) :
    Mirrors net net' s s' := by
  have hnet := htwins.wellFormed
  have hnet' := htwins.wellFormed'
  refine ⟨hholds, fun {r before later r' before' later'} hplace hb l => ?_⟩
  -- On the entries before the place.
  induction before using List.reverseRecOn generalizing later before' later' l with
  | nil => exact absurd rfl hb
  | append_singleton es e ih =>
      obtain ⟨es', e', rfl, hprev⟩ := hplace.prev
      by_cases hes : es = []
      · subst hes
        obtain rfl := List.length_eq_zero_iff.mp hprev.before.length_eq.symm
        obtain ⟨rfl, rfl⟩ := hprev.cut.eq_first
        obtain ⟨rfl, rfl⟩ := hprev.cut'.eq_first
        rw [hs.waits_first_iff hnet hprev.cut.mem, hs'.waits_first_iff hnet' hprev.cut'.mem]
        exact exists_congr fun k => and_congr_right fun _ => hholds hprev k
      · have hes' := hprev.before_ne_nil hes
        have hstep := hnext hprev hes fun l => ih hprev hes l
        constructor
        · intro hw
          obtain ⟨l, k, rfl, -⟩ := waits_of_waits_next hnet' hs'.coherent hprev.cut' hes' hw
          exact (hstep l k).mp hw
        · intro hw
          obtain ⟨l, k, rfl, -⟩ := waits_of_waits_next hnet hs.coherent hprev.cut hes hw
          exact (hstep l k).mpr hw

/-- **A fact enters the same entries.** -/
theorem enters (htwins : net.Twins net') {p p₁ q q₁ : Propagation} {ns ns' : List NodeId}
    {k : Handle} (h : Mirrors net net' p.toMatchState q.toMatchState)
    (he : Enters net facts ns k p p₁) (he' : Enters net' facts ns' k q q₁)
    (hns : SameNodes net net' ns ns') : Mirrors net net' p₁.toMatchState q₁.toMatchState := by
  have hholds : ∀ {r before e later r' before' e' later'},
      net.SamePlace net' r before (e :: later) r' before' (e' :: later') →
      ∀ j, q₁.holds e'.node j = true ↔ p₁.holds e.node j = true := by
    intro r before e later r' before' e' later' hplace j
    rw [he.holds, he'.holds, h.holds hplace, hns hplace]
  refine of_next htwins he.sound he'.sound hholds fun {_ _ e _ _ _ e' _} hplace hb hprev l j => ?_
  have hold : Waits q.toMatchState e'.node l ↔ Waits p.toMatchState e.node l := h.waits hplace hb l
  rw [he.adds.next _ _ _ _ hplace.cut hb,
    he'.adds.next _ _ _ _ hplace.cut' (hplace.before_ne_nil hb), h.waits hplace.next (by simp),
    hprev, hholds hplace, hplace.entry.joins_eq, hold, hns hplace]

/-- **A fact leaves the same entries.** -/
theorem leaves (htwins : net.Twins net') {p p₁ q q₁ : Propagation} {ns ns' : List NodeId}
    {k : Handle} (h : Mirrors net net' p.toMatchState q.toMatchState)
    (hl : Leaves net facts ns k p p₁) (hl' : Leaves net' facts' ns' k q q₁)
    (hns : SameNodes net net' ns ns') : Mirrors net net' p₁.toMatchState q₁.toMatchState := by
  refine of_next htwins hl.sound hl'.sound (fun hplace j => ?_) fun hplace hb hprev l j => ?_
  · rw [hl.holds, hl'.holds, h.holds hplace, hns hplace]
  · rw [hl.drops.next _ _ _ _ hplace.cut hb,
      hl'.drops.next _ _ _ _ hplace.cut' (hplace.before_ne_nil hb), h.waits hplace.next (by simp),
      hprev, hns hplace]

end Mirrors

/-! ## What mirrors have in common -/

section Common

variable {net net' : Network} {facts facts' : FactStore} {s s' : MatchState}

/-- In a sound state the tuples at a place have the matches that wait there, each once. -/
theorem Sound.handles_storedAt (hnet : net.WellFormed) (hs : Sound net facts s) {r : CompiledRule}
    {before later : List Entry} (hcut : net.Cut r before later) :
    ((s.arena.storedAt (r.sinkAfter later)).map s.arena.handles).Nodup ∧
      ∀ l, l ∈ (s.arena.storedAt (r.sinkAfter later)).map s.arena.handles ↔
        Waits s (r.sinkAfter later) l := by
  have hvalid := hs.coherent.arena.valid
  constructor
  · refine (List.nodup_map_iff_inj_on (Arena.nodup_storedAt hvalid _)).mpr fun x hx y hy heq => ?_
    obtain ⟨t, _, ht, hsink, _⟩ := (Arena.mem_storedAt hvalid).mp hx
    obtain ⟨u, _, hu, husink, _⟩ := (Arena.mem_storedAt hvalid).mp hy
    exact handles_inj hnet hs.coherent hs.kept hcut ht hu hsink husink heq
  · intro l
    rw [List.mem_map]
    constructor
    · rintro ⟨x, hx, rfl⟩
      obtain ⟨t, _, ht, hsink, _⟩ := (Arena.mem_storedAt hvalid).mp hx
      exact ⟨x, t, ht, hsink, rfl⟩
    · rintro ⟨x, t, ht, hsink, rfl⟩
      exact ⟨x, (Arena.mem_storedAt_of_get? hvalid ht).mpr ⟨hsink, (hs.kept x t ht).stored⟩, rfl⟩

variable (htwins : net.Twins net') (hs : Sound net facts s) (hs' : Sound net' facts' s')
  (h : Mirrors net net' s s')

include htwins hs hs' h

/-- The tuples at the same place have the same matches. -/
theorem Mirrors.perm_handles {r r' : CompiledRule} {before later before' later' : List Entry}
    (hplace : net.SamePlace net' r before later r' before' later') (hb : before ≠ []) :
    ((s'.arena.storedAt (r'.sinkAfter later')).map s'.arena.handles).Perm
      ((s.arena.storedAt (r.sinkAfter later)).map s.arena.handles) := by
  obtain ⟨hn, hmem⟩ := hs.handles_storedAt htwins.wellFormed hplace.cut
  obtain ⟨hn', hmem'⟩ := hs'.handles_storedAt htwins.wellFormed' hplace.cut'
  refine (List.perm_ext_iff_of_nodup hn' hn).mpr fun l => ?_
  rw [hmem, hmem', h.waits hplace hb]

/-- Along twin chains as many tuples are at each place. -/
theorem Mirrors.lengths_eq {r r' : CompiledRule} {before later before' later' : List Entry}
    (hplace : net.SamePlace net' r before later r' before' later') (hb : before ≠ []) :
    (later'.map Entry.node ++ [r'.terminal]).map (fun n => (s'.arena.storedAt n).length) =
      (later.map Entry.node ++ [r.terminal]).map fun n => (s.arena.storedAt n).length := by
  have hlen : ∀ {before later before' later'}, net.SamePlace net' r before later r' before' later' →
      before ≠ [] → (s'.arena.storedAt (r'.sinkAfter later')).length =
        (s.arena.storedAt (r.sinkAfter later)).length := fun hplace hb => by
    simpa using (h.perm_handles htwins hs hs' hplace hb).length_eq
  induction later generalizing before before' later' with
  | nil =>
      cases hplace.later
      exact congrArg (fun n : Nat => [n]) (hlen hplace hb)
  | cons e later ih =>
      cases later' with
      | nil => cases hplace.later
      | cons e' later' => exact congrArg₂ List.cons (hlen hplace hb) (ih hplace.next (by simp))

/-- **Mirrors have the same number of tuples.** -/
theorem Mirrors.size_eq : s'.arena.size = s.arena.size := by
  rw [hs.size_eq htwins.wellFormed, hs'.size_eq htwins.wellFormed', places, places,
    List.map_flatMap, List.map_flatMap, List.flatMap_def, List.flatMap_def]
  refine congrArg (fun l : List (List Nat) => l.flatten.sum)
    (List.ext_getElem ?_ fun k hk' hk => ?_)
  · simpa using htwins.rules.length_eq.symm
  · rw [List.length_map] at hk hk'
    rw [List.getElem_map, List.getElem_map]
    exact h.lengths_eq htwins hs hs' (htwins.samePlace_joins hk hk') (List.cons_ne_nil _ _)

end Common

/-- **The matches that end at terminals in the one state and do not in the other** are the
same in mirrors. -/
theorem Mirrors.terminals_iff {net net' : Network} (htwins : net.Twins net')
    {a b a' b' : MatchState} (ha : Mirrors net net' a a') (hb : Mirrors net net' b b')
    (name : String) (l : List Handle) :
    (∃ r' ∈ net'.rules, r'.name = name ∧ Waits a' r'.terminal l ∧ ¬ Waits b' r'.terminal l) ↔
      ∃ r ∈ net.rules, r.name = name ∧ Waits a r.terminal l ∧ ¬ Waits b r.terminal l := by
  constructor
  · rintro ⟨r', hr', rfl, ha', hb'⟩
    obtain ⟨r, hr, hname, hplace⟩ := htwins.symm.exists_terminal hr'
    have hends := hplace.symm
    exact ⟨r, hr, hname, (ha.waits hends (List.cons_ne_nil _ _) l).mp ha',
      fun hw => hb' ((hb.waits hends (List.cons_ne_nil _ _) l).mpr hw)⟩
  · rintro ⟨r, hr, rfl, ha', hb'⟩
    obtain ⟨r', hr', hname, hends⟩ := htwins.exists_terminal hr
    exact ⟨r', hr', hname, (ha.waits hends (List.cons_ne_nil _ _) l).mpr ha',
      fun hw => hb' ((hb.waits hends (List.cons_ne_nil _ _) l).mp hw)⟩

/-! ## Full matches -/

section FullMatches

variable {net : Network} {facts facts' : FactStore} {s s' : MatchState}

/-- **The full matches that one state has and an earlier one has not** are the matches that end at
the terminals of the one state and do not in the other. -/
theorem fullMatch_new_iff (hnet : net.WellFormed) (hs : Sound net facts s)
    (hs' : Sound net facts' s') (hkept : ∀ x t, s.arena.get? x = some t → s'.arena.get? x = some t)
    (name : String) (l : List Handle) :
    (∃ act, (FullMatch net s'.arena act ∧ ¬ FullMatch net s.arena act) ∧ act.ruleName = name ∧
        act.facts = l) ↔
      ∃ r ∈ net.rules, r.name = name ∧ Waits s' r.terminal l ∧ ¬ Waits s r.terminal l := by
  have hvalid := hs.coherent.arena.valid
  have hvalid' := hs'.coherent.arena.valid
  have hhandles : ∀ {x t}, s.arena.get? x = some t → s'.arena.handles x = s.arena.handles x :=
    Arena.handles_kept hs.coherent.arena hs'.coherent.arena fun y u hy =>
      ⟨u, hkept y u hy, rfl, rfl⟩
  constructor
  · rintro ⟨_, ⟨⟨r, hr, x, hx, rfl⟩, hnot⟩, rfl, rfl⟩
    obtain ⟨t, _, ht, hsink, _⟩ := (Arena.mem_storedAt hvalid').mp hx
    refine ⟨r, hr, rfl, ⟨x, t, ht, hsink, rfl⟩, ?_⟩
    -- Were the match there before, its tuple would be the same one.
    rintro ⟨y, u, hy, husink, heq⟩
    rw [← hhandles hy] at heq
    have hyx :=
      handles_inj hnet hs'.coherent hs'.kept (Cut.terminal hr) (hkept y u hy) ht husink hsink heq
    subst hyx
    refine hnot ⟨r, hr, y, (Arena.mem_storedAt_of_get? hvalid hy).mpr ⟨husink,
      (hs.kept y u hy).stored⟩, ?_⟩
    rw [Arena.activation, Arena.activation, hhandles hy]
  · rintro ⟨r, hr, rfl, ⟨x, t, ht, hsink, rfl⟩, hnot⟩
    refine ⟨s'.arena.activation r x, ⟨⟨r, hr, x, (Arena.mem_storedAt_of_get? hvalid' ht).mpr
      ⟨hsink, (hs'.kept x t ht).stored⟩, rfl⟩, ?_⟩, rfl, rfl⟩
    rintro ⟨r', hr', y, hy, heq⟩
    obtain ⟨u, _, hu, husink, _⟩ := (Arena.mem_storedAt hvalid).mp hy
    obtain ⟨-, -, rfl, hfacts⟩ := Activation.mk.inj heq
    have htu : t = u := Option.some.inj (ht.symm.trans (hkept x u hu))
    subst htu
    exact hnot ⟨x, t, hu, hsink, hfacts.symm⟩

end FullMatches

end RuleMatching
