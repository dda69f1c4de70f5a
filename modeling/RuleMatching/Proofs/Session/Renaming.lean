import RuleMatching.Proofs.Network.Values
import RuleMatching.Proofs.Session.Memories

set_option autoImplicit false

/-! # The same facts under other handles

What a current session holds is determined by the types and values of its live facts
(`Session.Current.sameUnder`): by neither the handles that they have nor the calls that led to them.
**Two runs that leave the same facts, under whatever handles, leave the same matches up to these
handles and memories of the same sizes** (`Session.renaming_run`); in particular facts can be
inserted in any order, and a fact can be deleted and inserted again. -/

namespace RuleMatching

open Network

theorem map_map_cancel {α β : Type} {f : α → β} {g : β → α} {l : List α}
    (h : ∀ a ∈ l, g (f a) = a) : (l.map f).map g = l := by
  rw [List.map_map]
  exact (List.map_congr_left h).trans (List.map_id l)

/-- The facts of a match are live. -/
theorem Network.IsMatch.live {net : Network} {facts : FactStore} {es : List Entry} {l : List Handle}
    (hl : net.IsMatch facts es l) {k : Handle} (hk : k ∈ l) : ∃ f, facts.get? k = some f := by
  obtain ⟨fs, hmap, -⟩ := hl
  have hmem : facts.get? k ∈ fs.map some := hmap ▸ List.mem_map_of_mem hk
  obtain ⟨f, -, hf⟩ := List.mem_map.mp hmem
  exact ⟨f, hf.symm⟩

/-- Every live fact of the first store is live in the second one under its new handle, with the same
values, and there are no others. -/
structure FactStore.Renames (ρ : Handle → Handle) (facts facts' : FactStore) : Prop where
  injective : ∀ h k f g, facts.get? h = some f → facts.get? k = some g → ρ h = ρ k → h = k
  live : ∀ h f, facts.get? h = some f → ∃ f', facts'.get? (ρ h) = some f' ∧ f.SameValues f'
  onto : ∀ k f', facts'.get? k = some f' → ∃ h f, facts.get? h = some f ∧ ρ h = k

namespace FactStore.Renames

variable {ρ : Handle → Handle} {facts facts' : FactStore}

theorem refl (facts : FactStore) : Renames id facts facts :=
  ⟨fun _ _ _ _ _ _ h => h, fun _ f hf => ⟨f, hf, .refl f⟩, fun k f hf => ⟨k, f, hf, rfl⟩⟩

/-- The old handles are found again. -/
theorem symm (h : Renames ρ facts facts') :
    ∃ σ, Renames σ facts' facts ∧ ∀ k f', facts'.get? k = some f' → ρ (σ k) = k := by
  have hback : ∀ k, ∃ j, ∀ f', facts'.get? k = some f' →
      (∃ f, facts.get? j = some f) ∧ ρ j = k := by
    intro k
    cases hk : facts'.get? k with
    | none => exact ⟨k, fun f' hf' => by cases hf'⟩
    | some f' =>
        obtain ⟨j, f, hf, hj⟩ := h.onto k f' hk
        exact ⟨j, fun _ _ => ⟨⟨f, hf⟩, hj⟩⟩
  choose σ hσ using hback
  refine ⟨σ, ⟨fun k k' f f' hf hf' heq => ?_, fun k f' hf' => ?_, fun j f hf => ?_⟩,
    fun k f' hf' => (hσ k f' hf').2⟩
  · rw [← (hσ k f hf).2, ← (hσ k' f' hf').2, heq]
  · obtain ⟨⟨f, hf⟩, hk⟩ := hσ k f' hf'
    obtain ⟨g, hg, hsame⟩ := h.live (σ k) f hf
    rw [hk, hf', Option.some.injEq] at hg
    exact ⟨f, hf, hg ▸ hsame.symm⟩
  · obtain ⟨f', hf', -⟩ := h.live j f hf
    obtain ⟨⟨g, hg⟩, hj⟩ := hσ (ρ j) f' hf'
    exact ⟨ρ j, f', hf', h.injective _ _ g f hg hf hj⟩

/-- The facts of renamed handles are the same. -/
theorem forall₂_sameValues (h : Renames ρ facts facts') {l : List Handle} {fs : List Fact}
    (hl : l.map facts.get? = fs.map some) :
    ∃ fs', (l.map ρ).map facts'.get? = fs'.map some ∧ List.Forall₂ Fact.SameValues fs fs' := by
  induction l generalizing fs with
  | nil =>
      cases fs with
      | nil => exact ⟨[], rfl, .nil⟩
      | cons f fs => cases hl
  | cons k l ih =>
      cases fs with
      | nil => cases hl
      | cons f fs =>
          obtain ⟨hk, hl⟩ := List.cons.inj hl
          obtain ⟨f', hf', hsame⟩ := h.live k f hk
          obtain ⟨fs', hfs', hall⟩ := ih hl
          exact ⟨f' :: fs', by simp [hf', ← hfs'], .cons hsame hall⟩

/-- The renamed handles of a match are a match. -/
theorem isMatch_map (h : Renames ρ facts facts') {net : Network} {es : List Entry} {l : List Handle}
    (hl : net.IsMatch facts es l) : net.IsMatch facts' es (l.map ρ) := by
  obtain ⟨fs, hmap, hlen, hall⟩ := hl
  obtain ⟨fs', hmap', hsame⟩ := h.forall₂_sameValues hmap
  refine ⟨fs', hmap', hsame.length_eq ▸ hlen, fun i e f' he hf' => ?_⟩
  obtain ⟨hi', rfl⟩ := List.getElem?_eq_some_iff.mp hf'
  have hi : i < fs.length := hsame.length_eq.symm ▸ hi'
  have hsame_i : fs[i].SameValues fs'[i] := hsame.get hi hi'
  obtain ⟨hadm, htests⟩ := hall i e fs[i] he (List.getElem?_eq_getElem hi)
  refine ⟨hsame_i.admitting net ▸ hadm, fun t ht => ?_⟩
  rw [hsame_i.joinTest (List.forall₂_take i hsame), htests t ht]

theorem admits_map (h : Renames ρ facts facts') {net : Network} {n : NodeId} {k : Handle}
    (hk : net.Admits facts n k) : net.Admits facts' n (ρ k) := by
  obtain ⟨f, hf, hadm⟩ := hk
  obtain ⟨f', hf', hsame⟩ := h.live k f hf
  exact ⟨f', hf', hsame.admitting net ▸ hadm⟩

theorem admits_iff (h : Renames ρ facts facts') (net : Network) (n : NodeId) (k' : Handle) :
    net.Admits facts' n k' ↔ ∃ k, net.Admits facts n k ∧ ρ k = k' := by
  constructor
  · rintro hk
    obtain ⟨σ, hσ, hback⟩ := h.symm
    obtain ⟨f', hf', -⟩ := id hk
    exact ⟨σ k', hσ.admits_map hk, hback k' f' hf'⟩
  · rintro ⟨k, hk, rfl⟩
    exact h.admits_map hk

/-- **The matches of the second store are those of the first one, renamed.** -/
theorem isMatch_iff (h : Renames ρ facts facts') (net : Network) (es : List Entry)
    (l' : List Handle) : net.IsMatch facts' es l' ↔ ∃ l, net.IsMatch facts es l ∧ l.map ρ = l' := by
  constructor
  · intro hl
    obtain ⟨σ, hσ, hback⟩ := h.symm
    refine ⟨l'.map σ, hσ.isMatch_map hl, map_map_cancel fun k hk => ?_⟩
    obtain ⟨f', hf'⟩ := hl.live hk
    exact hback k f' hf'
  · rintro ⟨l, hl, rfl⟩
    exact h.isMatch_map hl

/-- Renaming does not make two matches one. -/
theorem map_injOn (h : Renames ρ facts facts') {net : Network} {es : List Entry} {l m : List Handle}
    (hl : net.IsMatch facts es l) (hm : net.IsMatch facts es m) (heq : l.map ρ = m.map ρ) :
    l = m := by
  obtain ⟨σ, hσ, hback⟩ := h.symm
  have hcancel : ∀ j f, facts.get? j = some f → σ (ρ j) = j := by
    intro j f hf
    obtain ⟨f', hf', -⟩ := h.live j f hf
    obtain ⟨g, hg, -⟩ := hσ.live (ρ j) f' hf'
    exact h.injective _ j g f hg hf (hback (ρ j) f' hf')
  have hunmap : ∀ {l : List Handle}, net.IsMatch facts es l → (l.map ρ).map σ = l := by
    intro l hl
    refine map_map_cancel fun k hk => ?_
    obtain ⟨f, hf⟩ := hl.live hk
    exact hcancel k f hf
  rw [← hunmap hl, ← hunmap hm, heq]

end FactStore.Renames

/-! ## Sizes -/

/-- A list of the images of another one. -/
theorem perm_map_of_mem_iff {α β : Type} {g : α → β} {l : List α} {l' : List β} (hl : l.Nodup)
    (hl' : l'.Nodup) (hinj : ∀ a ∈ l, ∀ b ∈ l, g a = g b → a = b)
    (hmem : ∀ b, b ∈ l' ↔ ∃ a ∈ l, g a = b) : l'.Perm (l.map g) := by
  refine (List.perm_ext_iff_of_nodup hl' ((List.nodup_map_iff_inj_on hl).mpr hinj)).mpr fun b => ?_
  rw [hmem, List.mem_map]

/-- The number of buckets is determined by the keys. -/
theorem bucketCount_eq {α β : Type} {current : α → Option IndexKey → Prop}
    {current' : β → Option IndexKey → Prop} {m : Memory α} {m' : Memory β}
    (h : m.Filed current) (h' : m'.Filed current') (hkind : m'.isIndexed = m.isIndexed)
    (hsize : m'.items.length = m.items.length)
    (hkeys : ∀ k, (∃ a ∈ m'.items, current' a (some k)) ↔ ∃ a ∈ m.items, current a (some k)) :
    m'.bucketCount = m.bucketCount := by
  cases m with
  | linear list =>
      cases m' with
      | linear list' =>
          simp only [Memory.items, SlotMap.toList, List.length_map] at hsize
          -- Without an index everything is in one bucket, if there is anything.
          have hempty : list'.isEmpty = list.isEmpty := by
            rw [SlotMap.isEmpty, SlotMap.isEmpty, Bool.eq_iff_iff, List.isEmpty_iff_length_eq_zero,
              List.isEmpty_iff_length_eq_zero, hsize]
          rw [Memory.bucketCount, Memory.bucketCount, hempty]
      | hashed buckets' => cases hkind
  | hashed buckets =>
      cases m' with
      | linear list' => cases hkind
      | hashed buckets' =>
          obtain ⟨keys, hn, hmem, hcount⟩ := h.bucketCount buckets rfl
          obtain ⟨keys', hn', hmem', hcount'⟩ := h'.bucketCount buckets' rfl
          rw [hcount, hcount']
          exact ((List.perm_ext_iff_of_nodup hn' hn).mpr fun k =>
            (hmem' k).trans ((hkeys k).trans (hmem k).symm)).length_eq

namespace Session

/-- The second session holds what the first one holds, under other handles: the same matches of
every rule, and as many items in as many lists at every node. -/
structure SameUnder (ρ : Handle → Handle) (s s' : Session) : Prop where
  matchesOf : ∀ rule, (s'.matchesOf rule).Perm ((s.matchesOf rule).map (List.map ρ))
  leftCount : ∀ n, s'.state.leftCount n = s.state.leftCount n
  rightCount : ∀ n, s'.state.rightCount n = s.state.rightCount n
  buckets : ∀ n, (s'.state.joins.get? n).map (fun m => (m.left.bucketCount, m.right.bucketCount)) =
    (s.state.joins.get? n).map fun m => (m.left.bucketCount, m.right.bucketCount)
  tupleCount : s'.tupleCount = s.tupleCount

namespace Current

variable {ρ : Handle → Handle} {s s' : Session} (hs : s.Consistent) (hc : s.Current)
  (hs' : s'.Consistent) (hc' : s'.Current) (hrules : s'.network.rules = s.network.rules)
  (hroutes : s.network.RoutesAlike s'.network) (hfacts : s.facts.Renames ρ s'.facts)

include hroutes hfacts

/-- Lists of the matches of some entries are the same up to the handles. -/
theorem perm_of_lists {es : List Entry} {tuples tuples' : List TupleId} (hl : s.Lists es tuples)
    (hl' : s'.Lists es tuples') : (tuples'.map s'.state.arena.handles).Perm
      ((tuples.map s.state.arena.handles).map (List.map ρ)) := by
  refine perm_map_of_mem_iff hl.1 hl'.1
    (fun l hl₁ m hm => hfacts.map_injOn ((hl.2 l).mp hl₁) ((hl.2 m).mp hm)) fun l' => ?_
  rw [hl'.2, hroutes.isMatch_iff, hfacts.isMatch_iff]
  exact exists_congr fun l => and_congr_left fun _ => (hl.2 l).symm

/-- Lists of the facts that belong in at an entry are the same up to the handles. -/
theorem perm_of_admits {n : NodeId} {l l' : List Handle} (hl : l.Nodup) (hl' : l'.Nodup)
    (hmem : ∀ k, k ∈ l ↔ s.network.Admits s.facts n k)
    (hmem' : ∀ k, k ∈ l' ↔ s'.network.Admits s'.facts n k) : l'.Perm (l.map ρ) := by
  refine perm_map_of_mem_iff hl hl' (fun j hj k hk heq => ?_) fun k' => ?_
  · obtain ⟨f, hf, -⟩ := (hmem j).mp hj
    obtain ⟨g, hg, -⟩ := (hmem k).mp hk
    exact hfacts.injective j k f g hf hg heq
  · rw [hmem', hroutes.admits_iff, hfacts.admits_iff]
    exact exists_congr fun k => and_congr_left fun _ => (hmem k).symm

include hs hc hs' hc' hrules

/-- The memories of a join hold as many items in as many lists. -/
theorem join_sizes {e : Entry} (he : e ∈ s.network.allJoins) {m m' : JoinMemory}
    (hm : s.state.joins.get? e.node = some m) (hm' : s'.state.joins.get? e.node = some m') :
    (m'.left.size = m.left.size ∧ m'.right.size = m.right.size) ∧
      m'.left.bucketCount = m.left.bucketCount ∧ m'.right.bucketCount = m.right.bucketCount := by
  obtain ⟨r, b, before, later, hcut⟩ := mem_allJoins_iff.mp he
  have hcut' : s'.network.Cut r (b :: before) (e :: later) := ⟨hrules ▸ hcut.mem, hcut.split⟩
  -- Whether there is an index is a matter of the join.
  have hfits := hc.coherent.joins.fits_of_get? he hm
  have hfits' := hc'.coherent.joins.fits_of_get? (hcut'.join (by simp)) hm'
  have hindexedLeft := hfits'.left.indexed.trans hfits.left.indexed.symm
  have hindexedRight := hfits'.right.indexed.trans hfits.right.indexed.symm
  obtain ⟨m₁, hm₁, hholds⟩ := joinHolds hs hc hcut (by simp)
  obtain ⟨m₁', hm₁', hholds'⟩ := joinHolds hs' hc' hcut' (by simp)
  rw [hm, Option.some.injEq] at hm₁
  rw [hm', Option.some.injEq] at hm₁'
  subst hm₁ hm₁'
  have hleft := perm_of_lists hroutes hfacts hholds.left hholds'.left
  have hright := perm_of_admits hroutes hfacts hholds.right_nodup hholds'.right_nodup hholds.right
    hholds'.right
  have hleftSize : m'.left.items.length = m.left.items.length := by simpa using hleft.length_eq
  have hrightSize : m'.right.items.length = m.right.items.length := by simpa using hright.length_eq
  refine ⟨⟨hleftSize, hrightSize⟩, ?_, ?_⟩
  · refine bucketCount_eq hholds.left_filed hholds'.left_filed hindexedLeft hleftSize fun k => ?_
    -- The key of a match is a matter of its facts.
    have hkeyed : ∀ s : Session, ∀ l : List TupleId, (∃ x ∈ l, s.LeftKeyed e x (some k)) ↔
        ∃ hs ∈ l.map s.state.arena.handles, e.condition.leftKey (factsOf s.facts hs) =
          .ok (some k) := by
      intro s l
      simp only [List.mem_map, exists_exists_and_eq_and]
      rfl
    rw [hkeyed, hkeyed]
    simp only [hleft.mem_iff, List.mem_map (f := List.map ρ), exists_exists_and_eq_and]
    refine exists_congr fun hs => and_congr_right fun hmem => ?_
    obtain ⟨fs, hfs, -⟩ := (hholds.left.2 hs).mp hmem
    obtain ⟨fs', hfs', hsame⟩ := hfacts.forall₂_sameValues hfs
    rw [factsOf_eq_of_map hfs, factsOf_eq_of_map hfs', Fact.SameValues.leftKey hsame]
  · refine bucketCount_eq hholds.right_filed hholds'.right_filed hindexedRight hrightSize ?_
    intro k
    simp only [hright.mem_iff, List.mem_map, exists_exists_and_eq_and]
    refine exists_congr fun h => and_congr_right fun hmem => ?_
    obtain ⟨f, hf, -⟩ := (hholds.right h).mp hmem
    obtain ⟨f', hf', hsame⟩ := hfacts.live h f hf
    simp only [RightKeyed, hf, hf', Option.some.injEq, exists_eq_left', hsame.rightKey]

/-- Adapters have as many facts. -/
theorem adapter_size {r : CompiledRule} (hr : r ∈ s.network.rules) {m m' : AdapterMemory}
    (hm : s.state.adapters.get? r.first.node = some m)
    (hm' : s'.state.adapters.get? r.first.node = some m') : m'.roots.size = m.roots.size := by
  obtain ⟨m₁, hm₁, hholds⟩ := adapterHolds hs hc hr
  obtain ⟨m₁', hm₁', hholds'⟩ := adapterHolds hs' hc' (hrules.symm ▸ hr : r ∈ s'.network.rules)
  rw [hm, Option.some.injEq] at hm₁
  rw [hm', Option.some.injEq] at hm₁'
  subst hm₁ hm₁'
  have hperm := perm_of_admits hroutes hfacts m.roots.nodup_keys m'.roots.nodup_keys
    (fun h => (FiniteMap.mem_keys_iff _ _).trans (hholds.admits h))
    fun h => (FiniteMap.mem_keys_iff _ _).trans (hholds'.admits h)
  rw [← FiniteMap.length_keys, ← FiniteMap.length_keys, hperm.length_eq, List.length_map]

/-- Terminals have the same matches up to the handles. -/
theorem terminal_perm {r : CompiledRule} (hr : r ∈ s.network.rules) {m m' : TerminalMemory}
    (hm : s.state.terminals.get? r.terminal = some m)
    (hm' : s'.state.terminals.get? r.terminal = some m') :
    (m'.tuples.toList.map s'.state.arena.handles).Perm
      ((m.tuples.toList.map s.state.arena.handles).map (List.map ρ)) := by
  obtain ⟨m₁, hm₁, hlists⟩ := terminalLists hs hc hr
  obtain ⟨m₁', hm₁', hlists'⟩ := terminalLists hs' hc' (hrules.symm ▸ hr : r ∈ s'.network.rules)
  rw [hm, Option.some.injEq] at hm₁
  rw [hm', Option.some.injEq] at hm₁'
  subst hm₁ hm₁'
  exact perm_of_lists hroutes hfacts hlists hlists'

/-- Rules have the same matches up to the handles. -/
theorem perm_matchesOf (rule : String) :
    (s'.matchesOf rule).Perm ((s.matchesOf rule).map (List.map ρ)) := by
  have hnamed : s'.network.ruleNamed? rule = s.network.ruleNamed? rule := by
    rw [ruleNamed?, ruleNamed?, hrules]
  rw [Session.matchesOf, Session.matchesOf, hnamed]
  cases hname : s.network.ruleNamed? rule with
  | none => exact .refl []
  | some r =>
      have hr : r ∈ s.network.rules := List.mem_of_find?_eq_some hname
      have hr' : r ∈ s'.network.rules := hrules.symm ▸ hr
      obtain ⟨m, hm, -⟩ := hc.coherent.terminals.at_site r hr
      obtain ⟨m', hm', -⟩ := hc'.coherent.terminals.at_site r hr'
      simp only [MatchState.terminalTuples, hm, hm', Option.map_some, Option.getD_some]
      refine (List.mergeSort_perm _ _).trans ?_
      refine (terminal_perm hs hc hs' hc' hrules hroutes hfacts hr hm hm').trans ?_
      exact ((List.mergeSort_perm _ _).map _).symm

/-- **Current sessions with the same facts hold the same, up to the handles of the facts.** -/
theorem sameUnder : SameUnder ρ s s' := by
  have hjoins : s'.network.allJoins = s.network.allJoins := by rw [allJoins, hrules, allJoins]
  have hcovers := hc.coherent
  have hcovers' := hc'.coherent
  have hadapters : ∀ n, (s'.state.adapters.get? n).map (·.roots.size) =
      (s.state.adapters.get? n).map (·.roots.size) :=
    hcovers.adapters.map_get?_eq (hrules ▸ hcovers'.adapters) fun r hr m m' =>
      adapter_size hs hc hs' hc' hrules hroutes hfacts hr
  have hsizes : ∀ n, (s'.state.joins.get? n).map (fun m => (m.left.size, m.right.size)) =
      (s.state.joins.get? n).map fun m => (m.left.size, m.right.size) :=
    hcovers.joins.map_get?_eq (hjoins ▸ hcovers'.joins) fun e he m m' hm hm' => by
      obtain ⟨⟨hleft, hright⟩, -⟩ := join_sizes hs hc hs' hc' hrules hroutes hfacts he hm hm'
      rw [hleft, hright]
  have hterminals : ∀ n, (s'.state.terminals.get? n).map (·.tuples.size) =
      (s.state.terminals.get? n).map (·.tuples.size) :=
    hcovers.terminals.map_get?_eq (hrules ▸ hcovers'.terminals) fun r hr m m' hm hm' => by
      have hperm := terminal_perm hs hc hs' hc' hrules hroutes hfacts hr hm hm'
      simpa [SlotMap.toList, SlotMap.size] using hperm.length_eq
  -- A node has tuples on its left in one of the three kinds of memories, and none in the other two.
  have hleft : ∀ n, s'.state.leftCount n = s.state.leftCount n := by
    intro n
    have hjoin := congrArg (Option.map Prod.fst) (hsizes n)
    rw [Option.map_map, Option.map_map] at hjoin
    show ((s'.state.adapters.get? n).map (·.roots.size)).getD 0 +
      ((s'.state.joins.get? n).map (·.left.size)).getD 0 +
      ((s'.state.terminals.get? n).map (·.tuples.size)).getD 0 = _
    rw [hadapters, hterminals]
    exact congrArg (fun o : Option Nat => _ + o.getD 0 + _) hjoin
  refine ⟨perm_matchesOf hs hc hs' hc' hrules hroutes hfacts, hleft, fun n => ?_, ?_, ?_⟩
  · have hjoin := congrArg (Option.map Prod.snd) (hsizes n)
    rw [Option.map_map, Option.map_map] at hjoin
    exact congrArg (fun o : Option Nat => o.getD 0) hjoin
  · refine hcovers.joins.map_get?_eq (hjoins ▸ hcovers'.joins) fun e he m m' hm hm' => ?_
    obtain ⟨-, hleft, hright⟩ := join_sizes hs hc hs' hc' hrules hroutes hfacts he hm hm'
    rw [hleft, hright]
  · rw [tupleCount_eq hs hc, tupleCount_eq hs' hc', places, places, hrules]
    exact congrArg List.sum (List.map_congr_left fun n _ => hleft n)

end Current

end Session

/-! ## Handles -/

namespace FactStore

variable {ρ : Handle → Handle} {facts facts' : FactStore} {f : Fact}

/-- A live fact has a handle that was issued. -/
def Issued (facts : FactStore) : Prop := ∀ h f, facts.get? h = some f → h ≤ facts.lastIssued

/-- The store with one more fact. -/
def add (facts : FactStore) (f : Fact) : FactStore :=
  ⟨facts.facts.insert facts.nextHandle f, facts.nextHandle⟩

theorem get?_add (facts : FactStore) (f : Fact) (k : Handle) :
    (facts.add f).get? k = if k = facts.nextHandle then some f else facts.get? k :=
  FiniteMap.get?_insert facts.facts facts.nextHandle k f

theorem Issued.get?_of_lt (h : facts.Issued) {k : Handle} (hk : facts.lastIssued < k) :
    facts.get? k = none := by
  cases hf : facts.get? k with
  | none => rfl
  | some f => exact absurd (h k f hf) (Nat.not_le.mpr hk)

theorem Issued.get?_nextHandle (h : facts.Issued) : facts.get? facts.nextHandle = none :=
  h.get?_of_lt (Nat.lt_succ_self _)

theorem Issued.add (h : facts.Issued) (f : Fact) : (facts.add f).Issued := by
  intro k g hk
  rw [get?_add] at hk
  split at hk
  · next heq => exact Nat.le_of_eq heq
  · exact Nat.le_succ_of_le (h k g hk)

theorem Issued.drop (h : facts.Issued) (k : Handle) : (facts.drop k).Issued := by
  intro j g hj
  rw [get?_drop] at hj
  split at hj
  · cases hj
  · exact h j g hj

theorem Issued.insert_nextHandle (h : facts.Issued) (f : Fact) :
    facts.insert facts.nextHandle f = .ok (facts.add f) := by
  have hnew : facts.contains facts.nextHandle = false :=
    (FiniteMap.contains_eq_false_iff _ _).mpr h.get?_nextHandle
  have hlast : ¬ facts.nextHandle ≤ facts.lastIssued := Nat.not_succ_le_self _
  rw [insert, hnew, if_neg Bool.false_ne_true, if_neg hlast]
  rfl

theorem Issued.insert (h : facts.Issued) {k : Handle} (hi : facts.insert k f = .ok facts') :
    facts'.Issued := by
  have hget := (get?_of_insert hi).2
  obtain ⟨rfl, hlt⟩ := eq_of_insert hi
  intro j g hj
  rw [hget] at hj
  split at hj
  · next heq => exact Nat.le_of_eq heq
  · exact Nat.le_of_lt (Nat.lt_of_le_of_lt (h j g hj) hlt)

theorem Issued.set (h : facts.Issued) {k : Handle} {old : Fact} (hold : facts.get? k = some old)
    (f : Fact) : (facts.set k f).Issued := by
  intro j g hj
  rw [get?_set] at hj
  split at hj
  · next heq => exact heq ▸ h k old hold
  · exact h j g hj

theorem Issued.step (h : facts.Issued) {taken? : Option Handle} (hb : facts.Becomes facts' taken?) :
    facts'.Issued := by
  cases hb with
  | same => exact h
  | insert hi => exact h.insert hi
  | set hold f => exact h.set hold f
  | drop k => exact h.drop k

namespace Renames

theorem trans {σ : Handle → Handle} {facts'' : FactStore} (h : Renames ρ facts facts')
    (h' : Renames σ facts' facts'') : Renames (σ ∘ ρ) facts facts'' := by
  refine ⟨fun j k f g hj hk heq => ?_, fun k f hk => ?_, fun k f hk => ?_⟩
  · obtain ⟨f', hf', -⟩ := h.live j f hj
    obtain ⟨g', hg', -⟩ := h.live k g hk
    exact h.injective j k f g hj hk (h'.injective _ _ f' g' hf' hg' heq)
  · obtain ⟨f', hf', hsame⟩ := h.live k f hk
    obtain ⟨f'', hf'', hsame'⟩ := h'.live _ f' hf'
    exact ⟨f'', hf'', hsame'.factType.trans hsame.factType,
      fun field => (hsame'.value field).trans (hsame.value field)⟩
  · obtain ⟨j, f', hf', rfl⟩ := h'.onto k f hk
    obtain ⟨i, g, hg, rfl⟩ := h.onto j f' hf'
    exact ⟨i, g, hg, rfl⟩

/-- **One more fact comes to both stores**, under a free handle of each. -/
theorem extend (hr : Renames ρ facts facts') {h h' : Handle} (hfree : facts.get? h = none)
    (hfree' : facts'.get? h' = none) {g g' : FactStore}
    (hg : ∀ k, g.get? k = if k = h then some f else facts.get? k)
    (hg' : ∀ k, g'.get? k = if k = h' then some f else facts'.get? k) :
    Renames (Function.update ρ h h') g g' := by
  have hne : ∀ k f, facts.get? k = some f → k ≠ h ∧ ρ k ≠ h' := by
    intro k f hf
    refine ⟨fun heq => ?_, fun heq => ?_⟩
    · rw [heq, hfree] at hf
      cases hf
    · obtain ⟨f', hf', -⟩ := hr.live k f hf
      rw [heq, hfree'] at hf'
      cases hf'
  -- A fact of the larger store is the new one or an old one, which keeps its new handle.
  have hcases : ∀ k a, g.get? k = some a → (k = h ∧ a = f ∧ Function.update ρ h h' k = h') ∨
      (facts.get? k = some a ∧ Function.update ρ h h' k = ρ k) := by
    intro k a hk
    rw [hg] at hk
    split at hk
    · next heq => exact Or.inl ⟨heq, (Option.some.inj hk).symm, heq ▸ Function.update_self ..⟩
    · next hkh => exact Or.inr ⟨hk, Function.update_of_ne hkh ..⟩
  refine ⟨fun j k a b hj hk heq => ?_, fun k a hk => ?_, fun k a hk => ?_⟩
  · rcases hcases j a hj with ⟨hjh, -, hρj⟩ | ⟨hj, hρj⟩ <;>
      rcases hcases k b hk with ⟨hkh, -, hρk⟩ | ⟨hk, hρk⟩ <;> rw [hρj, hρk] at heq
    · exact hjh.trans hkh.symm
    · exact absurd heq.symm (hne k b hk).2
    · exact absurd heq (hne j a hj).2
    · exact hr.injective j k a b hj hk heq
  · rcases hcases k a hk with ⟨-, rfl, hρ⟩ | ⟨hk, hρ⟩
    · exact ⟨a, by rw [hρ, hg', if_pos rfl], .refl a⟩
    · obtain ⟨b, hb, hsame⟩ := hr.live k a hk
      exact ⟨b, by rw [hρ, hg', if_neg (hne k a hk).2, hb], hsame⟩
  · rw [hg'] at hk
    split at hk
    · next heq => exact ⟨h, f, by rw [hg, if_pos rfl], heq ▸ Function.update_self ..⟩
    · obtain ⟨j, b, hb, rfl⟩ := hr.onto k a hk
      have hj := (hne j b hb).1
      exact ⟨j, b, by rw [hg, if_neg hj, hb], Function.update_of_ne hj ..⟩

theorem foldl_add (hr : Renames ρ facts facts') (hi : facts.Issued) (hi' : facts'.Issued)
    (fs : List Fact) :
    ∃ ρ', Renames ρ' (fs.foldl FactStore.add facts) (fs.foldl FactStore.add facts') := by
  induction fs generalizing ρ facts facts' with
  | nil => exact ⟨ρ, hr⟩
  | cons f fs ih =>
      exact ih (hr.extend hi.get?_nextHandle hi'.get?_nextHandle (get?_add facts f)
        (get?_add facts' f)) (hi.add f) (hi'.add f)

/-- Two facts that come one after the other can change places. -/
theorem swap (hi : facts.Issued) (f g : Fact) :
    ∃ ρ, Renames ρ ((facts.add f).add g) ((facts.add g).add f) := by
  -- On the way the second store has the first fact under the second handle.
  obtain ⟨mid, hmid⟩ : ∃ mid : FactStore, ∀ k, mid.get? k =
      if k = facts.nextHandle + 1 then some f else facts.get? k :=
    ⟨⟨facts.facts.insert (facts.nextHandle + 1) f, 0⟩, fun k => FiniteMap.get?_insert _ _ _ _⟩
  have hfirst := (refl facts).extend hi.get?_nextHandle
    (hi.get?_of_lt (Nat.lt_succ_of_lt (Nat.lt_succ_self _))) (get?_add facts f) hmid
  have hfree : mid.get? facts.nextHandle = none := by
    rw [hmid, if_neg (Nat.succ_ne_self _).symm]
    exact hi.get?_nextHandle
  refine ⟨_, hfirst.extend (hi.add f).get?_nextHandle hfree (get?_add (facts.add f) g) fun k => ?_⟩
  rw [get?_add, get?_add, hmid, show (facts.add g).nextHandle = facts.nextHandle + 1 from rfl]
  by_cases hk : k = facts.nextHandle + 1
  · rw [if_pos hk, if_neg (hk ▸ Nat.succ_ne_self _), if_pos hk]
  · rw [if_neg hk, if_neg hk]

end Renames

/-- **Facts that are added in another order are the same facts.** -/
theorem renames_of_perm {fs fs' : List Fact} (hperm : fs.Perm fs') (hi : facts.Issued) :
    ∃ ρ, Renames ρ (fs.foldl add facts) (fs'.foldl add facts) := by
  induction hperm generalizing facts with
  | nil => exact ⟨id, .refl _⟩
  | cons f _ ih => exact ih (hi.add f)
  | swap f g fs =>
      obtain ⟨ρ, hρ⟩ := Renames.swap hi g f
      exact hρ.foldl_add ((hi.add g).add f) ((hi.add f).add g) fs
  | trans _ _ ih ih' =>
      obtain ⟨ρ, hρ⟩ := ih hi
      obtain ⟨σ, hσ⟩ := ih' hi
      exact ⟨σ ∘ ρ, hρ.trans hσ⟩

end FactStore

namespace Session

variable {s : Session}

theorem Consistent.facts_perform (hs : s.Consistent) (c : Call) :
    (s.perform c).1.facts = (answer s.network s.facts c).1 :=
  congrArg Prod.fst (perform_spec hs c).2

/-- A call keeps it that live facts have handles that were issued. -/
theorem Consistent.issued_perform (hs : s.Consistent) (hi : s.facts.Issued) (c : Call) :
    (s.perform c).1.facts.Issued := hi.step (hs.becomes_perform c)

theorem issued_run {net : Network} (hnet : net.WellFormed) (calls : List Call) :
    ((ofNetwork net).run calls).1.facts.Issued := by
  refine (run_induction (P := fun s => s.Consistent ∧ s.facts.Issued) (fun s c hs => ?_)
    ⟨hnet.consistent_ofNetwork, fun h f hf => by cases hf⟩ calls).2
  exact ⟨(perform_spec hs.1 c).1.consistent, hs.1.issued_perform hs.2 c⟩

theorem run_append (s : Session) (calls rest : List Call) :
    (s.run (calls ++ rest)).1 = ((s.run calls).1.run rest).1 := by
  induction calls generalizing s with
  | nil => rfl
  | cons c calls ih => exact ih (s.perform c).1

/-- A fact that comes without a handle is added, whether it can enter the network or not. -/
theorem Consistent.facts_insert (hs : s.Consistent) (hi : s.facts.Issued) (f : Fact) :
    (s.perform (.insert f)).1.facts = s.facts.add f := by
  rw [hs.facts_perform]
  show (insertAnswer s.network s.facts s.facts.nextHandle f).1 = _
  rw [insertAnswer, hi.insert_nextHandle]

theorem Consistent.facts_inserts (hs : s.Consistent) (hi : s.facts.Issued) (fs : List Fact) :
    (s.run (fs.map .insert)).1.facts = fs.foldl FactStore.add s.facts := by
  induction fs generalizing s with
  | nil => rfl
  | cons f fs ih =>
      rw [List.foldl_cons, ← hs.facts_insert hi f]
      exact ih (perform_spec hs _).1.consistent (hs.issued_perform hi _)

/-- A fact that is deleted and inserted again is the same fact under a new handle. -/
theorem Consistent.renames_reinsert (hs : s.Consistent) (hi : s.facts.Issued) {h : Handle}
    {f : Fact} (hf : s.facts.get? h = some f) :
    s.facts.Renames (Function.update id h s.facts.nextHandle)
      (s.run [.delete h, .insert f]).1.facts := by
  have hdrop : (s.perform (.delete h)).1.facts = s.facts.drop h := (delete_of_live hs hf).1
  have hadd := (perform_spec hs (.delete h)).1.consistent.facts_insert (hdrop ▸ hi.drop h) f
  rw [hdrop] at hadd
  show s.facts.Renames _ ((s.perform (.delete h)).1.perform (.insert f)).1.facts
  rw [hadd]
  refine (FactStore.Renames.refl (s.facts.drop h)).extend ?_ (hi.drop h).get?_nextHandle (f := f)
    (fun k => ?_) (FactStore.get?_add _ f)
  · rw [FactStore.get?_drop, if_pos rfl]
  · rw [FactStore.get?_drop]
    split
    · next heq => rw [heq, hf]
    · rfl

/-- **What a session holds does not depend on how its facts got there.** Two runs that leave the
same facts, under whatever handles, leave the same matches up to these handles, and memories of the
same sizes. In particular this is so when facts are inserted in another order, and when a fact is
deleted and inserted again. -/
theorem renaming_run {rules : List Rule} {schemas : SchemaRegistry} {config : Config}
    {net : Network} (hbuild : Network.build rules schemas config = .ok net)
    (hid : ∀ rule ∈ rules, ∀ p ∈ rule.patterns, ∀ c ∈ p.clauses, c.RespectsIdentity)
    (calls : List Call) :
    let s := ((ofNetwork net).run calls).1
    (∀ (calls' : List Call) (ρ : Handle → Handle),
      s.facts.Renames ρ ((ofNetwork net).run calls').1.facts →
      SameUnder ρ s ((ofNetwork net).run calls').1) ∧
    (∀ fs fs' : List Fact, fs.Perm fs' →
      ∃ ρ, (s.run (fs.map .insert)).1.facts.Renames ρ (s.run (fs'.map .insert)).1.facts ∧
        SameUnder ρ (s.run (fs.map .insert)).1 (s.run (fs'.map .insert)).1) ∧
    (∀ h f, s.facts.get? h = some f →
      s.facts.Renames (Function.update id h s.facts.nextHandle)
        (s.run [.delete h, .insert f]).1.facts ∧
        SameUnder (Function.update id h s.facts.nextHandle) s
          (s.run [.delete h, .insert f]).1) := by
  intro s
  have hnet := wellFormed_build hbuild
  have hresp := respectsIdentity_build hbuild hid
  have hsame : ∀ (calls calls' : List Call) (ρ : Handle → Handle),
      ((ofNetwork net).run calls).1.facts.Renames ρ ((ofNetwork net).run calls').1.facts →
        SameUnder ρ ((ofNetwork net).run calls).1 ((ofNetwork net).run calls').1 := by
    intro calls calls' ρ hρ
    obtain ⟨hnet₁, hs, hc⟩ := run_ofNetwork hnet calls
    obtain ⟨hnet₂, hs', hc'⟩ := run_ofNetwork hnet calls'
    have heq := hnet₂.trans hnet₁.symm
    exact Current.sameUnder hs (hc hresp) hs' (hc' hresp) (congrArg Network.rules heq)
      ⟨fun f => by rw [heq], fun n f => by rw [heq]⟩ hρ
  obtain ⟨-, hs, -⟩ := run_ofNetwork hnet calls
  have hi := issued_run hnet calls
  refine ⟨fun calls' ρ hρ => hsame calls calls' ρ hρ, fun fs fs' hperm => ?_, fun h f hf => ?_⟩
  · obtain ⟨ρ, hρ⟩ := FactStore.renames_of_perm hperm hi
    rw [← hs.facts_inserts hi, ← hs.facts_inserts hi, ← run_append, ← run_append] at hρ
    refine ⟨ρ, ?_⟩
    rw [← run_append, ← run_append]
    exact ⟨hρ, hsame _ _ ρ hρ⟩
  · have hρ := hs.renames_reinsert hi hf
    refine ⟨hρ, ?_⟩
    rw [← run_append] at hρ ⊢
    exact hsame _ _ _ hρ

/-- An order that is deleted and inserted again, and orders that come in another order. -/
theorem renaming_orders : ∃ net, Network.build [pairRule] orderSchemas .standard = .ok net ∧
    (∀ rule ∈ [pairRule], ∀ p ∈ rule.patterns, ∀ c ∈ p.clauses, c.RespectsIdentity) ∧
    ((ofNetwork net).run orderCalls).1.facts.get? 2 = some (order 8 2) ∧
    SameUnder (Function.update id 2 6) ((ofNetwork net).run orderCalls).1
      (((ofNetwork net).run orderCalls).1.run [.delete 2, .insert (order 8 2)]).1 ∧
    ∃ ρ, SameUnder ρ
      (((ofNetwork net).run orderCalls).1.run ([order 8 1, order 7 1].map .insert)).1
      (((ofNetwork net).run orderCalls).1.run ([order 7 1, order 8 1].map .insert)).1 := by
  obtain ⟨net, hnet, hlive, hnext⟩ : ∃ net, Network.build [pairRule] orderSchemas .standard =
      .ok net ∧
      ((ofNetwork net).run orderCalls).1.facts.get? 2 = some (order 8 2) ∧
      ((ofNetwork net).run orderCalls).1.facts.nextHandle = 6 := ⟨_, rfl, rfl, rfl⟩
  obtain ⟨-, hperm, hagain⟩ := renaming_run hnet respectsIdentity_pairRule orderCalls
  obtain ⟨ρ, -, hρ⟩ := hperm _ _ (List.Perm.swap (order 7 1) (order 8 1) [])
  exact ⟨net, hnet, respectsIdentity_pairRule, hlive, hnext ▸ (hagain 2 _ hlive).2, ρ, hρ⟩

end Session

end RuleMatching
