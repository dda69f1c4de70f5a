import RuleMatching.Proofs.Network.Routing
import RuleMatching.Proofs.Session.Entering

set_option autoImplicit false

/-! # New versions of facts

While every fact reads alike in its old and its new version at the entries that it is in, the
memories fit the new versions as well as the old ones: **a sound state stays sound**
(`Sound.versions`), and **an exact state stays exact** if the tests cannot tell identical values
apart (`Exact.versions`). -/

namespace RuleMatching

open Network

/-- The fact reads alike in both stores at the entry. -/
def AlikeAt (facts facts' : FactStore) (e : Entry) (h : Handle) : Prop :=
  ∃ f f', facts.get? h = some f ∧ facts'.get? h = some f' ∧ VersionsAlike e f f'

variable {net : Network} {facts facts' : FactStore}

theorem AlikeAt.readable {e : Entry} {h : Handle} (ha : AlikeAt facts facts' e h) :
    Readable facts' e h := by
  obtain ⟨f, f', -, hf', halike⟩ := ha
  exact ⟨f', hf', halike.readable⟩

/-! ## Where the facts of a match are in -/

/-- **The facts of a match of a sound state are in, each at its entry.** -/
theorem Sound.held_of_sink (hnet : net.WellFormed) {s : MatchState} (hs : Sound net facts s)
    {x : TupleId} {t : Tuple} (hx : s.arena.get? x = some t) {r : CompiledRule}
    {before later : List Entry} (hcut : net.Cut r before later)
    (hsink : t.sink = r.sinkAfter later) :
    List.Forall₂ (fun (e : Entry) h => s.holds e.node h = true) before (s.arena.handles x) := by
  have ha := hs.coherent.arena
  refine hs.coherent.match_induction hnet
    (C := fun x _ _ before _ =>
      List.Forall₂ (fun (e : Entry) h => s.holds e.node h = true) before (s.arena.handles x))
    (fun x t r hx hl => ?_) (fun x t q u r before e later hx hl _ hq _ _ ih => ?_) hx hcut hsink
  · rw [Arena.handles_root ha hx (hl.root rfl).1]
    exact .cons ((hs.kept x t hx).backed r [] r.first r.joins hl.cut hl.sink) .nil
  · rw [Arena.handles_child ha hx hq]
    have hlast := (hs.kept x t hx).backed r before e later hl.cut hl.sink
    exact List.rel_append ih (.cons hlast .nil)

/-! ## Reads of bound facts -/

/-- Of live handles every one has its fact at its place. -/
theorem getElem?_factsOf {hs : List Handle} (h : ∀ k ∈ hs, ∃ f, facts.get? k = some f) (i : Nat) :
    (factsOf facts hs)[i]? = hs[i]?.bind facts.get? := by
  induction hs generalizing i with
  | nil => rfl
  | cons k rest ih =>
      obtain ⟨f, hf⟩ := h k List.mem_cons_self
      have hcons : factsOf facts (k :: rest) = f :: factsOf facts rest :=
        List.filterMap_cons_some hf
      rw [hcons]
      cases i with
      | zero =>
          rw [List.getElem?_cons_zero, List.getElem?_cons_zero, Option.bind_some, hf]
      | succ i =>
          rw [List.getElem?_cons_succ, List.getElem?_cons_succ]
          exact ih (fun k' hk' => h k' (List.mem_cons_of_mem k hk')) i

section Joins

variable (hnet : net.WellFormed) {r : CompiledRule} {before later : List Entry} {e : Entry}
  (hcut : net.Cut r before (e :: later)) {bound : List Handle}
  (hbound : List.Forall₂ (AlikeAt facts facts') before bound)

include hnet hcut hbound

/-- The tests of a join read the bound facts alike in both versions. -/
theorem declarations_alike (t : JoinTest) (ht : t ∈ e.condition.tests) :
    ReadsAlike (t.declaration.read (factsOf facts bound))
      (t.declaration.read (factsOf facts' bound)) := by
  -- The declaration is of a fact bound earlier, at an entry that reads the accessor on account
  -- of this test.
  obtain ⟨-, b, hb, hmem⟩ := (hnet.rule r hcut.mem).reads before e later hcut.split t ht
  obtain ⟨hlt, hbeq⟩ := List.getElem?_eq_some_iff.mp hb
  have hlt' : t.declaration.pattern < bound.length := hbound.length_eq ▸ hlt
  have halike := (List.forall₂_iff_get.mp hbound).2 t.declaration.pattern hlt hlt'
  simp only [List.get_eq_getElem, hbeq] at halike
  obtain ⟨f, f', hf, hf', hreads⟩ := halike
  have hlive : ∀ k ∈ bound, ∃ b, AlikeAt facts facts' b k := by
    intro k hk
    obtain ⟨i, hi, rfl⟩ := List.mem_iff_getElem.mp hk
    exact ⟨_, (List.forall₂_iff_get.mp hbound).2 i (hbound.length_eq ▸ hi) hi⟩
  have hget : bound[t.declaration.pattern]? = some bound[t.declaration.pattern] :=
    List.getElem?_eq_getElem hlt'
  have hread : (factsOf facts bound)[t.declaration.pattern]? = some f := by
    rw [getElem?_factsOf (fun k hk => ?_), hget, Option.bind_some, hf]
    obtain ⟨b, g, -, hg, -⟩ := hlive k hk
    exact ⟨g, hg⟩
  have hread' : (factsOf facts' bound)[t.declaration.pattern]? = some f' := by
    rw [getElem?_factsOf (fun k hk => ?_), hget, Option.bind_some, hf']
    obtain ⟨b, g, g', -, hg', -⟩ := hlive k hk
    exact ⟨g', hg'⟩
  rw [Declaration.read, Declaration.read, hread, hread']
  exact hreads _ hmem

/-- The key of a match is the same in both versions. -/
theorem leftKey_versions :
    e.condition.leftKey (factsOf facts bound) = e.condition.leftKey (factsOf facts' bound) :=
  JoinCondition.leftKey_congr (declarations_alike hnet hcut hbound)

omit hbound in
/-- The tests of a join read the candidate alike in both versions. -/
theorem candidates_alike {f f' : Fact} (h : VersionsAlike e f f') (t : JoinTest)
    (ht : t ∈ e.condition.tests) : ReadsAlike (t.accessor.read f) (t.accessor.read f') :=
  h _ ((hnet.rule r hcut.mem).reads before e later hcut.split t ht).1

omit hbound in
/-- The key of a fact is the same in both versions. -/
theorem rightKeyOf_versions {h : Handle} (ha : AlikeAt facts facts' e h) :
    rightKeyOf facts e h = rightKeyOf facts' e h := by
  obtain ⟨f, f', hf, hf', halike⟩ := ha
  rw [rightKeyOf, rightKeyOf, hf, hf']
  simp only
  rw [JoinCondition.rightKey_congr (candidates_alike hnet hcut halike)]

/-- A fact joins a match in both versions or in none, if the tests respect identity. -/
theorem joins_versions (hid : ∀ t ∈ e.condition.tests, t.RespectsIdentity) {h : Handle}
    (ha : AlikeAt facts facts' e h) : e.joins facts bound h = e.joins facts' bound h := by
  obtain ⟨f, f', hf, hf', halike⟩ := ha
  rw [Entry.joins, Entry.joins, hf, hf']
  exact JoinCondition.passes_congr hid (declarations_alike hnet hcut hbound)
    (candidates_alike hnet hcut halike)

end Joins

/-! ## States -/

section States

variable (hnet : net.WellFormed) {s : MatchState}
  (halike : ∀ e ∈ net.allEntries, ∀ h, s.holds e.node h = true → AlikeAt facts facts' e h)

include hnet halike

/-- The facts of a match read alike in both versions. -/
theorem Sound.alike_of_sink (hs : Sound net facts s) {x : TupleId} {t : Tuple}
    (hx : s.arena.get? x = some t) {r : CompiledRule} {before later : List Entry}
    (hcut : net.Cut r before later) (hsink : t.sink = r.sinkAfter later) :
    List.Forall₂ (AlikeAt facts facts') before (s.arena.handles x) := by
  have hheld := hs.held_of_sink hnet hx hcut hsink
  have hmem : ∀ e ∈ before, e ∈ net.allEntries := by
    intro e he
    obtain ⟨before₁, before₂, rfl⟩ := List.append_of_mem he
    have hsplit := hcut.split
    rw [List.append_assoc, List.cons_append] at hsplit
    exact mem_allEntries_iff.mpr ⟨r, before₁, _, hcut.mem, hsplit⟩
  clear hsink hcut
  generalize s.arena.handles x = hs' at hheld
  induction hheld with
  | nil => exact .nil
  | @cons e h es hs' hh _ ih =>
      exact .cons (halike e (hmem e List.mem_cons_self) h hh)
        (ih fun e' he' => hmem e' (List.mem_cons_of_mem e he'))

theorem Sound.joinFits_versions (hs : Sound net facts s) {e : Entry} (he : e ∈ net.allJoins)
    {m : JoinMemory} (hm : s.joins.get? e.node = some m) (h : JoinFits facts s.arena e m) :
    JoinFits facts' s.arena e m := by
  obtain ⟨r, b, before, later, hcut⟩ := mem_allJoins_iff.mp he
  have hin : ∀ k entry, m.rightEntries.get? k = some entry → AlikeAt facts facts' e k :=
    fun k entry hk => halike e (mem_allEntries_of_mem_allJoins he) k
      ((hs.coherent.holds_join_iff hnet he hm k).mpr ⟨entry, hk⟩)
  refine ⟨⟨h.left.holds.congr fun x hx => ?_, h.left.indexed, h.left.tuple_at⟩,
    ⟨h.right.holds.congr fun k hk => ?_, h.right.indexed, h.right.fact_at,
      fun k entry hk => (hin k entry hk).readable⟩, h.made⟩
  · obtain ⟨t, _, ht, hsink, _⟩ := (Arena.mem_storedAt hs.coherent.arena.valid).mp hx
    rw [leftKeyOf, leftKeyOf,
      leftKey_versions hnet hcut (hs.alike_of_sink hnet halike ht hcut hsink)]
  · obtain ⟨entry, hentry⟩ := (FiniteMap.mem_keys_iff _ _).mp hk
    exact rightKeyOf_versions hnet hcut (hin k entry hentry)

/-- **A sound state is sound for the new versions.** -/
theorem Sound.versions (hs : Sound net facts s) : Sound net facts' s := by
  refine ⟨⟨hs.coherent.arena, fun x t hx => ?_, hs.coherent.adapters, ⟨fun e he => ?_,
    hs.coherent.joins.only_sites⟩, hs.coherent.terminals⟩, hs.kept⟩
  · obtain ⟨r, before, e, later, hl⟩ := hs.coherent.lineage x t hx
    refine ⟨r, before, e, later, hl.cut, hl.sink, ?_, hl.root, hl.child⟩
    exact (hs.alike_of_sink hnet halike hx hl.cut.next hl.sink).imp fun _ _ h => h.readable
  · obtain ⟨m, hm, hfits⟩ := hs.coherent.joins.at_site e he
    exact ⟨m, hm, hs.joinFits_versions hnet halike he hm hfits⟩

/-- **An exact state is exact for the new versions, if the tests respect identity.** -/
theorem Exact.versions (hid : net.RespectsIdentity) (hs : Exact net facts s) :
    Exact net facts' s := by
  refine ⟨(hs.sound.versions hnet halike).coherent, fun x t hx => ?_⟩
  have hset := hs.settled x t hx
  refine ⟨hset.toKept, fun e he hsink h hh => ?_⟩
  obtain ⟨r, b, before, later, hcut⟩ := mem_allJoins_iff.mp he
  have hall := mem_allEntries_of_mem_allJoins he
  rw [← hset.joined e he hsink h hh, ← joins_versions hnet hcut
    (hs.sound.alike_of_sink hnet halike hx hcut hsink) (hid e hall) (halike e hall h hh)]

end States

end RuleMatching
