import Mathlib.Data.List.Flatten
import Mathlib.Data.List.Nodup
import Mathlib.Data.List.Pairwise
import RuleMatching.FactStore
import RuleMatching.Network.Basic
import RuleMatching.Proofs.JoinCondition

set_option autoImplicit false

/-! # Well-formed networks

In a well-formed network every node stands at one place (`Network.WellFormed.sink_inj`,
`Network.WellFormed.entry_inj`), the search for a node finds its place
(`Network.WellFormed.place?_eq`), and every field that a join reads is among the reads of the entry
whose fact it reads. Facts that pass the checks of their entries can therefore be read by every join
(`Network.boundReadable_of_forall₂`). -/

namespace RuleMatching

/-- The nodes of a rule that store something. -/
def CompiledRule.nodes (r : CompiledRule) : List NodeId := r.entries.map Entry.node ++ [r.terminal]

theorem CompiledRule.sublist_nodes (rules : List CompiledRule) :
    ((rules.flatMap entries).map Entry.node).Sublist (rules.flatMap nodes) := by
  rw [List.map_flatMap]
  exact List.Sublist.flatMap_right _ fun r _ => List.sublist_append_left _ _

/-- The chain of entries of a rule is as its compilation makes it. -/
structure CompiledRule.WellFormed (r : CompiledRule) : Prop where
  position : ∀ before e later, r.entries = before ++ e :: later → e.position = before.length
  first_tests : r.first.condition.tests = []
  indexable : ∀ e ∈ r.entries, e.condition.Indexable
  /-- The joins read no fields but those that are listed at the entries. -/
  reads : ∀ before e later, r.entries = before ++ e :: later → ∀ t ∈ e.condition.tests,
    ⟨e.node, t.accessor⟩ ∈ e.reads ∧
      ∃ b, before[t.declaration.pattern]? = some b ∧ ⟨e.node, t.declaration.accessor⟩ ∈ b.reads

namespace Network

structure WellFormed (net : Network) : Prop where
  nodup_nodes : (net.rules.flatMap CompiledRule.nodes).Nodup
  rule : ∀ r ∈ net.rules, r.WellFormed
  nodup_entriesFor : ∀ T, (net.entriesFor T).Nodup
  /-- The routes for a type lead to entries of this type. -/
  mem_entriesFor : ∀ T, ∀ n ∈ net.entriesFor T, ∃ e ∈ net.allEntries, e.node = n ∧ e.factType = T

/-- The tests of all joins answer alike on identical values. -/
def RespectsIdentity (net : Network) : Prop :=
  ∀ e ∈ net.allEntries, ∀ t ∈ e.condition.tests, t.RespectsIdentity

/-- The chain of entries of a rule of the network, cut into two parts. -/
structure Cut (net : Network) (r : CompiledRule) (before later : List Entry) : Prop where
  mem : r ∈ net.rules
  split : r.entries = before ++ later

variable {net : Network}

theorem mem_allEntries_iff {e : Entry} :
    e ∈ net.allEntries ↔ ∃ r before later, net.Cut r before (e :: later) := by
  simp only [allEntries, List.mem_flatMap]
  constructor
  · rintro ⟨r, hr, he⟩
    obtain ⟨before, later, h⟩ := List.append_of_mem he
    exact ⟨r, before, later, hr, h⟩
  · rintro ⟨r, before, later, hr, h⟩
    exact ⟨r, hr, h ▸ by simp⟩

/-- A join is an entry with another one before it. -/
theorem mem_allJoins_iff {e : Entry} :
    e ∈ net.allJoins ↔ ∃ r b before later, net.Cut r (b :: before) (e :: later) := by
  simp only [allJoins, List.mem_flatMap]
  constructor
  · rintro ⟨r, hr, he⟩
    obtain ⟨before, later, h⟩ := List.append_of_mem he
    exact ⟨r, r.first, before, later, hr, by rw [CompiledRule.entries, h]; rfl⟩
  · rintro ⟨r, b, before, later, hr, h⟩
    rw [CompiledRule.entries, List.cons_append, List.cons.injEq] at h
    exact ⟨r, hr, h.2 ▸ by simp⟩

theorem Cut.first {r : CompiledRule} (hr : r ∈ net.rules) : net.Cut r [] (r.first :: r.joins) :=
  ⟨hr, rfl⟩

/-- A chain can be cut at each position. -/
theorem Cut.of_getElem? {r : CompiledRule} (hr : r ∈ net.rules) {i : Nat} {e : Entry}
    (he : r.entries[i]? = some e) : net.Cut r (r.entries.take i) (e :: r.entries.drop (i + 1)) := by
  obtain ⟨hi, rfl⟩ := List.getElem?_eq_some_iff.mp he
  exact ⟨hr, by rw [← List.drop_eq_getElem_cons hi, List.take_append_drop]⟩

theorem Cut.terminal {r : CompiledRule} (hr : r ∈ net.rules) : net.Cut r r.entries [] :=
  ⟨hr, (List.append_nil _).symm⟩

/-- A chain starts with the first entry of its rule. -/
theorem Cut.eq_first {r : CompiledRule} {later : List Entry} {e : Entry}
    (h : net.Cut r [] (e :: later)) :
    r.first = e ∧ r.joins = later := List.cons.inj h.split

theorem Cut.mem_joins {r : CompiledRule} {before later : List Entry} {e : Entry}
    (h : net.Cut r before (e :: later)) (hb : before ≠ []) : e ∈ r.joins := by
  cases before with
  | nil => exact absurd rfl hb
  | cons b before =>
      have hjoins : r.joins = before ++ e :: later := (List.cons.inj h.split).2
      rw [hjoins]
      exact List.mem_append_right _ List.mem_cons_self

theorem Cut.join {r : CompiledRule} {before later : List Entry} {e : Entry}
    (h : net.Cut r before (e :: later)) (hb : before ≠ []) : e ∈ net.allJoins :=
  List.mem_flatMap.mpr ⟨r, h.mem, h.mem_joins hb⟩

theorem mem_allEntries_of_mem_allJoins {e : Entry} (h : e ∈ net.allJoins) : e ∈ net.allEntries := by
  obtain ⟨r, b, before, later, hcut⟩ := mem_allJoins_iff.mp h
  exact mem_allEntries_iff.mpr ⟨r, b :: before, later, hcut⟩

theorem Cut.next {r : CompiledRule} {before later : List Entry} {e : Entry}
    (h : net.Cut r before (e :: later)) : net.Cut r (before ++ [e]) later :=
  ⟨h.mem, by rw [h.split, List.append_assoc]; rfl⟩

/-! ## Searching a chain -/

theorem splitAt?_eq {chain before later : List Entry} {e : Entry}
    (hn : (chain.map Entry.node).Nodup) (h : chain = before ++ e :: later) :
    splitAt? e.node chain = some (e, later) := by
  subst h
  induction before with
  | nil => simp [splitAt?]
  | cons b rest ih =>
      rw [List.cons_append, List.map_cons, List.nodup_cons] at hn
      have hne : b.node ≠ e.node := fun heq => hn.1 (by rw [heq]; simp)
      rw [List.cons_append, splitAt?, if_neg hne]
      exact ih hn.2

theorem splitAt?_eq_none {chain : List Entry} {n : NodeId} (h : n ∉ chain.map Entry.node) :
    splitAt? n chain = none := by
  induction chain with
  | nil => rfl
  | cons e rest ih =>
      rw [List.map_cons, List.mem_cons, not_or] at h
      rw [splitAt?, if_neg fun heq => h.1 heq.symm]
      exact ih h.2

theorem of_splitAt?_eq_some {chain later : List Entry} {n : NodeId} {e : Entry}
    (h : splitAt? n chain = some (e, later)) :
    e.node = n ∧ ∃ before, chain = before ++ e :: later := by
  induction chain with
  | nil => cases h
  | cons b rest ih =>
      rw [splitAt?] at h
      split at h
      · next hb =>
        obtain ⟨rfl, rfl⟩ := Prod.mk.inj (Option.some.inj h)
        exact ⟨hb, [], rfl⟩
      · obtain ⟨hn, before, hbefore⟩ := ih h
        exact ⟨hn, b :: before, by rw [hbefore]; rfl⟩

namespace WellFormed

variable (hnet : net.WellFormed)

include hnet

/-! ## Places -/

/-- A node belongs to one rule. -/
theorem rule_inj {r r' : CompiledRule} (hr : r ∈ net.rules) (hr' : r' ∈ net.rules) {n : NodeId}
    (h : n ∈ r.nodes) (h' : n ∈ r'.nodes) : r = r' := by
  by_contra hne
  have hdis := (List.nodup_flatMap.mp hnet.nodup_nodes).2
  have : Std.Symm (Function.onFun List.Disjoint CompiledRule.nodes) :=
    ⟨fun _ _ h _ ha hb => h hb ha⟩
  exact hdis.forall hr hr' hne h h'

theorem nodup_entry_nodes {r : CompiledRule} (hr : r ∈ net.rules) :
    (r.entries.map Entry.node).Nodup :=
  ((List.nodup_append.mp ((List.nodup_flatMap.mp hnet.nodup_nodes).1 r hr)).1)

theorem terminal_ne {r : CompiledRule} (hr : r ∈ net.rules) {e : Entry} (he : e ∈ r.entries) :
    e.node ≠ r.terminal :=
  (List.nodup_append.mp ((List.nodup_flatMap.mp hnet.nodup_nodes).1 r hr)).2.2 _
    (List.mem_map_of_mem he) _ (by simp)

/-- **A node is the entry at one place.** -/
theorem entry_inj {r r' : CompiledRule} {before before' later later' : List Entry} {e e' : Entry}
    (h : net.Cut r before (e :: later)) (h' : net.Cut r' before' (e' :: later'))
    (hn : e.node = e'.node) : r = r' ∧ before = before' ∧ e = e' ∧ later = later' := by
  have hr : r = r' := by
    refine hnet.rule_inj h.mem h'.mem (n := e.node) ?_ ?_
    · exact List.mem_append_left _ (List.mem_map_of_mem (by rw [h.split]; simp))
    · exact hn ▸ List.mem_append_left _ (List.mem_map_of_mem (by rw [h'.split]; simp))
  subst hr
  have hs := splitAt?_eq (hnet.nodup_entry_nodes h.mem) h.split
  rw [hn, splitAt?_eq (hnet.nodup_entry_nodes h.mem) h'.split, Option.some.injEq,
    Prod.mk.injEq] at hs
  obtain ⟨rfl, rfl⟩ := hs
  refine ⟨rfl, ?_, rfl, rfl⟩
  exact List.append_cancel_right (h.split.symm.trans h'.split)

/-- **A node receives the matches of the entries before one place.** -/
theorem sink_inj {r r' : CompiledRule} {before before' later later' : List Entry}
    (h : net.Cut r before later) (h' : net.Cut r' before' later')
    (hn : r.sinkAfter later = r'.sinkAfter later') :
    r = r' ∧ before = before' ∧ later = later' := by
  -- No node is in two rules, and a terminal is not the node of an entry.
  have hterminal : ∀ {r : CompiledRule}, r.terminal ∈ r.nodes :=
    fun {r} => by simp [CompiledRule.nodes]
  have hentry : ∀ {r : CompiledRule} {before later : List Entry} {e : Entry},
      net.Cut r before (e :: later) → e ∈ r.entries ∧ e.node ∈ r.nodes := by
    intro r before later e h
    have he : e ∈ r.entries := by rw [h.split]; simp
    exact ⟨he, List.mem_append_left _ (List.mem_map_of_mem he)⟩
  cases later with
  | nil =>
      cases later' with
      | nil =>
          have hr :=
            hnet.rule_inj h.mem h'.mem hterminal
            (by rw [show r.terminal = _ from hn]; exact hterminal)
          subst hr
          exact ⟨rfl, List.append_cancel_right (h.split.symm.trans h'.split), rfl⟩
      | cons e' later' =>
          obtain ⟨he, hmem⟩ := hentry h'
          have hr :=
            hnet.rule_inj h.mem h'.mem hterminal (by rw [show r.terminal = _ from hn]; exact hmem)
          subst hr
          exact absurd hn.symm (hnet.terminal_ne h'.mem he)
  | cons e later =>
      cases later' with
      | nil =>
          obtain ⟨he, hmem⟩ := hentry h
          have hr :=
            hnet.rule_inj h.mem h'.mem hmem (by rw [show e.node = _ from hn]; exact hterminal)
          subst hr
          exact absurd hn (hnet.terminal_ne h.mem he)
      | cons e' later' =>
          obtain ⟨rfl, rfl, rfl, rfl⟩ := hnet.entry_inj h h' hn
          exact ⟨rfl, rfl, rfl⟩

/-- A node receives the matches up to one entry. -/
theorem next_inj {r r' : CompiledRule} {before before' later later' : List Entry} {e e' : Entry}
    (h : net.Cut r before (e :: later)) (h' : net.Cut r' before' (e' :: later'))
    (hn : r.sinkAfter later = r'.sinkAfter later') :
    r = r' ∧ before = before' ∧ e = e' ∧ later = later' := by
  obtain ⟨hr, hb, hl⟩ := hnet.sink_inj h.next h'.next hn
  obtain ⟨hbefore, he⟩ := List.append_inj' hb rfl
  exact ⟨hr, hbefore, List.singleton_inj.mp he, hl⟩

theorem eq_of_node_eq {e e' : Entry} (he : e ∈ net.allEntries) (he' : e' ∈ net.allEntries)
    (hn : e.node = e'.node) : e = e' := by
  obtain ⟨r, before, later, h⟩ := mem_allEntries_iff.mp he
  obtain ⟨r', before', later', h'⟩ := mem_allEntries_iff.mp he'
  exact (hnet.entry_inj h h' hn).2.2.1

/-- **The search for a node finds its place.** -/
theorem place?_eq {r : CompiledRule} {before later : List Entry} {e : Entry}
    (h : net.Cut r before (e :: later)) : net.place? e.node = some ⟨r, e, later⟩ := by
  unfold place?
  obtain ⟨rs, rs', hrs⟩ := List.append_of_mem h.mem
  rw [hrs, List.findSome?_append]
  have hnone :
      rs.findSome? (fun r => (splitAt? e.node r.entries).map fun x => Place.mk r x.1 x.2) =
      none := by
    rw [List.findSome?_eq_none_iff]
    intro r' hr'
    have hdis := (List.nodup_flatMap.mp hnet.nodup_nodes).2
    rw [hrs, List.pairwise_append] at hdis
    have hnot : e.node ∉ r'.entries.map Entry.node := fun hmem =>
      hdis.2.2 r' hr' r (by simp) (List.mem_append_left _ hmem)
        (List.mem_append_left _ (List.mem_map_of_mem (by rw [h.split]; simp)))
    rw [splitAt?_eq_none hnot]
    rfl
  rw [hnone, Option.none_or, List.findSome?_cons,
    splitAt?_eq (hnet.nodup_entry_nodes h.mem) h.split]
  rfl

omit hnet in
theorem cut_of_place? {n : NodeId} {place : Place} (h : net.place? n = some place) :
    place.entry.node = n ∧ ∃ before, net.Cut place.rule before (place.entry :: place.later) := by
  obtain ⟨r, hr, hmap⟩ := List.exists_of_findSome?_eq_some h
  obtain ⟨⟨e, later⟩, hs, rfl⟩ := Option.map_eq_some_iff.mp hmap
  obtain ⟨hn, before, hsplit⟩ := of_splitAt?_eq_some hs
  exact ⟨hn, before, hr, hsplit⟩

theorem entry?_eq {e : Entry} (he : e ∈ net.allEntries) : net.entry? e.node = some e := by
  unfold entry?
  cases hf : net.allEntries.find? (·.node == e.node) with
  | none =>
      have := List.find?_eq_none.mp hf e he
      simp at this
  | some e' =>
      have hn := List.find?_some hf
      rw [beq_iff_eq] at hn
      rw [hnet.eq_of_node_eq (List.mem_of_find?_eq_some hf) he hn]

/-- The adapter is the entry at position zero. -/
theorem position_eq_zero_iff {r : CompiledRule} {before later : List Entry} {e : Entry}
    (h : net.Cut r before (e :: later)) : e.position = 0 ↔ before = [] := by
  rw [(hnet.rule r h.mem).position before e later h.split, List.length_eq_zero_iff]

/-- An entry is the adapter of its rule or one of its joins. -/
theorem first_or_join {r : CompiledRule} {before later : List Entry} {e : Entry}
    (h : net.Cut r before (e :: later)) :
    (e.position = 0 ∧ r.first = e ∧ r.joins = later) ∨ (e.position ≠ 0 ∧ e ∈ net.allJoins) := by
  rcases eq_or_ne before [] with rfl | hb
  · exact Or.inl ⟨(hnet.position_eq_zero_iff h).mpr rfl, h.eq_first⟩
  · exact Or.inr ⟨mt (hnet.position_eq_zero_iff h).mp hb, h.join hb⟩

/-! ## Nodes of different kinds -/

theorem first_inj {r r' : CompiledRule} (hr : r ∈ net.rules) (hr' : r' ∈ net.rules)
    (h : r'.first.node = r.first.node) : r' = r :=
  (hnet.entry_inj (Cut.first hr') (Cut.first hr) h).1

theorem terminal_inj {r r' : CompiledRule} (hr : r ∈ net.rules) (hr' : r' ∈ net.rules)
    (h : r'.terminal = r.terminal) : r' = r :=
  (hnet.sink_inj (Cut.terminal hr') (Cut.terminal hr) h).1

theorem join_inj {e e' : Entry} (he : e ∈ net.allJoins) (he' : e' ∈ net.allJoins)
    (h : e'.node = e.node) : e' = e :=
  hnet.eq_of_node_eq (mem_allEntries_of_mem_allJoins he') (mem_allEntries_of_mem_allJoins he) h

/-- A join is no terminal. -/
theorem join_ne_terminal {e : Entry} (he : e ∈ net.allJoins) {r : CompiledRule}
    (hr : r ∈ net.rules) : e.node ≠ r.terminal := by
  obtain ⟨r', b, before, later, hcut⟩ := mem_allJoins_iff.mp he
  intro h
  cases (hnet.sink_inj hcut (Cut.terminal hr) h).2.2

/-- A join is no adapter. -/
theorem join_ne_first {e : Entry} (he : e ∈ net.allJoins) {r : CompiledRule} (hr : r ∈ net.rules) :
    e.node ≠ r.first.node := by
  obtain ⟨r', b, before, later, hcut⟩ := mem_allJoins_iff.mp he
  intro h
  cases (hnet.entry_inj hcut (Cut.first hr) h).2.1

/-- A terminal is no adapter. -/
theorem terminal_ne_first {r r' : CompiledRule} (hr : r ∈ net.rules) (hr' : r' ∈ net.rules) :
    r.terminal ≠ r'.first.node := by
  intro h
  cases (hnet.sink_inj (Cut.terminal hr) (Cut.first hr') h).2.2

end WellFormed

/-! ## Facts that the joins can read -/

theorem tryReads_eq_ok_iff {f : Fact} {reads : List FieldRead} :
    tryReads f reads = .ok () ↔ ∀ r ∈ reads, ∃ v, r.accessor.read f = .ok v := by
  induction reads with
  | nil => simp [tryReads]
  | cons r rest ih =>
      rw [tryReads]
      cases hr : r.accessor.read f with
      | ok v => simp [ih, hr]
      | error cause => simp [hr]

/-- The fact is live and can be read by the joins at the entry. -/
def Readable (facts : FactStore) (e : Entry) (h : Handle) : Prop :=
  ∃ f, facts.get? h = some f ∧ tryReads f e.reads = .ok ()

theorem Readable.tryReads_eq {facts : FactStore} {e : Entry} {h : Handle}
    (hread : Readable facts e h) {f : Fact} (hf : facts.get? h = some f) :
    tryReads f e.reads = .ok () := by
  obtain ⟨g, hg, hreads⟩ := hread
  rw [hf, Option.some.injEq] at hg
  rw [hg, hreads]

/-- The facts of the handles, as far as they are live. -/
def factsOf (facts : FactStore) (handles : List Handle) : List Fact := handles.filterMap facts.get?

/-- Of live handles every one has a fact. -/
theorem factsOf_eq_of_forall₂ {facts : FactStore} {es : List Entry} {hs : List Handle}
    (h : List.Forall₂ (Readable facts) es hs) :
    hs.map facts.get? = (factsOf facts hs).map some ∧
      List.Forall₂ (fun (e : Entry) f => tryReads f e.reads = .ok ()) es (factsOf facts hs) := by
  induction h with
  | nil => exact ⟨rfl, .nil⟩
  | @cons e x es hs hx _ ih =>
      obtain ⟨f, hf, hreads⟩ := hx
      have hcons : factsOf facts (x :: hs) = f :: factsOf facts hs := List.filterMap_cons_some hf
      rw [hcons, List.map_cons, List.map_cons, hf, ih.1]
      exact ⟨rfl, .cons hreads ih.2⟩

section Joins

variable {r : CompiledRule} {before later : List Entry} {e : Entry}

/-- **Facts that may be read at the entries before a join can be read by its tests.** -/
theorem boundReadable_of_forall₂ (hr : r.WellFormed) (hsplit : r.entries = before ++ e :: later)
    {bound : List Fact}
    (h : List.Forall₂ (fun (b : Entry) f => tryReads f b.reads = .ok ()) before bound) :
    e.condition.BoundReadable bound := by
  intro t ht
  obtain ⟨-, b, hb, hmem⟩ := hr.reads before e later hsplit t ht
  obtain ⟨hlt, hbeq⟩ := List.getElem?_eq_some_iff.mp hb
  have hlen : t.declaration.pattern < bound.length := h.length_eq ▸ hlt
  have hok := (List.forall₂_iff_get.mp h).2 t.declaration.pattern hlt hlen
  simp only [List.get_eq_getElem, hbeq] at hok
  obtain ⟨v, hv⟩ := tryReads_eq_ok_iff.mp hok _ hmem
  refine ⟨v, ?_⟩
  rw [Declaration.read, List.getElem?_eq_getElem hlen]
  exact hv

theorem candidateReadable_of_tryReads (hr : r.WellFormed)
    (hsplit : r.entries = before ++ e :: later) {f : Fact} (h : tryReads f e.reads = .ok ()) :
    e.condition.CandidateReadable f := by
  intro t ht
  obtain ⟨hmem, -⟩ := hr.reads before e later hsplit t ht
  exact tryReads_eq_ok_iff.mp h _ hmem

end Joins

end Network

end RuleMatching
