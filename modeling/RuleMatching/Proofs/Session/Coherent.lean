import RuleMatching.Proofs.Arena.Stored
import RuleMatching.Proofs.Memory
import RuleMatching.Proofs.Network.Shape
import RuleMatching.Session.Basic

set_option autoImplicit false

/-! # Coherent states

In a coherent state the memories of the nodes say the same as the arena. Every live tuple is a match
of the first entries of a rule, made of facts that the joins can read (`Lineage`); a join holds on
its left the tuples that wait there and on its right the facts that have entered, each under its
current key (`JoinFits`); a terminal holds the full matches (`TerminalFits`).

Coherence says nothing about which matches there should be. It also allows for what happens during a
call: a tuple that is not stored yet, and tuples whose last fact has left already. -/

namespace RuleMatching

open Network

/-- The key in an answer, if there is one. -/
def keyOf : Except ReadError (Option IndexKey) → Option IndexKey
  | .ok k => k
  | .error _ => none

/-- The key of a match at a join. -/
def leftKeyOf (facts : FactStore) (a : Arena) (e : Entry) (x : TupleId) : Option IndexKey :=
  keyOf (e.condition.leftKey (factsOf facts (a.handles x)))

/-- The key of a fact at a join. -/
def rightKeyOf (facts : FactStore) (e : Entry) (h : Handle) : Option IndexKey :=
  match facts.get? h with
  | some f => keyOf (e.condition.rightKey f)
  | none => none

/-- A live tuple is a match of the entries of a rule up to `e`. -/
structure Lineage (net : Network) (facts : FactStore) (a : Arena) (x : TupleId) (t : Tuple)
    (r : CompiledRule) (before : List Entry) (e : Entry) (later : List Entry) : Prop where
  cut : net.Cut r before (e :: later)
  sink : t.sink = r.sinkAfter later
  readable : List.Forall₂ (Readable facts) (before ++ [e]) (a.handles x)
  root : before = [] → t.parent = none ∧ t.origin = none
  child : before ≠ [] →
    t.origin = some e.node ∧ ∃ p u, t.parent = some p ∧ a.get? p = some u ∧ u.sink = e.node

/-- An adapter knows the match of one pattern of each of its facts. -/
structure AdapterFits (a : Arena) (r : CompiledRule) (m : AdapterMemory) : Prop where
  root : ∀ h x, m.roots.get? h = some x →
    ∃ t, a.get? x = some t ∧ t.parent = none ∧ t.handle = h ∧ t.sink = r.sinkAfter r.joins

/-- The left of a join holds the matches that wait there, under their keys. -/
structure LeftFits (facts : FactStore) (a : Arena) (e : Entry) (left : Memory TupleId) : Prop where
  holds : left.Holds (leftKeyOf facts a e) (a.storedAt e.node)
  indexed : left.isIndexed = e.condition.isIndexed
  tuple_at : ∀ x ∈ a.storedAt e.node, ∀ l, a.locationOf x = some l → left.at? l = some x

/-- The right of a join holds the facts that have entered, under their keys. -/
structure RightFits (facts : FactStore) (e : Entry) (right : Memory Handle)
    (entries : FiniteMap Handle RightEntry) : Prop where
  holds : right.Holds (rightKeyOf facts e) entries.keys
  indexed : right.isIndexed = e.condition.isIndexed
  fact_at : ∀ h entry, entries.get? h = some entry → right.at? entry.location = some h
  readable : ∀ h entry, entries.get? h = some entry → Readable facts e h

/-- A join knows the matches that it has made with each of its facts. -/
def MadeFits (a : Arena) (n : NodeId) (entries : FiniteMap Handle RightEntry) : Prop :=
  ∀ h entry, entries.get? h = some entry → entry.made = a.madeBy n h

structure JoinFits (facts : FactStore) (a : Arena) (e : Entry) (m : JoinMemory) : Prop where
  left : LeftFits facts a e m.left
  right : RightFits facts e m.right m.rightEntries
  made : MadeFits a e.node m.rightEntries

/-- A terminal holds the full matches. -/
structure TerminalFits (a : Arena) (r : CompiledRule) (m : TerminalMemory) : Prop where
  valid : m.tuples.Valid
  toList_eq : m.tuples.toList = a.storedAt r.terminal
  tuple_at : ∀ x ∈ a.storedAt r.terminal, ∀ l, a.locationOf x = some l →
    m.tuples.get? l.slot = some x

structure Coherent (net : Network) (facts : FactStore) (s : MatchState) : Prop where
  arena : s.arena.WellFormed
  lineage : ∀ x t, s.arena.get? x = some t → ∃ r before e later,
    Lineage net facts s.arena x t r before e later
  adapters : s.adapters.Covers net.rules (fun r => r.first.node) (AdapterFits s.arena)
  joins : s.joins.Covers net.allJoins Entry.node (JoinFits facts s.arena)
  terminals : s.terminals.Covers net.rules CompiledRule.terminal (TerminalFits s.arena)

variable {net : Network} {facts : FactStore} {s : MatchState}

namespace Coherent

variable (hnet : net.WellFormed) (hs : Coherent net facts s)

include hs

/-- The tuples that a terminal lists are those stored there. -/
theorem terminalTuples_eq {r : CompiledRule} (hr : r ∈ net.rules) :
    s.terminalTuples r.terminal = s.arena.storedAt r.terminal := by
  obtain ⟨m, hm, hfits⟩ := hs.terminals.at_site r hr
  rw [MatchState.terminalTuples, hm, Option.map_some, Option.getD_some, hfits.toList_eq]

/-! ## Nodes without a memory of a kind -/

theorem adapter_eq_none (hnet : net.WellFormed) {e : Entry} (he : e ∈ net.allJoins) :
    s.adapters.get? e.node = none :=
  hs.adapters.get?_eq_none fun _ hr h => hnet.join_ne_first he hr h.symm

theorem join_eq_none (hnet : net.WellFormed) {r : CompiledRule} (hr : r ∈ net.rules) :
    s.joins.get? r.first.node = none :=
  hs.joins.get?_eq_none fun _ he => hnet.join_ne_first he hr

theorem join_terminal_eq_none (hnet : net.WellFormed) {r : CompiledRule} (hr : r ∈ net.rules) :
    s.joins.get? r.terminal = none :=
  hs.joins.get?_eq_none fun _ he => hnet.join_ne_terminal he hr

theorem terminal_join_eq_none (hnet : net.WellFormed) {e : Entry} (he : e ∈ net.allJoins) :
    s.terminals.get? e.node = none :=
  hs.terminals.get?_eq_none fun _ hr h => hnet.join_ne_terminal he hr h.symm

theorem adapter_terminal_eq_none (hnet : net.WellFormed) {r : CompiledRule} (hr : r ∈ net.rules) :
    s.adapters.get? r.terminal = none :=
  hs.adapters.get?_eq_none fun _ hr' h => hnet.terminal_ne_first hr hr' h.symm

/-! ## Lineage -/

/-- A live tuple whose sink is known is a match of the entries before this sink. -/
theorem lineage_of_sink (hnet : net.WellFormed) {x : TupleId} {t : Tuple}
    (hx : s.arena.get? x = some t) {r : CompiledRule} {before later : List Entry}
    (hcut : net.Cut r before later) (hsink : t.sink = r.sinkAfter later) :
    ∃ before' e, before = before' ++ [e] ∧ Lineage net facts s.arena x t r before' e later := by
  obtain ⟨r', before', e, later', hl⟩ := hs.lineage x t hx
  obtain ⟨rfl, rfl, rfl⟩ := hnet.sink_inj hl.cut.next hcut (hl.sink.symm.trans hsink)
  exact ⟨before', e, rfl, hl⟩

/-- A live tuple whose last entry is known. -/
theorem lineage_of_next (hnet : net.WellFormed) {x : TupleId} {t : Tuple}
    (hx : s.arena.get? x = some t) {r : CompiledRule} {before later : List Entry} {e : Entry}
    (hcut : net.Cut r before (e :: later)) (hsink : t.sink = r.sinkAfter later) :
    Lineage net facts s.arena x t r before e later := by
  obtain ⟨r', before', e', later', hl⟩ := hs.lineage x t hx
  obtain ⟨rfl, rfl, rfl, rfl⟩ := hnet.next_inj hl.cut hcut (hl.sink.symm.trans hsink)
  exact hl

/-- Where a match waits there is a join. -/
theorem join_of_sink (hnet : net.WellFormed) {x : TupleId} {t : Tuple}
    (hx : s.arena.get? x = some t) {r : CompiledRule} {before later : List Entry} {e : Entry}
    (hcut : net.Cut r before (e :: later)) (hsink : t.sink = e.node) : e ∈ net.allJoins := by
  obtain ⟨before', b, rfl, -⟩ := hs.lineage_of_sink hnet hx hcut hsink
  exact hcut.join (by simp)

/-- **Induction over a match**, from its first fact on: what holds of the matches of one pattern,
and of an extension if it holds of its parent, holds of every match. -/
theorem match_induction (hnet : net.WellFormed)
    {C : TupleId → Tuple → CompiledRule → List Entry → List Entry → Prop}
    (root : ∀ x t r, s.arena.get? x = some t → Lineage net facts s.arena x t r [] r.first r.joins →
      C x t r [r.first] r.joins)
    (child : ∀ x t q u r before e later, s.arena.get? x = some t →
      Lineage net facts s.arena x t r before e later → before ≠ [] → t.parent = some q →
      s.arena.get? q = some u → u.sink = e.node → C q u r before (e :: later) →
      C x t r (before ++ [e]) later)
    {x : TupleId} {t : Tuple} (hx : s.arena.get? x = some t) {r : CompiledRule}
    {before later : List Entry} (hcut : net.Cut r before later)
    (hsink : t.sink = r.sinkAfter later) : C x t r before later := by
  -- The sink of a match says where in the chain it is, so the induction is on ancestors alone.
  refine Arena.ancestor_induction hs.arena (C := fun x => ∀ t r before later,
    s.arena.get? x = some t →
    net.Cut r before later → t.sink = r.sinkAfter later → C x t r before later) ?_ hx t r
      before later hx
    hcut hsink
  intro y u hy ih u' r before later hy' hcut hsink
  rw [hy, Option.some.injEq] at hy'
  subst hy'
  obtain ⟨before', e, rfl, hl⟩ := hs.lineage_of_sink hnet hy hcut hsink
  rcases eq_or_ne before' [] with rfl | hb
  · obtain ⟨rfl, rfl⟩ := hl.cut.eq_first
    exact root y u r hy hl
  · obtain ⟨-, q, v, hq, hv, hvsink⟩ := hl.child hb
    exact child y u q v r before' e later hy hl hb hq hv hvsink
      (ih q hq v r before' (e :: later) hv hl.cut hvsink)

/-- The facts of a match can be read at their entries. -/
theorem readable_of_sink (hnet : net.WellFormed) {x : TupleId} {t : Tuple}
    (hx : s.arena.get? x = some t) {r : CompiledRule} {before later : List Entry}
    (hcut : net.Cut r before later) (hsink : t.sink = r.sinkAfter later) :
    List.Forall₂ (Readable facts) before (s.arena.handles x) := by
  obtain ⟨_, _, rfl, hl⟩ := hs.lineage_of_sink hnet hx hcut hsink
  exact hl.readable

theorem parent_live {x p : TupleId} {t : Tuple} (hx : s.arena.get? x = some t)
    (hp : t.parent = some p) :
    ∃ u, s.arena.get? p = some u := Arena.parent_live hs.arena hx hp

/-- An extension is made by the join where its parent waits. -/
theorem lineage_of_parent {x q : TupleId} {t u : Tuple} (hx : s.arena.get? x = some t)
    (hp : t.parent = some q) (hq : s.arena.get? q = some u) : ∃ r before e later,
      Lineage net facts s.arena x t r before e later ∧ t.origin = some e.node ∧
      u.sink = e.node := by
  obtain ⟨r, before, e, later, hl⟩ := hs.lineage x t hx
  have hb : before ≠ [] := by
    rintro rfl
    rw [(hl.root rfl).1] at hp
    cases hp
  obtain ⟨horigin, q', u', hq', hu', hsink⟩ := hl.child hb
  rw [hp, Option.some.injEq] at hq'
  rw [← hq', hq, Option.some.injEq] at hu'
  exact ⟨r, before, e, later, hl, horigin, hu' ▸ hsink⟩

theorem origin_eq_sink {x q : TupleId} {t u : Tuple} (hx : s.arena.get? x = some t)
    (hp : t.parent = some q) (hq : s.arena.get? q = some u) : t.origin = some u.sink := by
  obtain ⟨_, _, _, _, -, horigin, hsink⟩ := hs.lineage_of_parent hx hp hq
  rw [horigin, hsink]

/-- An extension goes on to the next place of the chain. -/
theorem sink_of_parent (hnet : net.WellFormed) {x q : TupleId} {t u : Tuple}
    (hx : s.arena.get? x = some t) (hp : t.parent = some q) (hq : s.arena.get? q = some u)
    {r : CompiledRule} {before later : List Entry} {e : Entry}
    (hcut : net.Cut r before (e :: later)) (hsink : u.sink = e.node) :
    t.sink = r.sinkAfter later := by
  obtain ⟨_, _, _, _, hl, -, hsink'⟩ := hs.lineage_of_parent hx hp hq
  obtain ⟨rfl, -, -, rfl⟩ := hnet.entry_inj hl.cut hcut (hsink'.symm.trans hsink)
  exact hl.sink

/-- A tuple without parent is a match of the first pattern. -/
theorem root_lineage {x : TupleId} {t : Tuple} (hx : s.arena.get? x = some t)
    (hp : t.parent = none) :
    ∃ r ∈ net.rules, t.sink = r.sinkAfter r.joins ∧ s.arena.handles x = [t.handle] ∧
      t.origin = none ∧ Readable facts r.first t.handle := by
  obtain ⟨r, before, e, later, hl⟩ := hs.lineage x t hx
  by_cases hb : before = []
  · subst hb
    obtain ⟨rfl, rfl⟩ := hl.cut.eq_first
    have hh := Arena.handles_root hs.arena hx hp
    have hread := hl.readable
    rw [hh, List.nil_append] at hread
    cases hread with
    | cons hfirst _ => exact ⟨r, hl.cut.mem, hl.sink, hh, (hl.root rfl).2, hfirst⟩
  · obtain ⟨_, p, _, hp', _⟩ := hl.child hb
    rw [hp] at hp'
    cases hp'

end Coherent

/-! ## Keys of readable matches and facts -/

section Keys

variable {r : CompiledRule} {before later : List Entry} {e : Entry}

theorem leftKey_eq_ok (hnet : net.WellFormed) (hcut : net.Cut r before (e :: later))
    {hs : List Handle} (h : List.Forall₂ (Readable facts) before hs) :
    e.condition.leftKey (factsOf facts hs) = .ok (keyOf (e.condition.leftKey (factsOf facts hs))) ∧
      (keyOf (e.condition.leftKey (factsOf facts hs))).isSome = e.condition.isIndexed := by
  have hb : e.condition.BoundReadable (factsOf facts hs) :=
    boundReadable_of_forall₂ (hnet.rule r hcut.mem) hcut.split (factsOf_eq_of_forall₂ h).2
  have hk := JoinCondition.leftKey_eq hb
  have hok : e.condition.leftKey (factsOf facts hs) =
      .ok (keyOf (e.condition.leftKey (factsOf facts hs))) := by
    rw [hk]
    rfl
  exact ⟨hok, JoinCondition.leftKey_isSome hok hb⟩

theorem rightKey_eq_ok (hnet : net.WellFormed) (hcut : net.Cut r before (e :: later)) {h : Handle}
    {f : Fact} (hf : facts.get? h = some f) (hread : tryReads f e.reads = .ok ()) :
    e.condition.rightKey f = .ok (rightKeyOf facts e h) ∧
      (rightKeyOf facts e h).isSome = e.condition.isIndexed := by
  have hc := candidateReadable_of_tryReads (hnet.rule r hcut.mem) hcut.split hread
  have hk := JoinCondition.rightKey_eq hc
  have hok : e.condition.rightKey f = .ok (rightKeyOf facts e h) := by
    have hkey : rightKeyOf facts e h = keyOf (e.condition.rightKey f) := by rw [rightKeyOf, hf]
    rw [hkey, hk]
    rfl
  exact ⟨hok, JoinCondition.rightKey_isSome hok hc⟩

end Keys

/-! ## Parts that a change of the arena leaves -/

section Frame

variable {a a' : Arena}

/-- A tuple keeps its lineage if it and its parent stay. -/
theorem Lineage.stays {x : TupleId} {t t' : Tuple} {r : CompiledRule} {before later : List Entry}
    {e : Entry} (h : Lineage net facts a x t r before e later) (hx : Arena.Stays a a' x t t')
    (hp : ∀ p u, t.parent = some p → a.get? p = some u → ∃ u', Arena.Stays a a' p u u') :
    Lineage net facts a' x t' r before e later := by
  refine ⟨h.cut, hx.sink.trans h.sink, hx.handles ▸ h.readable, fun hb => ?_, fun hb => ?_⟩
  · rw [hx.parent, hx.origin]
    exact h.root hb
  · obtain ⟨horigin, p, u, hpar, hu, hsink⟩ := h.child hb
    obtain ⟨u', hu'⟩ := hp p u hpar hu
    exact ⟨hx.origin.trans horigin, p, u', hx.parent.trans hpar, hu'.after, hu'.sink.trans hsink⟩

theorem AdapterFits.stays {r : CompiledRule} {m : AdapterMemory} (h : AdapterFits a r m)
    (hx : ∀ h x t, m.roots.get? h = some x → a.get? x = some t → ∃ t', Arena.Stays a a' x t t') :
    AdapterFits a' r m := by
  refine ⟨fun k x hk => ?_⟩
  obtain ⟨t, ht, hp, hh, hsink⟩ := h.root k x hk
  obtain ⟨t', ht'⟩ := hx k x t hk ht
  exact ⟨t', ht'.after, ht'.parent.trans hp, ht'.handle.trans hh, ht'.sink.trans hsink⟩

theorem LeftFits.frame {e : Entry} {left : Memory TupleId} (h : LeftFits facts a e left)
    (hstored : a'.storedAt e.node = a.storedAt e.node)
    (hx : ∀ x ∈ a.storedAt e.node, a'.handles x = a.handles x ∧ a'.locationOf x = a.locationOf x) :
    LeftFits facts a' e left := by
  refine ⟨?_, h.indexed, fun x hmem l hl => ?_⟩
  · rw [hstored]
    exact h.holds.congr fun x hmem => by rw [leftKeyOf, leftKeyOf, (hx x hmem).1]
  · rw [hstored] at hmem
    rw [(hx x hmem).2] at hl
    exact h.tuple_at x hmem l hl

theorem MadeFits.frame {n : NodeId} {entries : FiniteMap Handle RightEntry}
    (h : MadeFits a n entries) (hmade : ∀ h, a'.madeBy n h = a.madeBy n h) :
    MadeFits a' n entries := by
  intro k entry hk
  rw [hmade]
  exact h k entry hk

/-- A join whose lists of tuples are as before still fits. -/
theorem JoinFits.frame {e : Entry} {m : JoinMemory} (h : JoinFits facts a e m)
    (hstored : a'.storedAt e.node = a.storedAt e.node)
    (hx : ∀ x ∈ a.storedAt e.node, a'.handles x = a.handles x ∧ a'.locationOf x = a.locationOf x)
    (hmade : ∀ h, a'.madeBy e.node h = a.madeBy e.node h) : JoinFits facts a' e m :=
  ⟨h.left.frame hstored hx, h.right, h.made.frame hmade⟩

theorem TerminalFits.frame {r : CompiledRule} {m : TerminalMemory} (h : TerminalFits a r m)
    (hstored : a'.storedAt r.terminal = a.storedAt r.terminal)
    (hx : ∀ x ∈ a.storedAt r.terminal, a'.locationOf x = a.locationOf x) : TerminalFits a' r m := by
  refine ⟨h.valid, by rw [hstored, h.toList_eq], fun x hmem l hl => ?_⟩
  rw [hstored] at hmem
  rw [hx x hmem] at hl
  exact h.tuple_at x hmem l hl

end Frame

end RuleMatching
