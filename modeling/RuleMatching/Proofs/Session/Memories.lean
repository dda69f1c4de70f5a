import Mathlib.Data.List.Flatten
import RuleMatching.Proofs.Session.Matches

set_option autoImplicit false

/-! # The memories of a session

After every run the memories hold exactly what they should: an adapter the one-fact matches of its
rule, the two sides of a join the matches that wait there and the facts that belong in, each under
its current key, and a terminal the full matches. All of them together hold every live tuple once
(`Session.memories_run`). -/

namespace RuleMatching

open Network

/-- The nodes where matches wait or end, rule by rule. -/
def Network.places (net : Network) : List NodeId :=
  net.rules.flatMap fun r => r.joins.map Entry.node ++ [r.terminal]

/-- The tuples that wait or end at the node. -/
def MatchState.tuplesAt (s : MatchState) (n : NodeId) : List TupleId :=
  ((s.joins.get? n).map (·.left.items)).getD [] ++ s.terminalTuples n

/-- A place is a join or a terminal, and its tuples are those that the arena has for it. -/
theorem Coherent.perm_tuplesAt {net : Network} (hnet : net.WellFormed) {facts : FactStore}
    {s : MatchState} (hs : Coherent net facts s) {n : NodeId} (hn : n ∈ net.places) :
    (s.tuplesAt n).Perm (s.arena.storedAt n) := by
  obtain ⟨r, hr, hn⟩ := List.mem_flatMap.mp hn
  rcases List.mem_append.mp hn with hn | hn
  · obtain ⟨e, he, rfl⟩ := List.mem_map.mp hn
    have hjoin : e ∈ net.allJoins := List.mem_flatMap.mpr ⟨r, hr, he⟩
    obtain ⟨m, hm, hfits⟩ := hs.joins.at_site e hjoin
    have hterminal := hs.terminal_join_eq_none hnet hjoin
    rw [MatchState.tuplesAt, MatchState.terminalTuples, hm, hterminal]
    simpa using hfits.left.holds.perm_items (Arena.nodup_storedAt hs.arena.valid _)
  · rw [List.mem_singleton.mp hn]
    have hjoin := hs.join_terminal_eq_none hnet hr
    rw [MatchState.tuplesAt, hs.terminalTuples_eq hr, hjoin]
    exact List.Perm.refl _

theorem Network.WellFormed.nodup_places {net : Network} (hnet : net.WellFormed) :
    net.places.Nodup :=
  hnet.nodup_nodes.sublist (List.Sublist.flatMap_right _ fun _ _ => List.sublist_cons_self _ _)

section Sound

variable {net : Network} {facts : FactStore} {s : MatchState} (hs : Sound net facts s)

include hs

/-- A live tuple waits or ends at its sink. -/
theorem Sound.sink_mem_places {x : TupleId} {t : Tuple} (hx : s.arena.get? x = some t) :
    t.sink ∈ net.places ∧ x ∈ s.arena.storedAt t.sink := by
  refine ⟨?_, (Arena.mem_storedAt_of_get? hs.coherent.arena.valid hx).mpr ⟨rfl,
    (hs.kept x t hx).stored⟩⟩
  obtain ⟨r, before, e, later, hl⟩ := hs.coherent.lineage x t hx
  refine List.mem_flatMap.mpr ⟨r, hl.cut.mem, ?_⟩
  rw [hl.sink]
  cases later with
  | nil => exact List.mem_append_right _ (List.mem_singleton_self _)
  | cons e' later =>
      exact List.mem_append_left _ (List.mem_map_of_mem (hl.cut.next.mem_joins (by simp)))

/-- **The places hold every live tuple once.** -/
theorem Sound.perm_refs (hnet : net.WellFormed) :
    (net.places.flatMap s.tuplesAt).Perm s.arena.refs := by
  have hvalid := hs.coherent.arena.valid
  refine (List.Perm.flatMap_left _ fun n hn => hs.coherent.perm_tuplesAt hnet hn).trans ?_
  refine (List.perm_ext_iff_of_nodup ?_ hvalid.nodup_refs).mpr fun x => ?_
  · rw [List.nodup_flatMap]
    refine ⟨fun n _ => Arena.nodup_storedAt hvalid n, hnet.nodup_places.imp fun {n n'} hne => ?_⟩
    intro x hx hx'
    obtain ⟨t, _, ht, hsink, _⟩ := (Arena.mem_storedAt hvalid).mp hx
    obtain ⟨t', _, ht', hsink', _⟩ := (Arena.mem_storedAt hvalid).mp hx'
    rw [ht, Option.some.injEq] at ht'
    exact hne (hsink.symm.trans (ht' ▸ hsink'))
  · rw [List.mem_flatMap, SlotMap.mem_refs_iff hvalid]
    constructor
    · rintro ⟨n, -, hx⟩
      obtain ⟨t, _, ht, _, _⟩ := (Arena.mem_storedAt hvalid).mp hx
      exact ⟨t, ht⟩
    · rintro ⟨t, ht⟩
      exact ⟨t.sink, hs.sink_mem_places ht⟩

/-- The number of live tuples is the sum of the numbers of those at the places. -/
theorem Sound.size_eq (hnet : net.WellFormed) :
    s.arena.size = (net.places.map fun n => (s.arena.storedAt n).length).sum := by
  have hlen := (hs.perm_refs hnet).length_eq
  rw [List.length_flatMap, SlotMap.refs, List.length_map] at hlen
  rw [SlotMap.size, ← hlen]
  exact congrArg List.sum (List.map_congr_left fun n hn =>
    (hs.coherent.perm_tuplesAt hnet hn).length_eq)

end Sound

variable {s : Session}

namespace Session

/-- The key of a match at a join, as its facts now are. -/
def LeftKeyed (s : Session) (e : Entry) (x : TupleId) (k : Option IndexKey) : Prop :=
  e.condition.leftKey (factsOf s.facts (s.state.arena.handles x)) = .ok k

/-- The key of a fact at a join, as it now is. -/
def RightKeyed (s : Session) (e : Entry) (h : Handle) (k : Option IndexKey) : Prop :=
  ∃ f, s.facts.get? h = some f ∧ e.condition.rightKey f = .ok k

/-- The list has the matches of the entries, each once. -/
def Lists (s : Session) (es : List Entry) (tuples : List TupleId) : Prop :=
  (tuples.map s.state.arena.handles).Nodup ∧
    ∀ hs, hs ∈ tuples.map s.state.arena.handles ↔ s.network.IsMatch s.facts es hs

/-- What the memory of a join after the entries `before` holds. -/
structure JoinHolds (s : Session) (before : List Entry) (e : Entry) (m : JoinMemory) : Prop where
  left : s.Lists before m.left.items
  left_filed : m.left.Filed (s.LeftKeyed e)
  right_nodup : m.right.items.Nodup
  right : ∀ h, h ∈ m.right.items ↔ s.network.Admits s.facts e.node h
  right_filed : m.right.Filed (s.RightKeyed e)

/-- What the memory of the adapter of a rule holds. -/
structure AdapterHolds (s : Session) (r : CompiledRule) (m : AdapterMemory) : Prop where
  admits : ∀ h, (∃ x, m.roots.get? h = some x) ↔ s.network.Admits s.facts r.first.node h
  root : ∀ h x, m.roots.get? h = some x ↔ ∃ t, s.state.arena.get? x = some t ∧ t.parent = none ∧
    t.handle = h ∧ t.sink = r.sinkAfter r.joins

namespace Current

variable (hs : s.Consistent) (hc : s.Current)

include hs hc

/-! ## One node -/

/-- A list of the stored tuples in another order has the same matches. -/
theorem lists_of_perm {r : CompiledRule} {before later : List Entry}
    (hcut : s.network.Cut r before later) (hb : before ≠ []) {tuples : List TupleId}
    (hperm : tuples.Perm (s.state.arena.storedAt (r.sinkAfter later))) : s.Lists before tuples := by
  have hmap := hperm.map s.state.arena.handles
  refine ⟨hmap.nodup_iff.mpr (nodup_handles hs hc hcut), fun l => ?_⟩
  rw [hmap.mem_iff]
  exact mem_handles_iff hs hc hcut hb l

theorem joinHolds {r : CompiledRule} {before later : List Entry} {e : Entry}
    (hcut : s.network.Cut r before (e :: later)) (hb : before ≠ []) :
    ∃ m, s.state.joins.get? e.node = some m ∧ s.JoinHolds before e m := by
  have he := hcut.join hb
  obtain ⟨m, hm, hfits⟩ := hc.coherent.joins.at_site e he
  have hvalid := hc.coherent.arena.valid
  have hnodup := Arena.nodup_storedAt hvalid e.node
  have hkeys : m.rightEntries.keys.Nodup := m.rightEntries.nodup_keys
  refine ⟨m, hm, lists_of_perm hs hc hcut hb (hfits.left.holds.perm_items hnodup),
    hfits.left.holds.filed hnodup fun x hx k => ?_,
    (hfits.right.holds.perm_items hkeys).nodup_iff.mpr hkeys, fun h => ?_,
    hfits.right.holds.filed hkeys fun h hh k => ?_⟩
  -- The key under which a match was stored is the key that it has now.
  · obtain ⟨t, _, ht, hsink, _⟩ := (Arena.mem_storedAt hvalid).mp hx
    have hok :=
      (leftKey_eq_ok hs.network hcut (hc.coherent.readable_of_sink hs.network ht hcut hsink)).1
    rw [LeftKeyed, hok, Except.ok.injEq]
    exact eq_comm
  · rw [(hfits.right.holds.perm_items hkeys).mem_iff, FiniteMap.mem_keys_iff,
      ← hc.coherent.holds_join_iff hs.network he hm, hs.holds_iff_admits]
  · obtain ⟨entry, hentry⟩ := (FiniteMap.mem_keys_iff _ _).mp hh
    obtain ⟨f, hf, hread⟩ := hfits.right.readable h entry hentry
    have hok := (rightKey_eq_ok hs.network hcut hf hread).1
    constructor
    · rintro ⟨f', hf', hk⟩
      rw [hf, Option.some.injEq] at hf'
      subst hf'
      rw [hok, Except.ok.injEq] at hk
      exact hk.symm
    · rintro rfl
      exact ⟨f, hf, hok⟩

theorem terminalLists {r : CompiledRule} (hr : r ∈ s.network.rules) :
    ∃ m, s.state.terminals.get? r.terminal = some m ∧ s.Lists r.entries m.tuples.toList := by
  obtain ⟨m, hm, hfits⟩ := hc.coherent.terminals.at_site r hr
  refine ⟨m, hm, lists_of_perm hs hc (Cut.terminal hr) (List.cons_ne_nil _ _) ?_⟩
  rw [hfits.toList_eq]
  exact List.Perm.refl _

theorem adapterHolds {r : CompiledRule} (hr : r ∈ s.network.rules) :
    ∃ m, s.state.adapters.get? r.first.node = some m ∧ s.AdapterHolds r m := by
  obtain ⟨m, hm, hfits⟩ := hc.coherent.adapters.at_site r hr
  refine ⟨m, hm, fun h => ?_, fun h x => ⟨hfits.root h x, ?_⟩⟩
  · rw [← hc.coherent.holds_first_iff hs.network hr hm, hs.holds_iff_admits]
  · rintro ⟨t, ht, hp, rfl, hsink⟩
    exact (hc.settled x t ht).rooted hp r hr hsink m hm

/-! ## All nodes together -/

/-- The left count of a place is the number of its tuples. -/
theorem leftCount_eq {n : NodeId} (hn : n ∈ s.network.places) :
    s.state.leftCount n = (s.state.tuplesAt n).length := by
  have hadapter : s.state.adapters.get? n = none := by
    obtain ⟨r, hr, hn⟩ := List.mem_flatMap.mp hn
    rcases List.mem_append.mp hn with hn | hn
    · obtain ⟨e, he, rfl⟩ := List.mem_map.mp hn
      exact hc.coherent.adapter_eq_none hs.network (List.mem_flatMap.mpr ⟨r, hr, he⟩)
    · rw [List.mem_singleton.mp hn]
      exact hc.coherent.adapter_terminal_eq_none hs.network hr
  rw [MatchState.leftCount, hadapter, MatchState.tuplesAt, MatchState.terminalTuples,
    List.length_append]
  cases s.state.joins.get? n <;> cases s.state.terminals.get? n <;>
    simp [Memory.size, SlotMap.size, SlotMap.toList]

theorem tupleCount_eq : s.tupleCount = (s.network.places.map s.state.leftCount).sum := by
  rw [tupleCount, hc.sound.size_eq hs.network]
  refine congrArg List.sum (List.map_congr_left fun n hn => ?_)
  rw [leftCount_eq hs hc hn, (hc.coherent.perm_tuplesAt hs.network hn).length_eq]

end Current

/-- **After every run the memories hold exactly what they should.** Every join has on its left the
matches of the entries before it and on its right the facts that belong in, each once and under its
current key; every terminal has the full matches and every adapter the one-fact matches. Every live
tuple waits or ends at one place. -/
theorem memories_run {rules : List Rule} {schemas : SchemaRegistry} {config : Config}
    {net : Network} (hbuild : Network.build rules schemas config = .ok net)
    (hid : ∀ rule ∈ rules, ∀ p ∈ rule.patterns, ∀ c ∈ p.clauses, c.RespectsIdentity)
    (calls : List Call) :
    let s := ((ofNetwork net).run calls).1
    (∀ r ∈ net.rules, ∀ before e later, r.entries = before ++ e :: later → before ≠ [] →
      ∃ m, s.state.joins.get? e.node = some m ∧ s.JoinHolds before e m) ∧
    (∀ r ∈ net.rules, ∃ m, s.state.terminals.get? r.terminal = some m ∧
      s.Lists r.entries m.tuples.toList) ∧
    (∀ r ∈ net.rules, ∃ m, s.state.adapters.get? r.first.node = some m ∧ s.AdapterHolds r m) ∧
    (net.places.flatMap s.state.tuplesAt).Nodup ∧
    (∀ x, x ∈ net.places.flatMap s.state.tuplesAt ↔ ∃ t, s.state.arena.get? x = some t) ∧
    s.tupleCount = (net.places.map s.state.leftCount).sum := by
  intro s
  obtain ⟨hnet, hs, hcurrent⟩ := run_ofNetwork (wellFormed_build hbuild) calls
  have hc : s.Current := hcurrent (respectsIdentity_build hbuild hid)
  have hvalid := hc.coherent.arena.valid
  have hperm := hc.sound.perm_refs hs.network
  have hcount := Current.tupleCount_eq hs hc
  rw [hnet] at hperm hcount
  refine ⟨fun r hr before e later hsplit hb => ?_, fun r hr => ?_, fun r hr => ?_,
    hperm.nodup_iff.mpr hvalid.nodup_refs, fun x => ?_, hcount⟩
  · exact Current.joinHolds hs hc ⟨hnet.symm ▸ hr, hsplit⟩ hb
  · exact Current.terminalLists hs hc (hnet.symm ▸ hr)
  · exact Current.adapterHolds hs hc (hnet.symm ▸ hr)
  · rw [hperm.mem_iff, SlotMap.mem_refs_iff hvalid]

/-- Two orders of one customer are left. At the join of `pairRule` each of them waits for another
and is there to be joined, under their customer. -/
theorem memories_orders :
    ∃ net r first e, Network.build [pairRule] orderSchemas .standard = .ok net ∧
    (∀ rule ∈ [pairRule], ∀ p ∈ rule.patterns, ∀ c ∈ p.clauses, c.RespectsIdentity) ∧
    net.rules = [r] ∧ r.entries = [first, e] ∧
    let s := ((ofNetwork net).run orderCalls).1
    ∃ m, s.state.joins.get? e.node = some m ∧ s.JoinHolds [first] e m ∧
      m.left.items.map s.state.arena.handles = [[5], [2]] ∧ m.right.items = [5, 2] ∧
      m.right.bucketCount = 1 ∧ m.right.candidates (some [.integer 8]) = [5, 2] ∧
      s.tupleCount = 6 ∧ s.tupleCount = (net.places.map s.state.leftCount).sum := by
  obtain ⟨net, r, first, e, hnet, hrules, hentries, hseen, hsize⟩ :
      ∃ net r first e, Network.build [pairRule] orderSchemas .standard = .ok net ∧
        net.rules = [r] ∧ r.entries = [first, e] ∧
        let s := ((ofNetwork net).run orderCalls).1
        (s.state.joins.get? e.node).map (fun m => (m.left.items.map s.state.arena.handles,
          m.right.items, m.right.bucketCount, m.right.candidates (some [.integer 8]))) =
            some ([[5], [2]], [5, 2], 1, [5, 2]) ∧
          s.tupleCount = 6 :=
    ⟨_, _, _, _, rfl, rfl, rfl, by decide +kernel, by decide +kernel⟩
  obtain ⟨hjoins, -, -, -, -, htotal⟩ := memories_run hnet respectsIdentity_pairRule orderCalls
  obtain ⟨m, hm, hholds⟩ := hjoins r (by simp [hrules]) [first] e [] hentries (by simp)
  rw [hm, Option.map_some, Option.some.injEq] at hseen
  simp only [Prod.mk.injEq] at hseen
  obtain ⟨hleft, hright, hcount, hbucket⟩ := hseen
  exact ⟨net, r, first, e, hnet, respectsIdentity_pairRule, hrules, hentries, m, hm, hholds, hleft,
    hright, hcount, hbucket, hsize, htotal⟩

end Session

end RuleMatching
