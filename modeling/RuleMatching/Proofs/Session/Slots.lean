import RuleMatching.Proofs.Arena.Slots
import RuleMatching.Proofs.Session.SimulatedRuns
import RuleMatching.Proofs.Session.SlotMemories

set_option autoImplicit false

/-! # Matches in slots

A store that keeps its matches in slots stands for the matches of a session if the slots have its
tuples, strung together, and the linked lists what is stored in its memories
(`SlotPropagation.Stands`). No slot has been used more often than matches were created. **So the
store simulates the matches as long as no more are created than a generation can count**
(`SlotPropagation.simulates`). -/

namespace RuleMatching

open Network Propagation

namespace SlotPropagation

/-- The tuples of the matches are those of `m`, under locations that are counted in 32 bits. The
slots of the store have them, and its memories what is stored in the other memories. No generation
has come further than matches were created. -/
structure Stands (m : LinkedArena (NodeId × Handle)) (p : Propagation) (q : SlotPropagation) :
    Prop where
  relocated : m.arena = p.arena.relocate Location.recounted
  linked : p.LinkedBy m
  slots : q.arena.Shows m
  memories : Remembers m.fellows.newest.get? p q
  fresh : ∀ i g : Nat, m.arena.generations[i]? = some g → g < p.counters.created

variable {net : Network} {facts : FactStore} {p p' : Propagation} {q : SlotPropagation}
  {m : LinkedArena (NodeId × Handle)}

theorem newTuple_of_alloc {k : Handle} {parent : Option TupleId} {sink : NodeId}
    {origin : Option NodeId} {t : TupleId} {a : SlotArena}
    (halloc : q.arena.alloc k parent sink origin = (t, a)) :
    newTuple k parent sink origin q =
      (t, MatchStore.tally TupleCounters.create { q with arena := a }) := by
  simp only [newTuple, MatchStore.create, halloc]

namespace Stands

variable (h : Stands m p q)

include h

theorem shows : MatchStore.Shows p q where
  handles t := (h.slots.handles_eq h.linked.fits t).trans (h.linked.alike.handles t)
  children t := (h.slots.children_eq h.linked.fits t).trans (h.linked.alike.children t)
  size := h.slots.slots.count_eq.trans h.linked.alike.size
  adapters := h.memories.adapters
  waiting := h.memories.waiting_eq
  facing := h.memories.facing_eq
  hasRight := h.memories.hasRight_eq
  events := h.memories.events

/-! ## New tuples -/

/-- The slot of the next tuple has not been used more often than matches were created. -/
theorem next_le : m.arena.next.generation ≤ p.counters.created := by
  rcases SlotMap.generation_next h.linked.fits.valid with ⟨-, hnext⟩ | ⟨g, hg, hnext⟩
  · exact hnext ▸ Nat.zero_le _
  · have hlt := h.fresh _ g hg
    omega

theorem fresh_alloc (k : Handle) (parent : Option TupleId) (sink : NodeId) (origin : Option NodeId)
    (i g : Nat) (hg : (m.alloc k parent sink origin).arena.generations[i]? = some g) :
    g < p.counters.created + 1 := by
  have hadd : (SlotMap.add m.arena
      ⟨k, parent, m.arena.childSize parent, sink, origin, none⟩).generations[i]? = some g := hg
  rw [SlotMap.getElem?_generations_add h.linked.fits.valid] at hadd
  split at hadd
  · cases hadd
    exact Nat.lt_succ_of_le h.next_le
  · exact Nat.lt_succ_of_lt (h.fresh i g hadd)

theorem relocated_alloc (k : Handle) (parent : Option TupleId) (sink : NodeId)
    (origin : Option NodeId) :
    (m.alloc k parent sink origin).arena =
      (p.arena.alloc k parent sink origin).relocate Location.recounted := by
  have hsize := h.linked.alike.childSize parent
  show m.arena.alloc k parent sink origin = _
  rw [Arena.alloc, Arena.alloc, hsize, Arena.relocate_add, h.relocated]
  rfl

theorem alloc {limit : Nat} (hlimit : limit ≤ UInt32.size) (hroom : p.counters.created < limit)
    {parent : Option TupleId} (hparent : ∀ x, parent = some x → ∃ t, p.arena.get? x = some t)
    (k : Handle) (sink : NodeId) (origin : Option NodeId) :
    ∃ a, q.arena.alloc k parent sink origin = (p.arena.next, a) ∧
      a.Shows (m.alloc k parent sink origin) := by
  have hparent' : ∀ x, parent = some x → ∃ t, m.arena.get? x = some t := fun x hx => by
    obtain ⟨t, ht⟩ := hparent x hx
    obtain ⟨l, hl, -⟩ := h.linked.alike.get? ht
    exact ⟨_, hl⟩
  obtain ⟨href, hshows⟩ : (q.arena.alloc k parent sink origin).1 = m.arena.next ∧
      (q.arena.alloc k parent sink origin).2.Shows (m.alloc k parent sink origin) :=
    h.slots.alloc h.linked.fits hparent' ((h.next_le.trans_lt hroom).trans_le hlimit)
  rw [h.linked.alike.next] at href
  exact ⟨_, Prod.ext href rfl, hshows⟩

theorem root {limit : Nat} (hlimit : limit ≤ UInt32.size) (hroom : p.counters.created < limit)
    (k : Handle) (sink : NodeId) :
    ∃ q', newTuple k none sink none q = (p.arena.next, q') ∧
      ∃ m', Stands m' (p.createTuple k none sink none) q' := by
  obtain ⟨a, halloc, hshows⟩ :=
    h.alloc hlimit hroom (fun x hx => absurd hx (Option.some_ne_none x).symm) k sink none
  exact ⟨_, newTuple_of_alloc halloc, m.alloc k none sink none, h.relocated_alloc k none sink none,
    h.linked.createTuple k sink, hshows, (h.memories.tally TupleCounters.create).withArena _ _,
    h.fresh_alloc k none sink none⟩

/-- **An extension comes in front of the thread of its join and fact.** -/
theorem child {limit : Nat} (hlimit : limit ≤ UInt32.size) (hroom : p.counters.created < limit)
    {x : TupleId} {t : Tuple} (hx : p.arena.get? x = some t) {n : NodeId} {k : Handle}
    (hright : p.hasRight n k = true) (sink : NodeId) :
    ∃ q', newTuple k (some x) sink (some n) q = (p.arena.next, q') ∧
      ∃ m', Stands m' (addChild n sink x k p) (MatchStore.linkMade n k p.arena.next q') := by
  have hparent : ∀ y, some x = some y → ∃ t, p.arena.get? y = some t := fun y hy =>
    ⟨t, Option.some.inj hy ▸ hx⟩
  obtain ⟨a, halloc, hshows⟩ := h.alloc hlimit hroom hparent k sink (some n)
  have hlinked := h.linked.addChild hx hright sink
  have hfits := h.linked.fits_alloc hparent k sink (some n)
  have hcontains : (m.alloc k (some x) sink (some n)).arena.contains p.arena.next = true := by
    rw [← h.linked.alike.next]
    exact (Arena.lists_add h.linked.fits.valid h.linked.fits.live _).1
  obtain ⟨hstart, hshows'⟩ := hshows.link hfits hcontains (n, k)
  have hmemories := (h.memories.tally TupleCounters.create).withArena
    (p.arena.alloc k (some x) sink (some n)) a
  obtain ⟨harena, hmemories'⟩ := hmemories.changeThread hright
    (f := fun arena newest => arena.link newest p.arena.next) rfl
    ((m.alloc k (some x) sink (some n)).newest_link (n, k) p.arena.next)
  refine ⟨_, newTuple_of_alloc halloc, (m.alloc k (some x) sink (some n)).link (n, k) p.arena.next,
    h.relocated_alloc k (some x) sink (some n), hlinked, ?_, ?_,
    h.fresh_alloc k (some x) sink (some n)⟩
  · exact harena ▸ hshows'
  · exact hmemories'.modifyMade n k (p.arena.next :: ·)

/-! ## Storing -/

theorem relocated_setLocation (x : TupleId) (l : Location) :
    (m.setLocation x l.recounted).arena = (p.arena.setLocation x l).relocate
      Location.recounted := by
  rw [Arena.relocate_setLocation, ← h.relocated]
  rfl

theorem storeLeft {n : NodeId} {key : Option IndexKey} {x : TupleId}
    (hstore : MatchStore.storeLeft? n key x p = some p') :
    ∃ q', MatchStore.storeLeft? n key x q = some q' ∧ ∃ m', Stands m' p' q' := by
  obtain ⟨join, l, left, hjoin, hadd, rfl⟩ := exists_putLeft hstore
  obtain ⟨join', hjoin', hshows⟩ := h.memories.joins.get? hjoin
  obtain ⟨left', hadd', hleft⟩ := hshows.left.add? hadd
  have hstore' : MatchStore.storeLeft? n key x q = some { q with
      joins := q.joins.insert n { join' with left := left', counters := join'.counters.addLeft }
      arena := q.arena.setLocation x l.recounted } := by
    simp only [MatchStore.storeLeft?, SlotPropagation.storeLeft?, hjoin', Option.bind_eq_bind,
      Option.bind_some, hadd']
    rfl
  rw [hshows.counters] at hstore'
  exact ⟨_, hstore', m.setLocation x l.recounted, h.relocated_setLocation x l,
    h.linked.setLocation rfl (hasRight_putLeft hjoin x l left), h.slots.setLocation x l.recounted,
    (h.memories.leftSide hshows hleft join.counters.addLeft).withArena _ _, h.fresh⟩

theorem storeFull {n : NodeId} {x : TupleId} (hstore : MatchStore.storeFull? n x p = some p') :
    ∃ q', MatchStore.storeFull? n x q = some q' ∧ ∃ m', Stands m' p' q' := by
  obtain ⟨terminal, hterminal, rfl⟩ := exists_full hstore
  obtain ⟨terminal', hterminal', hshows⟩ := h.memories.terminals.get? hterminal
  obtain ⟨href, htuples⟩ := hshows.tuples.add x
  have hstore' : MatchStore.storeFull? n x q = some { q with
      terminals := q.terminals.insert n ⟨(terminal'.tuples.add x).2, terminal'.counters.addLeft⟩
      arena := q.arena.setLocation x (Location.recounted ⟨none, terminal.tuples.next⟩) } := by
    simp only [MatchStore.storeFull?, SlotPropagation.storeFull?, hterminal', Option.bind_eq_bind,
      Option.bind_some, href]
    rfl
  rw [hshows.counters] at hstore'
  exact ⟨_, hstore', m.setLocation x (Location.recounted ⟨none, terminal.tuples.next⟩),
    h.relocated_setLocation x ⟨none, terminal.tuples.next⟩, h.linked.setLocation rfl fun _ _ => rfl,
    h.slots.setLocation x _, (h.memories.fullSide htuples terminal.counters.addLeft).withArena _ _,
    h.fresh⟩

/-! ## Facts on the right -/

theorem storeRight {n : NodeId} {key : Option IndexKey} {k : Handle}
    (hmade : p.arena.madeBy n k = []) (hstore : MatchStore.storeRight? n key k p = some p') :
    ∃ q', MatchStore.storeRight? n key k q = some q' ∧ ∃ m', Stands m' p' q' := by
  obtain ⟨join, l, right, hjoin, hadd, rfl⟩ := exists_putRight hstore
  obtain ⟨join', hjoin', hshows⟩ := h.memories.joins.get? hjoin
  obtain ⟨right', hadd', hright⟩ := hshows.right.add? hadd
  have hstore' : MatchStore.storeRight? n key k q = some { q with
      joins := q.joins.insert n
        { join' with
          right := right'
          rightEntries := join'.rightEntries.insert k ⟨l.kept, none⟩
          counters := join'.counters.addRight } } := by
    simp only [MatchStore.storeRight?, SlotPropagation.storeRight?, hjoin', Option.bind_eq_bind,
      Option.bind_some, hadd']
    rfl
  rw [hshows.counters] at hstore'
  exact ⟨_, hstore', m.drop (n, k), h.relocated, h.linked.putRight hjoin hmade l right,
    h.slots.drop (n, k), h.memories.putRight (m.newest_drop (n, k)) hshows hright _ l, h.fresh⟩

/-- **A fact leaves the right of a join, and the matches made with it are found in the slots.** -/
theorem takeRight (hnet : net.WellFormed) (hs : Coherent net facts p.toMatchState) {e : Entry}
    (he : e ∈ net.allJoins) {k : Handle} {made : List TupleId}
    (htake : MatchStore.takeRight? e.node k p = some (made, p')) :
    ∃ q', MatchStore.takeRight? e.node k q = some (made, q') ∧ ∃ m', Stands m' p' q' := by
  obtain ⟨join, entry, right, hjoin, hentry, hremove, rfl, rfl⟩ := exists_dropRight hs hnet he htake
  obtain ⟨join', hjoin', hshows⟩ := h.memories.joins.get? hjoin
  obtain ⟨entry', hentry', hnoted⟩ := hshows.entries.get? hentry
  obtain ⟨right', hremove', hright⟩ := hshows.right.remove? hremove
  have hmade : q.arena.thread entry'.newest = p.arena.madeBy e.node k := by
    rw [hnoted.newest, h.slots.thread_eq h.linked.fits]
    exact if_pos (hasRight_of_entry hjoin hentry)
  have htake' : MatchStore.takeRight? e.node k q = some (p.arena.madeBy e.node k, { q with
      joins := q.joins.insert e.node
        { join' with
          right := right'
          rightEntries := join'.rightEntries.erase k
          counters := join'.counters.removeRight } }) := by
    simp only [MatchStore.takeRight?, SlotPropagation.takeRight?, hjoin', Option.bind_eq_bind,
      Option.bind_some, hentry', hnoted.location, hremove', hmade]
    rfl
  rw [hshows.counters] at htake'
  exact ⟨_, htake', m.drop (e.node, k), h.relocated, h.linked.dropRight hjoin right,
    h.slots.drop (e.node, k), h.memories.dropRight (m.newest_drop (e.node, k)) hshows hright _,
    h.fresh⟩

/-! ## Tuples that go -/

/-- The tuple of a reference, with its location counted in 32 bits. -/
theorem tuple?_eq (x : TupleId) :
    MatchStore.tuple? q x = (p.arena.get? x).map (Tuple.relocate Location.recounted) := by
  show (q.arena.get? x).map LinkedTuple.toTuple = _
  rw [h.slots.map_get?, h.relocated, Arena.get?_relocate]

section Remove

variable {rule : CompiledRule} {x : TupleId} {t : Tuple} (hnet : net.WellFormed)
  (hx : Removable net facts rule p x) (ht : p.arena.get? x = some t)

include hnet hx ht

omit hnet in
/-- A match that waits at a join is taken off its left. -/
theorem unstore_join {e : Entry} (he : e ∈ net.allJoins) (hsink : t.sink = e.node) {l : Location}
    (hloc : t.location = some l) :
    Stands m (unstore rule x t p) (unstore rule x (t.relocate Location.recounted) q) := by
  obtain ⟨join, left, hjoin, -, hremove, heq⟩ := hx.coherent.unstore_join rule ht he hsink hloc
  obtain ⟨join', hjoin', hshows⟩ := h.memories.joins.get? hjoin
  obtain ⟨left', hremove', hleft⟩ := hshows.left.remove? hremove
  have heq' : unstore rule x (t.relocate Location.recounted) q = { q with
      joins := q.joins.insert e.node
        { join' with left := left', counters := join'.counters.removeLeft } } := by
    have hloc' : (t.relocate Location.recounted).location = some l.recounted := by
      rw [Tuple.relocate, hloc, Option.map_some]
    have hsink' : (t.relocate Location.recounted).sink = e.node := hsink
    simp only [unstore, hloc', hsink', MatchStore.removeLeft?, removeLeft?, hjoin',
      Option.bind_eq_bind, Option.bind_some, Location.kept_recounted, hremove', Option.pure_def]
  rw [hshows.counters] at heq'
  have hright := hasRight_congr (rightKeys_unstore rule x t p)
  rw [heq] at hright
  rw [heq, heq']
  exact ⟨h.relocated, h.linked.congr rfl hright, h.slots,
    h.memories.leftSide hshows hleft _, h.fresh⟩

/-- A full match is taken out of its terminal, and this is reported. -/
theorem unstore_terminal {r : CompiledRule} (hr : r ∈ net.rules) (hsink : t.sink = r.terminal)
    {l : Location} (hloc : t.location = some l) :
    Stands m (unstore rule x t p) (unstore rule x (t.relocate Location.recounted) q) := by
  obtain ⟨terminal, hterminal, -, hslot, heq⟩ :=
    hx.coherent.unstore_terminal hnet rule ht hr hsink hloc
  obtain ⟨terminal', hterminal', hshows⟩ := h.memories.terminals.get? hterminal
  obtain ⟨tuples', hremove', htuples⟩ := hshows.tuples.remove hslot
  have hjoin : q.joins.get? r.terminal = none :=
    h.memories.joins.get?_eq_none (hx.coherent.join_terminal_eq_none hnet hr)
  have hhandles : MatchStore.handles q x = p.arena.handles x := h.shows.handles x
  have heq' : unstore rule x (t.relocate Location.recounted) q =
      MatchStore.emit (.deactivated ⟨rule.id, rule.name, x, p.arena.handles x⟩)
        (MatchStore.tally TupleCounters.deactivate { q with
          terminals :=
            q.terminals.insert r.terminal ⟨tuples', terminal'.counters.removeLeft⟩ }) := by
    have hloc' : (t.relocate Location.recounted).location = some l.recounted := by
      rw [Tuple.relocate, hloc, Option.map_some]
    have hsink' : (t.relocate Location.recounted).sink = r.terminal := hsink
    have hkept : l.recounted.slot.kept = l.slot.kept :=
      congrArg LinkedLocation.entry l.kept_recounted
    simp only [unstore, hloc', hsink', MatchStore.removeLeft?, removeLeft?, hjoin,
      Option.bind_eq_bind, Option.bind_none, MatchStore.removeFull?, removeFull?, hterminal',
      Option.bind_some, hkept, hremove', Option.pure_def, hhandles]
  rw [hshows.counters] at heq'
  rw [heq, heq']
  exact ⟨h.relocated, h.linked.congr rfl fun _ _ => rfl, h.slots,
    ((h.memories.fullSide htuples _).tally TupleCounters.deactivate).emit _, h.fresh⟩

theorem unstore :
    Stands m (unstore rule x t p) (unstore rule x (t.relocate Location.recounted) q) := by
  obtain ⟨before, later, hcut, hsink⟩ := hx.ofRule t ht
  cases hloc : t.location with
  | none =>
      have hloc' : (t.relocate Location.recounted).location = none := by
        rw [Tuple.relocate, hloc, Option.map_none]
      rw [Propagation.unstore, hloc, Propagation.unstore, hloc']
      exact h
  | some l =>
      cases later with
      | nil => exact h.unstore_terminal hnet hx ht hcut.mem hsink hloc
      | cons e later =>
          exact h.unstore_join hx ht (hx.coherent.join_of_sink hnet ht hcut hsink) hsink hloc

omit hnet hx ht in
/-- A tuple that is in no thread is left there. -/
theorem forgetMade_of_none (hkept : p.keptWith t = none) :
    (forgetMade x t q).arena = q.arena ∧
      Remembers m.fellows.newest.get? (forgetMade x t p) (forgetMade x t q) := by
  rw [MatchState.keptWith] at hkept
  rw [forgetMade, forgetMade]
  cases horigin : t.origin with
  | none => exact ⟨rfl, h.memories⟩
  | some n =>
      rw [horigin, Option.bind_some, ite_eq_right_iff] at hkept
      have hright : q.hasRight n t.handle = false := by
        rw [h.memories.hasRight_eq]
        exact Bool.eq_false_iff.mpr fun hright => absurd (hkept hright) (Option.some_ne_none _)
      have hsame : MatchStore.unlinkMade n t.handle x q = q := modifyMade_of_not_hasRight hright _
      simp only [hsame]
      exact ⟨trivial, h.memories.modifyMade n t.handle (·.erase x)⟩

omit hnet hx in
/-- A tuple is taken out of the thread of its join and fact. -/
theorem forgetMade_of_some {k : NodeId × Handle} (hkept : p.keptWith t = some k) :
    (forgetMade x t q).arena.Shows (m.unlink k x) ∧
      Remembers (m.unlink k x).fellows.newest.get? (forgetMade x t p) (forgetMade x t q) := by
  have hmem : x ∈ p.madeAt k := (h.linked.mem_madeAt ht k).mpr hkept
  obtain ⟨hright, horigin, hhandle⟩ := MatchState.keptWith_eq_some_iff.mp hkept
  obtain ⟨hstart, hshows⟩ := h.slots.unlink h.linked.fits hmem
  obtain ⟨harena, hmemories⟩ := h.memories.changeThread hright
    (f := fun arena newest => arena.unlink newest x) (Prod.ext hstart rfl) (m.newest_unlink k x)
  have hforget : forgetMade x t q =
      SlotPropagation.modifyMade k.1 k.2 (fun arena newest => arena.unlink newest x) q := by
    rw [forgetMade, horigin, hhandle]
    rfl
  have hforget' : forgetMade x t p = Propagation.modifyMade k.1 k.2 (·.erase x) p := by
    rw [forgetMade, horigin, hhandle]
    rfl
  rw [hforget, hforget', harena]
  exact ⟨hshows, hmemories.modifyMade k.1 k.2 (·.erase x)⟩

omit hnet hx in
/-- What is left to do is to release the tuple. -/
theorem forgetMade : ∃ m₁, m.discard (p.keptWith t) x = m₁.release x ∧ (∃ lists, m₁.Fits lists) ∧
    (∃ u, m₁.arena.get? x = some u) ∧ (forgetMade x t q).arena.Shows m₁ ∧
    Remembers m₁.fellows.newest.get? (forgetMade x t p) (forgetMade x t q) := by
  obtain ⟨l, hl, -⟩ := h.linked.alike.get? ht
  cases hkept : p.keptWith t with
  | none =>
      obtain ⟨hsame, hmemories⟩ := h.forgetMade_of_none (x := x) hkept
      exact ⟨m, rfl, ⟨_, h.linked.fits⟩, ⟨_, hl⟩, hsame ▸ h.slots, hmemories⟩
  | some k =>
      obtain ⟨hslots, hmemories⟩ := h.forgetMade_of_some ht hkept
      have hmem : x ∈ p.madeAt k := (h.linked.mem_madeAt ht k).mpr hkept
      exact ⟨m.unlink k x, rfl, ⟨_, h.linked.fits.unlink hmem⟩, ⟨_, hl⟩, hslots, hmemories⟩

/-- A live match without extensions is removed from its slot. -/
theorem remove_live : ∃ m', Stands m' (removeTuple rule p x) (removeTuple rule q x) := by
  have harena : (Propagation.unstore rule x t p).arena = p.arena :=
    (arena_adapters_unstore rule x t p).1
  have hkept : (Propagation.unstore rule x t p).keptWith t = p.keptWith t := by
    simp only [MatchState.keptWith, hasRight_congr (rightKeys_unstore rule x t p)]
  have hq : removeTuple rule q x = MatchStore.tally TupleCounters.delete (MatchStore.release x
      (Propagation.forgetMade x t
        (Propagation.unstore rule x (t.relocate Location.recounted) q))) := by
    have htuple : MatchStore.tuple? q x = some (t.relocate Location.recounted) := by
      rw [h.tuple?_eq, ht, Option.map_some]
    rw [removeTuple, htuple]
    rfl
  obtain ⟨m₁, hm₁, ⟨lists, hfits⟩, ⟨u, hu⟩, hslots, hmemories⟩ :=
    (h.unstore hnet hx ht).forgetMade (harena.symm ▸ ht)
  rw [hkept] at hm₁
  have hlinked := h.linked.removeTuple rule ht hx.leaf
  rw [hm₁] at hlinked
  have hgone : (m₁.release x).arena = SlotMap.remove m.arena x := by
    rw [← hm₁, LinkedArena.arena_discard]
  refine ⟨m₁.release x, ?_, hlinked, ?_, ?_, fun i g hg => ?_⟩
  · rw [hgone, arena_removeTuple, Arena.relocate_remove, h.relocated]
  · rw [hq]
    exact (hslots.release hfits hu).2
  · rw [LinkedArena.newest_release, hq, removeTuple_live ht]
    exact (hmemories.withArena _ _).tally TupleCounters.delete
  · rw [hgone, SlotMap.generations_remove] at hg
    exact (h.fresh i g hg).trans_le (countsUp_removeTuple rule x p).tuples.1

end Remove

/-- **A match without extensions is removed from its slot.** -/
theorem remove (hnet : net.WellFormed) {rule : CompiledRule} {x : TupleId}
    (hx : Removable net facts rule p x) :
    ∃ m', Stands m' (removeTuple rule p x) (removeTuple rule q x) := by
  cases ht : p.arena.get? x with
  | none =>
      have htuple : MatchStore.tuple? q x = none := by rw [h.tuple?_eq, ht, Option.map_none]
      rw [removeTuple_dead ht, removeTuple, htuple]
      exact ⟨m, h⟩
  | some t => exact h.remove_live hnet hx ht

end Stands

/-- **A store of slots simulates the matches, as long as no more are created than a generation can
count.** -/
theorem simulates (hnet : net.WellFormed) {limit : Nat} (hlimit : limit ≤ UInt32.size) :
    SessionState.Simulates (σ := SlotState) net limit fun p q => ∃ m, Stands m p q where
  shows := fun ⟨_, h⟩ => h.shows
  setAdapters := fun ⟨m, h⟩ adapters => ⟨m, h.relocated, h.linked.congr rfl fun _ _ => rfl, h.slots,
    ⟨rfl, h.memories.joins, h.memories.terminals, h.memories.counters, h.memories.events⟩, h.fresh⟩
  tally := fun ⟨m, h⟩ f hf => ⟨m, h.relocated, h.linked.congr rfl fun _ _ => rfl, h.slots,
    h.memories.tally f, fun i g hg => (h.fresh i g hg).trans_le (hf _)⟩
  emit := fun ⟨m, h⟩ event => ⟨m, h.relocated, h.linked.congr rfl fun _ _ => rfl, h.slots,
    h.memories.emit event, h.fresh⟩
  root := fun ⟨_, h⟩ hroom k sink => h.root hlimit hroom k sink
  child := fun ⟨_, h⟩ hroom _ _ hx _ _ hright sink => h.child hlimit hroom hx hright sink
  storeLeft := fun ⟨_, h⟩ _ _ _ hstore => h.storeLeft hstore
  storeFull := fun ⟨_, h⟩ _ _ hstore => h.storeFull hstore
  storeRight := fun ⟨_, h⟩ _ _ _ hmade hstore => h.storeRight hmade hstore
  takeRight := fun ⟨_, h⟩ _ hs _ he _ _ htake => h.takeRight hnet hs he htake
  remove := fun ⟨_, h⟩ _ _ _ hx => h.remove hnet hx
  start := by
    have harena : (MatchState.ofNetwork net).arena = .empty := by rw [MatchState.ofNetwork_eq]
    obtain ⟨hmemories, hslots⟩ := Remembers.ofNetwork (fun _ => none) net
    refine ⟨.empty, ?_, MatchState.linkedBy_empty harena, ?_, hmemories, fun _ _ hg => nomatch hg⟩
    · show _ = (MatchState.ofNetwork net).arena.relocate Location.recounted
      rw [harena]
      rfl
    · show (SlotState.ofNetwork net).arena.Shows _
      rw [hslots]
      exact SlotArena.shows_empty
  restart := fun ⟨m, h⟩ => ⟨m, h.relocated, h.linked, h.slots,
    ⟨h.memories.adapters, h.memories.joins, h.memories.terminals, h.memories.counters, rfl⟩,
    h.fresh⟩
  holds := fun ⟨_, h⟩ n k => h.memories.holds_eq n k

end SlotPropagation

end RuleMatching
