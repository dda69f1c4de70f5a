import RuleMatching.Proofs.Session.Coherent

set_option autoImplicit false

/-! # The sides of a join under a change

What storing and removing does to the left, to the right and to the record of the matches made, each
by itself. A memory that fits never refuses an item, and it finds every item under its location. -/

namespace RuleMatching

open Network

variable {facts : FactStore} {a : Arena} {e : Entry}

theorem Arena.get?_newest (ha : a.Valid) {x : TupleId} {t : Tuple}
    (hx : a.live.getLast? = some (x, t)) : a.get? x = some t :=
  (SlotMap.get?_eq_some_iff ha).mpr (List.mem_of_getLast? hx)

theorem Arena.not_mem_storedAt (ha : a.Valid) {x : TupleId} {t : Tuple} (hx : a.get? x = some t)
    {n : NodeId} (h : t.sink = n → t.location = none) : x ∉ a.storedAt n := by
  rw [Arena.mem_storedAt_of_get? ha hx]
  exact fun hmem => hmem.2 (h hmem.1)

/-- A node that does not store a tuple keeps its list when the tuple goes. -/
theorem Arena.storedAt_remove_eq_self (ha : a.Valid) {x : TupleId} {t : Tuple}
    (hx : a.get? x = some t) {n : NodeId} (hn : t.sink = n → t.location = none) :
    Arena.storedAt (SlotMap.remove a x) n = a.storedAt n := by
  rw [storedAt_remove, List.filter_eq_self]
  intro y hy
  have hne : y ≠ x := fun heq => not_mem_storedAt ha hx hn (heq ▸ hy)
  simpa using hne

/-! ## The left -/

namespace LeftFits

variable {left : Memory TupleId}

/-- A tuple is stored at the end, under its key. -/
theorem add (h : LeftFits facts a e left) (ha : a.Valid) {x : TupleId} {t : Tuple}
    (hx : a.live.getLast? = some (x, t)) (hsink : t.sink = e.node) (hloc : t.location = none)
    (hkey : (leftKeyOf facts a e x).isSome = e.condition.isIndexed) :
    ∃ l left', left.add? (leftKeyOf facts a e x) x = some (l, left') ∧
      LeftFits facts (a.setLocation x l) e left' := by
  obtain ⟨l, left', hadd, hholds, hindexed, hat, hold⟩ :=
    h.holds.add (a := x) (show left.Fits _ by rw [Memory.Fits, h.indexed, hkey]) rfl
  have hget := Arena.get?_newest ha hx
  have hnew : x ∉ a.storedAt e.node := Arena.not_mem_storedAt ha hget fun _ => hloc
  have hstored : (a.setLocation x l).storedAt e.node = a.storedAt e.node ++ [x] := by
    rw [Arena.storedAt_setLocation ha hx hloc, if_pos hsink]
  refine ⟨l, left', hadd, ?_, hindexed.trans h.indexed, ?_⟩
  · rw [hstored]
    exact hholds.congr fun y _ => by rw [leftKeyOf, leftKeyOf, Arena.handles_setLocation]
  · intro y hy l' hl'
    rw [hstored] at hy
    rcases List.mem_append.mp hy with hy | hy
    -- The memory keeps what it has in its place, and the arena keeps the places of the
    -- other tuples.
    · have hne : y ≠ x := fun heq => hnew (heq ▸ hy)
      obtain ⟨u, _, hu, _⟩ := (Arena.mem_storedAt ha).mp hy
      rw [Arena.locationOf_setLocation hu, if_neg hne] at hl'
      exact hold l' y (h.tuple_at y hy l' hl')
    · have hyx := List.mem_singleton.mp hy
      subst hyx
      rw [Arena.locationOf_setLocation hget, if_pos rfl] at hl'
      cases hl'
      exact hat

/-- A tuple without extensions is removed by its location. -/
theorem remove (h : LeftFits facts a e left) (ha : a.WellFormed) {x : TupleId} {t : Tuple}
    (hx : a.get? x = some t) (hsink : t.sink = e.node) {l : Location} (hloc : t.location = some l)
    (hleaf : ∀ y u, a.get? y = some u → u.parent ≠ some x) :
    ∃ left', left.remove? l = some (x, left') ∧ LeftFits facts (SlotMap.remove a x) e left' := by
  have hmem : x ∈ a.storedAt e.node := (Arena.mem_storedAt ha.valid).mpr ⟨t, l, hx, hsink, hloc⟩
  have hl := h.tuple_at x hmem l ((Arena.locationOf_eq hx).trans hloc)
  obtain ⟨left', hremove, hholds, hindexed, hold⟩ :=
    h.holds.remove (Arena.nodup_storedAt ha.valid _) hl
  refine ⟨left', hremove, ?_, hindexed.trans h.indexed, ?_⟩
  · rw [Arena.storedAt_remove]
    refine hholds.congr fun y hy => ?_
    obtain ⟨hy, hne⟩ := List.mem_filter.mp hy
    obtain ⟨u, _, hu, _⟩ := (Arena.mem_storedAt ha.valid).mp hy
    rw [leftKeyOf, leftKeyOf, Arena.handles_remove ha hleaf hu (by simpa using hne)]
  · intro y hy l' hl'
    obtain ⟨hy, hne, hlocation⟩ := Arena.of_mem_storedAt_remove ha.valid hy
    rw [hlocation] at hl'
    exact hold l' y (h.tuple_at y hy l' hl') hne

end LeftFits

/-! ## The right -/

namespace RightFits

variable {right : Memory Handle} {entries : FiniteMap Handle RightEntry}

theorem add (h : RightFits facts e right entries) {k : Handle} (hnew : entries.get? k = none)
    (hread : Readable facts e k) (hkey : (rightKeyOf facts e k).isSome = e.condition.isIndexed) :
    ∃ l right', right.add? (rightKeyOf facts e k) k = some (l, right') ∧
      RightFits facts e right' (entries.insert k ⟨l, []⟩) := by
  obtain ⟨l, right', hadd, hholds, hindexed, hat, hold⟩ :=
    h.holds.add (a := k) (show right.Fits _ by rw [Memory.Fits, h.indexed, hkey]) rfl
  refine ⟨l, right', hadd, ?_, hindexed.trans h.indexed, ?_, ?_⟩
  · rw [FiniteMap.keys_insert_new hnew]
    exact hholds
  · intro j entry hj
    rw [FiniteMap.get?_insert] at hj
    split at hj
    · next hjk =>
      cases hj
      rw [hjk]
      exact hat
    · exact hold _ _ (h.fact_at j entry hj)
  · intro j entry hj
    rw [FiniteMap.get?_insert] at hj
    split at hj
    · next hjk => exact hjk ▸ hread
    · exact h.readable j entry hj

theorem remove (h : RightFits facts e right entries) {k : Handle} {entry : RightEntry}
    (hk : entries.get? k = some entry) :
    ∃ right', right.remove? entry.location = some (k, right') ∧
      RightFits facts e right' (entries.erase k) := by
  obtain ⟨right', hremove, hholds, hindexed, hold⟩ :=
    h.holds.remove entries.nodup_keys (h.fact_at k entry hk)
  refine ⟨right', hremove, ?_, hindexed.trans h.indexed, ?_, ?_⟩
  · rw [FiniteMap.keys_erase]
    exact hholds
  · intro j other hj
    rw [FiniteMap.get?_erase] at hj
    split at hj
    · cases hj
    · next hne => exact hold _ _ (h.fact_at j other hj) hne
  · intro j other hj
    rw [FiniteMap.get?_erase] at hj
    split at hj
    · cases hj
    · exact h.readable j other hj

/-- The record of the matches made does not matter. -/
theorem modify (h : RightFits facts e right entries) (k : Handle) {f : RightEntry → RightEntry}
    (hf : ∀ entry, (f entry).location = entry.location) :
    RightFits facts e right (entries.modify k f) := by
  have hget : ∀ j entry, (entries.modify k f).get? j = some entry →
      ∃ old, entries.get? j = some old ∧ entry.location = old.location := by
    intro j entry hj
    rw [FiniteMap.get?_modify] at hj
    split at hj
    · obtain ⟨old, hold, rfl⟩ := Option.map_eq_some_iff.mp hj
      exact ⟨old, hold, hf old⟩
    · exact ⟨entry, hj, rfl⟩
  refine ⟨?_, h.indexed, fun j entry hj => ?_, fun j entry hj => ?_⟩
  · rw [FiniteMap.keys_modify]
    exact h.holds
  · obtain ⟨old, hold, hl⟩ := hget j entry hj
    rw [hl]
    exact h.fact_at j old hold
  · obtain ⟨old, hold, _⟩ := hget j entry hj
    exact h.readable j old hold

end RightFits

/-! ## The matches made -/

namespace MadeFits

variable {n : NodeId} {entries : FiniteMap Handle RightEntry}

/-- A new tuple heads the record of its fact. -/
theorem cons (h : MadeFits a n entries) {t : Tuple} (ht : t.origin = some n) :
    MadeFits (SlotMap.add a t) n
      (entries.modify t.handle fun entry => { entry with made := a.next :: entry.made }) := by
  intro k entry hk
  rw [Arena.madeBy_add]
  rw [FiniteMap.get?_modify] at hk
  split at hk
  · next hkt =>
    obtain ⟨old, hold, rfl⟩ := Option.map_eq_some_iff.mp hk
    rw [if_pos ⟨ht, hkt.symm⟩, ← h k old hold]
  · next hkt =>
    rw [if_neg fun hc => hkt hc.2.symm]
    exact h k entry hk

/-- A new tuple of another join or of none is of no concern. -/
theorem add_other (h : MadeFits a n entries) {t : Tuple} (ht : t.origin ≠ some n) :
    MadeFits (SlotMap.add a t) n entries :=
  h.frame fun k => by rw [Arena.madeBy_add, if_neg fun hc => ht hc.1]

/-- A tuple that goes is taken off the record of its fact. -/
theorem erase (h : MadeFits a n entries) (ha : a.Valid) {x : TupleId} {t : Tuple}
    (hx : a.get? x = some t) :
    MadeFits (SlotMap.remove a x) n
      (entries.modify t.handle fun entry => { entry with made := entry.made.erase x }) := by
  intro k entry hk
  rw [Arena.madeBy_remove]
  rw [FiniteMap.get?_modify] at hk
  split at hk
  · obtain ⟨old, hold, rfl⟩ := Option.map_eq_some_iff.mp hk
    simp only
    rw [h k old hold, (Arena.nodup_madeBy ha n k).erase_eq_filter]
    refine List.filter_congr fun y _ => ?_
    rw [Bool.eq_iff_iff, bne_iff_ne, decide_eq_true_iff]
  · next hkt =>
    rw [h k entry hk, eq_comm, List.filter_eq_self]
    intro y hy
    have hne : y ≠ x := fun heq => by
      obtain ⟨u, hu, _, hh⟩ := (Arena.mem_madeBy ha).mp hy
      rw [heq, hx] at hu
      cases hu
      exact hkt hh.symm
    simpa using hne

theorem remove_other (h : MadeFits a n entries) (ha : a.Valid) {x : TupleId} {t : Tuple}
    (hx : a.get? x = some t) (ht : t.origin ≠ some n) :
    MadeFits (SlotMap.remove a x) n entries := by
  refine h.frame fun k => ?_
  rw [Arena.madeBy_remove, List.filter_eq_self]
  intro y hy
  have hne : y ≠ x := fun heq => by
    obtain ⟨u, hu, ho, _⟩ := (Arena.mem_madeBy ha).mp hy
    rw [heq, hx] at hu
    cases hu
    exact ht ho
  simpa using hne

theorem insert_new (h : MadeFits a n entries) {k : Handle} (hmade : a.madeBy n k = [])
    (l : Location) : MadeFits a n (entries.insert k ⟨l, []⟩) := by
  intro j entry hj
  rw [FiniteMap.get?_insert] at hj
  split at hj
  · next hjk =>
    cases hj
    rw [hjk, hmade]
  · exact h j entry hj

theorem erase_fact (h : MadeFits a n entries) (k : Handle) : MadeFits a n (entries.erase k) := by
  intro j entry hj
  rw [FiniteMap.get?_erase] at hj
  split at hj
  · cases hj
  · exact h j entry hj

end MadeFits

/-! ## The terminal -/

namespace TerminalFits

variable {r : CompiledRule} {m : TerminalMemory}

theorem add (h : TerminalFits a r m) (ha : a.Valid) {x : TupleId} {t : Tuple}
    (hx : a.live.getLast? = some (x, t)) (hsink : t.sink = r.terminal) (hloc : t.location = none) :
    TerminalFits (a.setLocation x ⟨none, m.tuples.next⟩) r
      { m with tuples := m.tuples.add x, counters := m.counters.addLeft } := by
  have hget := Arena.get?_newest ha hx
  have hnew : x ∉ a.storedAt r.terminal := Arena.not_mem_storedAt ha hget fun _ => hloc
  have hstored : ∀ l, (a.setLocation x l).storedAt r.terminal = a.storedAt r.terminal ++ [x] := by
    intro l
    rw [Arena.storedAt_setLocation ha hx hloc, if_pos hsink]
  refine ⟨SlotMap.valid_add h.valid x, ?_, ?_⟩
  · rw [hstored, SlotMap.toList_add, h.toList_eq]
  · intro y hy l' hl'
    rw [hstored] at hy
    rw [SlotMap.get?_add h.valid]
    rcases List.mem_append.mp hy with hy | hy
    · have hne : y ≠ x := fun heq => hnew (heq ▸ hy)
      obtain ⟨u, _, hu, _⟩ := (Arena.mem_storedAt ha).mp hy
      rw [Arena.locationOf_setLocation hu, if_neg hne] at hl'
      -- The slots of the tuples that were there are live, and the new one is not among them.
      have hat := h.tuple_at y hy l' hl'
      have hslot : l'.slot ≠ m.tuples.next := fun heq => by
        rw [heq, SlotMap.get?_next h.valid] at hat
        cases hat
      rw [if_neg hslot]
      exact hat
    · have hyx := List.mem_singleton.mp hy
      subst hyx
      rw [Arena.locationOf_setLocation hget, if_pos rfl] at hl'
      cases hl'
      rw [if_pos rfl]

/-- A full match is kept in one place. -/
theorem slot_inj (h : TerminalFits a r m) (ha : a.Valid) {x : TupleId} {slot slot' : SlotRef}
    (hslot : m.tuples.get? slot = some x) (hslot' : m.tuples.get? slot' = some x) :
    slot = slot' := by
  have hnodup : m.tuples.toList.Nodup := by
    rw [h.toList_eq]
    exact Arena.nodup_storedAt ha _
  have hmem := (SlotMap.get?_eq_some_iff h.valid).mp hslot
  have hmem' := (SlotMap.get?_eq_some_iff h.valid).mp hslot'
  exact congrArg Prod.fst (List.inj_on_of_nodup_map hnodup hmem hmem' rfl)

theorem remove (h : TerminalFits a r m) (ha : a.WellFormed) {x : TupleId} {t : Tuple}
    (hx : a.get? x = some t) (hsink : t.sink = r.terminal) {l : Location}
    (hloc : t.location = some l) :
    m.tuples.contains l.slot = true ∧ TerminalFits (SlotMap.remove a x) r
      { m with tuples := m.tuples.remove l.slot, counters := m.counters.removeLeft } := by
  have hmem : x ∈ a.storedAt r.terminal := (Arena.mem_storedAt ha.valid).mpr ⟨t, l, hx, hsink, hloc⟩
  have hl := h.tuple_at x hmem l ((Arena.locationOf_eq hx).trans hloc)
  have hnodup : m.tuples.toList.Nodup := by
    rw [h.toList_eq]
    exact Arena.nodup_storedAt ha.valid _
  refine ⟨(SlotMap.contains_iff _ _).mpr ⟨x, hl⟩, SlotMap.valid_remove h.valid _, ?_, ?_⟩
  · rw [SlotMap.toList_remove h.valid hl hnodup, h.toList_eq, Arena.storedAt_remove]
  · intro y hy l' hl'
    obtain ⟨hy, hne, hlocation⟩ := Arena.of_mem_storedAt_remove ha.valid hy
    rw [hlocation] at hl'
    have hat := h.tuple_at y hy l' hl'
    have hslot : l'.slot ≠ l.slot := fun heq => by
      rw [heq, hl] at hat
      exact hne (Option.some.inj hat).symm
    rw [SlotMap.get?_remove h.valid, if_neg hslot]
    exact hat

end TerminalFits

end RuleMatching
