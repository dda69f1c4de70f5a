import RuleMatching.Proofs.Arena

set_option autoImplicit false

/-! # Tuples by node

What the memories of a node should hold can be read off the arena: the tuples that the node stores
(`Arena.storedAt`), in the order in which they came, and those that a join has made with a fact
(`Arena.madeBy`). Each change of the arena changes these lists in one place. -/

namespace RuleMatching.Arena

/-- The tuples that wait or end at a node, the oldest first. -/
def storedAt (a : Arena) (n : NodeId) : List TupleId :=
  a.refsWhere fun t => decide (t.sink = n) && t.location.isSome

/-- The tuples that a join has made with a fact, the newest first. -/
def madeBy (a : Arena) (n : NodeId) (h : Handle) : List TupleId :=
  (a.refsWhere fun t => decide (t.origin = some n) && decide (t.handle = h)).reverse

/-- Where a tuple is stored. -/
def locationOf (a : Arena) (x : TupleId) : Option Location := (a.get? x).bind Tuple.location

variable {a : Arena}

theorem mem_storedAt (ha : a.Valid) {n : NodeId} {x : TupleId} :
    x ∈ a.storedAt n ↔ ∃ t l, a.get? x = some t ∧ t.sink = n ∧ t.location = some l := by
  simp only [storedAt, mem_refsWhere ha, Bool.and_eq_true, decide_eq_true_eq,
    Option.isSome_iff_exists, exists_and_left]

/-- A live tuple is stored at its sink, or nowhere. -/
theorem mem_storedAt_of_get? (ha : a.Valid) {n : NodeId} {x : TupleId} {t : Tuple}
    (hx : a.get? x = some t) : x ∈ a.storedAt n ↔ t.sink = n ∧ t.location ≠ none := by
  rw [mem_storedAt ha, Option.ne_none_iff_exists']
  constructor
  · rintro ⟨u, l, hu, hsink, hl⟩
    rw [hx, Option.some.injEq] at hu
    subst hu
    exact ⟨hsink, l, hl⟩
  · rintro ⟨hsink, l, hl⟩
    exact ⟨t, l, hx, hsink, hl⟩

theorem mem_madeBy (ha : a.Valid) {n : NodeId} {h : Handle} {x : TupleId} :
    x ∈ a.madeBy n h ↔ ∃ t, a.get? x = some t ∧ t.origin = some n ∧ t.handle = h := by
  simp only [madeBy, List.mem_reverse, mem_refsWhere ha, Bool.and_eq_true, decide_eq_true_eq]

theorem nodup_storedAt (ha : a.Valid) (n : NodeId) : (a.storedAt n).Nodup := nodup_refsWhere ha _

theorem nodup_madeBy (ha : a.Valid) (n : NodeId) (h : Handle) : (a.madeBy n h).Nodup :=
  List.nodup_reverse.mpr (nodup_refsWhere ha _)

theorem length_madeBy_le (a : Arena) (n : NodeId) (h : Handle) :
    (a.madeBy n h).length ≤ a.size := by
  rw [madeBy, List.length_reverse]
  exact length_refsWhere_le a _

theorem locationOf_eq {x : TupleId} {t : Tuple} (h : a.get? x = some t) :
    a.locationOf x = t.location := by
  rw [locationOf, h]
  rfl

/-! ## A new tuple -/

theorem storedAt_add {t : Tuple} (ht : t.location = none) (n : NodeId) :
    Arena.storedAt (a.add t) n = a.storedAt n := by
  rw [storedAt, refsWhere_add, ht]
  simp [storedAt]

theorem madeBy_add (t : Tuple) (n : NodeId) (h : Handle) : Arena.madeBy (a.add t) n h =
    if t.origin = some n ∧ t.handle = h then a.next :: a.madeBy n h else a.madeBy n h := by
  rw [madeBy, refsWhere_add]
  by_cases hp : t.origin = some n ∧ t.handle = h
  · simp [madeBy, hp]
  · rw [if_neg hp]
    rw [not_and] at hp
    simp only [Bool.and_eq_true, decide_eq_true_eq]
    rw [if_neg (fun h => hp h.1 h.2), List.append_nil]
    rfl

theorem locationOf_add (ha : a.Valid) {t : Tuple} {x : TupleId} {u : Tuple}
    (hx : a.get? x = some u) : Arena.locationOf (a.add t) x = a.locationOf x := by
  rw [locationOf, locationOf, SlotMap.get?_add_of_get? ha t hx, hx]

/-! ## A tuple that is stored -/

/-- The newest tuple, when it is stored, comes last at its sink. -/
theorem storedAt_setLocation (ha : a.Valid) {x : TupleId} {t : Tuple}
    (hx : a.live.getLast? = some (x, t)) (ht : t.location = none) (l : Location) (n : NodeId) :
    (a.setLocation x l).storedAt n = a.storedAt n ++ if t.sink = n then [x] else [] := by
  rw [storedAt, setLocation, refsWhere_modify_newest ha hx (by simp [ht])]
  by_cases hn : t.sink = n <;> simp [hn, storedAt]

theorem madeBy_setLocation (x : TupleId) (l : Location) (n : NodeId) (h : Handle) :
    (a.setLocation x l).madeBy n h = a.madeBy n h := by
  rw [madeBy, setLocation, refsWhere_modify]
  · rfl
  · intro t
    rfl

theorem locationOf_setLocation {x y : TupleId} {u : Tuple} (hy : a.get? y = some u) (l : Location) :
    (a.setLocation x l).locationOf y = if y = x then some l else a.locationOf y := by
  rw [locationOf, get?_setLocation]
  split
  · rw [hy]
    rfl
  · rfl

/-! ## A tuple that goes -/

theorem storedAt_remove (x : TupleId) (n : NodeId) :
    Arena.storedAt (a.remove x) n = (a.storedAt n).filter (· ≠ x) := refsWhere_remove a _ x

theorem madeBy_remove (x : TupleId) (n : NodeId) (h : Handle) :
    Arena.madeBy (a.remove x) n h = (a.madeBy n h).filter (· ≠ x) := by
  rw [madeBy, refsWhere_remove, ← List.filter_reverse]
  rfl

theorem locationOf_remove (ha : a.Valid) {x y : TupleId} (h : y ≠ x) :
    Arena.locationOf (a.remove x) y = a.locationOf y := by
  rw [locationOf, SlotMap.get?_remove ha, if_neg h]
  rfl

/-- A tuple that is stored after a removal was stored before, in the same place. -/
theorem of_mem_storedAt_remove (ha : a.Valid) {x y : TupleId} {n : NodeId}
    (hy : y ∈ Arena.storedAt (a.remove x) n) :
    y ∈ a.storedAt n ∧ y ≠ x ∧ Arena.locationOf (a.remove x) y = a.locationOf y := by
  rw [storedAt_remove, List.mem_filter, decide_eq_true_iff] at hy
  exact ⟨hy.1, hy.2, locationOf_remove ha hy.2⟩

/-! ## Tuples that stay -/

/-- A tuple that is live before and after a change, as the same match. -/
structure Stays (a a' : Arena) (x : TupleId) (t t' : Tuple) : Prop where
  before : a.get? x = some t
  after : a'.get? x = some t'
  handle : t'.handle = t.handle
  parent : t'.parent = t.parent
  sink : t'.sink = t.sink
  origin : t'.origin = t.origin
  handles : a'.handles x = a.handles x

theorem stays_add (ha : a.WellFormed) {t : Tuple}
    (hp : ∀ p, t.parent = some p → ∃ u, a.get? p = some u) {x : TupleId} {u : Tuple}
    (hx : a.get? x = some u) : Stays a (a.add t) x u u := by
  exact ⟨hx, SlotMap.get?_add_of_get? ha.valid t hx, rfl, rfl, rfl, rfl, handles_add ha hp hx⟩

theorem stays_setLocation {x y : TupleId} {u : Tuple} (hy : a.get? y = some u) (l : Location) :
    ∃ u', Stays a (a.setLocation x l) y u u' := by
  by_cases hyx : y = x
  · refine ⟨{ u with location := some l }, hy, ?_, rfl, rfl, rfl, rfl, handles_setLocation a x y l⟩
    rw [get?_setLocation, if_pos hyx, hy]
    rfl
  · refine ⟨u, hy, ?_, rfl, rfl, rfl, rfl, handles_setLocation a x y l⟩
    rw [get?_setLocation, if_neg hyx, hy]

theorem stays_remove (ha : a.WellFormed) {x : TupleId}
    (hx : ∀ y u, a.get? y = some u → u.parent ≠ some x) {y : TupleId} {u : Tuple}
    (hy : a.get? y = some u) (hne : y ≠ x) : Stays a (a.remove x) y u u := by
  refine ⟨hy, ?_, rfl, rfl, rfl, rfl, handles_remove ha hx hy hne⟩
  rw [SlotMap.get?_remove ha.valid, if_neg hne, hy]

end RuleMatching.Arena
