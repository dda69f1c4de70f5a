import RuleMatching.Proofs.Arena.Stored

set_option autoImplicit false

/-! # Arenas that differ in locations only

Locations can be replaced in all tuples at once (`Arena.relocate`): references, facts and lists of
tuples stay the same, and so do the changes of the arena. Two arenas are alike if they are the same
up to the places where the tuples are stored (`Arena.Alike`). They then have the same references,
facts and lists of tuples, and stay alike under the same changes. -/

namespace RuleMatching

/-- The tuple with another location, if it has one. -/
def Tuple.relocate (g : Location → Location) (t : Tuple) : Tuple :=
  { t with location := t.location.map g }

theorem Tuple.eq_of_relocate_eq {g : Location → Location} {t t' : Tuple}
    (h : t'.relocate g = t.relocate g) :
    t' = { t with location := t'.location } ∧ t'.location.isSome = t.location.isSome := by
  obtain ⟨handle, parent, size, sink, origin, location⟩ := t
  obtain ⟨handle', parent', size', sink', origin', location'⟩ := t'
  simp only [relocate, mk.injEq] at h
  obtain ⟨rfl, rfl, rfl, rfl, rfl, hloc⟩ := h
  have hsome := congrArg Option.isSome hloc
  rw [Option.isSome_map, Option.isSome_map] at hsome
  exact ⟨rfl, hsome⟩

namespace Arena

/-- The arena with another location for every stored tuple. -/
def relocate (g : Location → Location) (a : Arena) : Arena :=
  { a with live := a.live.map fun e => (e.1, e.2.relocate g) }

variable {a a' : Arena} (g : Location → Location)

/-! ## One arena with other locations -/

theorem get?_relocate (a : Arena) (x : TupleId) :
    SlotMap.get? (a.relocate g) x = (a.get? x).map (Tuple.relocate g) := by
  unfold SlotMap.get? relocate
  simp only
  generalize a.live = l
  induction l with
  | nil => rfl
  | cons e rest ih =>
      rw [List.map_cons, List.lookup_cons, List.lookup_cons]
      cases hx : x == e.1 with
      | true => rfl
      | false => exact ih

theorem contains_relocate (a : Arena) (x : TupleId) :
    SlotMap.contains (a.relocate g) x = a.contains x := by
  rw [SlotMap.contains, SlotMap.contains, get?_relocate, Option.isSome_map]

theorem handles_relocate (a : Arena) (x : TupleId) : (a.relocate g).handles x = a.handles x := by
  unfold handles relocate
  rw [← List.map_reverse, ancestry_map]
  exact fun e => ⟨rfl, rfl, rfl⟩

theorem refsWhere_relocate (a : Arena) {p : Tuple → Bool} (hp : ∀ t, p (t.relocate g) = p t) :
    (a.relocate g).refsWhere p = a.refsWhere p := by
  unfold refsWhere relocate
  rw [List.filter_map, List.map_map]
  simp only [Function.comp_def, hp]

theorem storedAt_relocate (a : Arena) (n : NodeId) : (a.relocate g).storedAt n = a.storedAt n := by
  unfold storedAt
  rw [refsWhere_relocate]
  intro t
  show (decide (t.sink = n) && (t.location.map _).isSome) = _
  rw [Option.isSome_map]

theorem madeBy_relocate (a : Arena) (n : NodeId) (h : Handle) :
    (a.relocate g).madeBy n h = a.madeBy n h := by
  unfold madeBy
  rw [refsWhere_relocate]
  exact fun t => rfl

theorem children_relocate (a : Arena) (x : TupleId) : (a.relocate g).children x = a.children x := by
  have hrefs := refsWhere_relocate g a (p := fun t => decide (t.parent = some x)) fun t => rfl
  unfold refsWhere at hrefs
  rw [children, children, contains_relocate, hrefs]

theorem size_relocate (a : Arena) : SlotMap.size (a.relocate g) = a.size := by
  rw [SlotMap.size, SlotMap.size, relocate, List.length_map]

theorem relocate_add (a : Arena) (t : Tuple) :
    relocate g (a.add t) = SlotMap.add (a.relocate g) (t.relocate g) := by
  unfold relocate SlotMap.add
  rw [List.map_append]
  rfl

theorem relocate_remove (a : Arena) (x : TupleId) :
    relocate g (a.remove x) = SlotMap.remove (a.relocate g) x := by
  unfold SlotMap.remove
  rw [contains_relocate]
  split
  · unfold relocate
    rw [List.filter_map]
    rfl
  · rfl

theorem relocate_setLocation (a : Arena) (x : TupleId) (l : Location) :
    (a.setLocation x l).relocate g = (a.relocate g).setLocation x (g l) := by
  unfold setLocation SlotMap.modify relocate
  simp only [List.map_map]
  refine congrArg (SlotMap.mk a.generations a.free) (List.map_congr_left fun e _ => ?_)
  simp only [Function.comp_apply]
  split <;> rfl

/-! ## Two arenas -/

/-- The arenas are the same but for locations. -/
def Alike (a a' : Arena) : Prop :=
  a'.relocate (fun _ => ⟨none, ⟨0, 0⟩⟩) = a.relocate fun _ => ⟨none, ⟨0, 0⟩⟩

namespace Alike

theorem refl (a : Arena) : a.Alike a := rfl

variable (h : Alike a a')

include h

theorem symm : Alike a' a := Eq.symm h

theorem next : a'.next = a.next := by
  have hnext : SlotMap.next (a'.relocate _) = SlotMap.next (a.relocate _) := congrArg SlotMap.next h
  exact hnext

theorem handles (x : TupleId) : a'.handles x = a.handles x := by
  rw [← handles_relocate, h, handles_relocate]

theorem storedAt (n : NodeId) : a'.storedAt n = a.storedAt n := by
  rw [← storedAt_relocate, h, storedAt_relocate]

theorem madeBy (n : NodeId) (k : Handle) : a'.madeBy n k = a.madeBy n k := by
  rw [← madeBy_relocate, h, madeBy_relocate]

theorem children (x : TupleId) : a'.children x = a.children x := by
  rw [← children_relocate, h, children_relocate]

theorem size : SlotMap.size a' = a.size := by
  rw [← size_relocate, h, size_relocate]

theorem map_get? (x : TupleId) : (a'.get? x).map (Tuple.relocate fun _ => ⟨none, ⟨0, 0⟩⟩) =
    (a.get? x).map (Tuple.relocate fun _ => ⟨none, ⟨0, 0⟩⟩) := by
  rw [← get?_relocate, h, get?_relocate]

theorem get?_eq_none {x : TupleId} (hx : a.get? x = none) : a'.get? x = none := by
  have hmap := h.map_get? x
  rw [hx] at hmap
  exact Option.map_eq_none_iff.mp hmap

/-- A tuple of one arena is in the other, stored if it is. -/
theorem get? {x : TupleId} {t : Tuple} (hx : a.get? x = some t) :
    ∃ l, a'.get? x = some { t with location := l } ∧ l.isSome = t.location.isSome := by
  have hmap := h.map_get? x
  rw [hx, Option.map_some] at hmap
  obtain ⟨t', ht', heq⟩ := Option.map_eq_some_iff.mp hmap
  obtain ⟨heq, hsome⟩ := Tuple.eq_of_relocate_eq heq
  exact ⟨t'.location, heq ▸ ht', hsome⟩

theorem childSize (parent : Option TupleId) : a'.childSize parent = a.childSize parent := by
  unfold Arena.childSize
  cases parent with
  | none => rfl
  | some x =>
      rw [Option.bind_some, Option.bind_some]
      cases hx : SlotMap.get? a x with
      | none => rw [h.get?_eq_none hx]
      | some t =>
          obtain ⟨l, hl, -⟩ := h.get? hx
          rw [hl]

/-! ## The same changes -/

theorem add (t : Tuple) : Alike (a.add t) (a'.add t) := by
  rw [Alike, relocate_add, relocate_add, h]

theorem remove (x : TupleId) : Alike (a.remove x) (a'.remove x) := by
  rw [Alike, relocate_remove, relocate_remove, h]

theorem setLocation (x : TupleId) (l l' : Location) :
    Alike (a.setLocation x l) (a'.setLocation x l') := by
  rw [Alike, relocate_setLocation, relocate_setLocation, h]

end Alike

end Arena

end RuleMatching
