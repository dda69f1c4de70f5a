import RuleMatching.Proofs.Arena.Kin

set_option autoImplicit false

/-! # Threads of extensions

The extensions of every tuple are strung together under the tuple itself (`SiblingsFit`). **A tuple
that is created comes in front of the other extensions of its parent** (`SiblingsFit.add`), and **a
tuple without extensions can be taken out from among those of its parent, wherever it is**
(`SiblingsFit.remove`). -/

namespace RuleMatching

/-- The thread of every tuple lists its extensions, and the size of a tuple is its
number of facts. -/
structure SiblingsFit (a : Arena) (siblings : Threads TupleId) : Prop where
  arena : a.WellFormed
  sized : ∀ x t, a.get? x = some t → t.size = (a.handles x).length
  fits : siblings.Fits a.children
  loose : siblings.Loose a.children

theorem siblingsFit_empty : SiblingsFit .empty .empty :=
  ⟨Arena.wellFormed_empty, fun _ _ ht => (nomatch ht), Threads.fits_empty.congr fun _ => rfl,
    fun _ _ => rfl⟩

/-- The new tuple is in no thread yet, and those in a thread stay live. -/
theorem Arena.lists_add {a : Arena} (ha : a.Valid) {κ : Type} {lists : κ → List TupleId}
    (hlive : ∀ q x, x ∈ lists q → a.contains x = true) (u : Tuple) :
    SlotMap.contains (SlotMap.add a u) a.next = true ∧
      (∀ q x, x ∈ lists q → SlotMap.contains (SlotMap.add a u) x = true) ∧
      ∀ q, a.next ∉ lists q := by
  have hadd := SlotMap.contains_add ha u
  refine ⟨(hadd _).mpr (Or.inl rfl), fun q x hx => (hadd x).mpr (Or.inr (hlive q x hx)),
    fun q hq => ?_⟩
  have hnext := hlive q _ hq
  rw [SlotMap.contains_next ha] at hnext
  cases hnext

namespace SiblingsFit

variable {a : Arena} {siblings : Threads TupleId} (h : SiblingsFit a siblings)

include h

theorem live_of_mem_children (q x : TupleId) (hx : x ∈ a.children q) : a.contains x = true := by
  obtain ⟨u, hu, -⟩ := (Arena.mem_children h.arena).mp hx
  exact (SlotMap.contains_iff _ _).mpr ⟨u, hu⟩

/-- A tuple stands in the thread of its parent. -/
theorem mem_children_iff {x : TupleId} {t : Tuple} (hx : a.get? x = some t) (q : TupleId) :
    x ∈ a.children q ↔ t.parent = some q := by
  rw [Arena.mem_children h.arena, hx]
  simp

/-- Where a tuple is stored concerns no thread. -/
theorem setLocation (x : TupleId) (l : Location) : SiblingsFit (a.setLocation x l) siblings := by
  have hchildren := Arena.children_setLocation h.arena x l
  refine ⟨Arena.wellFormed_setLocation h.arena x l, fun y t ht => ?_, h.fits.congr hchildren, ?_⟩
  · rw [Arena.handles_setLocation]
    rw [Arena.get?_setLocation] at ht
    split at ht
    · obtain ⟨u, hu, rfl⟩ := Option.map_eq_some_iff.mp ht
      exact h.sized y u hu
    · exact h.sized y t ht
  · rw [funext hchildren]
    exact h.loose

section Add

variable {u : Tuple} (hu : ∀ q, u.parent = some q → ∃ t, a.get? q = some t)

include hu

theorem sized_add (hsize : u.size = a.childSize u.parent) (x : TupleId) (t : Tuple)
    (ht : SlotMap.get? (SlotMap.add a u) x = some t) :
    t.size = (Arena.handles (SlotMap.add a u) x).length := by
  have ha' := Arena.wellFormed_add h.arena hu
  have hnext := ht
  rw [SlotMap.get?_add h.arena.valid] at ht
  split at ht
  · cases ht
    rw [hsize]
    cases hp : u.parent with
    | none => rw [Arena.handles_root ha' hnext hp]; rfl
    | some q =>
        obtain ⟨v, hv⟩ := hu q hp
        rw [Arena.handles_child ha' hnext hp, Arena.handles_add h.arena hu hv, Arena.childSize,
          Option.bind_some, hv, List.length_append, ← h.sized q v hv]
        rfl
  · rw [Arena.handles_add h.arena hu ht]
    exact h.sized x t ht

/-- **A new tuple comes in front of the other extensions of its parent.** -/
theorem add (hsize : u.size = a.childSize u.parent) :
    SiblingsFit (SlotMap.add a u) (siblings.link (SlotMap.add a u) u.parent a.next) := by
  obtain ⟨hnext, hlive, hnew⟩ := Arena.lists_add h.arena.valid h.live_of_mem_children u
  have hchildren := funext (Arena.children_add h.arena hu)
  refine ⟨Arena.wellFormed_add h.arena hu, h.sized_add hu hsize, ?_, ?_⟩
  · rw [hchildren]
    exact h.fits.link hnext hlive hnew
  · rw [hchildren]
    exact h.loose.link h.fits hnext hlive hnew

end Add

section Remove

variable {x : TupleId} {t : Tuple} (hx : a.get? x = some t)
  (hleaf : ∀ y u, a.get? y = some u → u.parent ≠ some x)

include hleaf

theorem children_remove (q : TupleId) :
    Arena.children (SlotMap.remove a x) q = (a.children q).filter (· ≠ x) := by
  have hfilter : (a.children q).filter (· ∉ [x]) = (a.children q).filter (· ≠ x) := by simp
  rw [← hfilter]
  exact Arena.children_of_live h.arena (Arena.wellFormed_remove h.arena hleaf)
    (by rw [SlotMap.live_remove]; simp) q

theorem sized_remove (y : TupleId) (u : Tuple) (hu : SlotMap.get? (SlotMap.remove a x) y = some u) :
    u.size = (Arena.handles (SlotMap.remove a x) y).length := by
  rw [SlotMap.get?_remove h.arena.valid] at hu
  split at hu
  · cases hu
  · next hne =>
    rw [Arena.handles_remove h.arena hleaf hu hne]
    exact h.sized y u hu

include hx in
/-- **A tuple without extensions is taken out of the thread of its parent.** -/
theorem remove :
    SiblingsFit (SlotMap.remove a x)
    (((siblings.unlink a t.parent x).forget x).restart x none) := by
  have hlive : a.contains x = true := (SlotMap.contains_iff _ _).mpr ⟨t, hx⟩
  have hmem := h.mem_children_iff hx
  have hloose : t.parent = none → siblings.neighboursOf x = {} := fun hp =>
    h.loose x fun q hq => by
      rw [hmem, hp] at hq
      cases hq
  have hgone : ∀ q, x ∉ (a.children q).filter (· ≠ x) := fun q hq => by simp at hq
  have hnil : (a.children x).filter (· ≠ x) = [] := by
    rw [List.filter_eq_nil_iff]
    intro c hc
    obtain ⟨u, hu, hp⟩ := (Arena.mem_children h.arena).mp hc
    exact absurd hp (hleaf c u hu)
  have hchildren := funext (h.children_remove hleaf)
  refine ⟨Arena.wellFormed_remove h.arena hleaf, h.sized_remove hleaf, ?_, ?_⟩
  · rw [hchildren]
    have hunlinked := h.fits.unlink hlive h.live_of_mem_children hmem hloose
    refine ((hunlinked.forget hgone).restart_none x).congr fun q => ?_
    split
    · next hq => rw [← hq, hnil]
    · rfl
  · rw [hchildren]
    exact (h.loose.unlink h.fits hlive h.live_of_mem_children hmem).forget x

end Remove

end SiblingsFit

end RuleMatching
