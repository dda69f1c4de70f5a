import RuleMatching.Arena
import RuleMatching.Proofs.SlotMap

set_option autoImplicit false

/-! # Live tuples as a forest

In a well-formed arena every parent is live and older than its extensions (`Arena.Ordered`). The
facts of a tuple are then those of its parent with its own added (`Arena.handles_child`), statements
about a tuple follow from those about its parent (`Arena.ancestor_induction`), and a tuple is
younger than those that it extends (`Arena.age_lt_of_mem_children`). -/

namespace RuleMatching.Arena

/-- In a list of tuples, the newest first, every parent is older than its extensions. -/
inductive Ordered : List (TupleId × Tuple) → Prop
  | nil : Ordered []
  | cons {x : TupleId} {t : Tuple} {older : List (TupleId × Tuple)} (rest : Ordered older)
      (parent : ∀ p, t.parent = some p → p ∈ older.map Prod.fst) : Ordered ((x, t) :: older)

structure WellFormed (a : Arena) : Prop where
  valid : a.Valid
  ordered : Ordered a.live.reverse

theorem wellFormed_empty : WellFormed (SlotMap.empty : Arena) := ⟨SlotMap.valid_empty, .nil⟩

variable {a : Arena}

/-! ## Parents -/

theorem Ordered.parent_mem {l : List (TupleId × Tuple)} (ho : Ordered l) {x : TupleId} {t : Tuple}
    (h : (x, t) ∈ l) {p : TupleId} (hp : t.parent = some p) : p ∈ l.map Prod.fst := by
  induction ho with
  | nil => cases h
  | cons rest parent ih =>
      rcases List.mem_cons.mp h with heq | h
      · obtain ⟨rfl, rfl⟩ := Prod.mk.inj heq
        exact List.mem_cons_of_mem _ (parent p hp)
      · exact List.mem_cons_of_mem _ (ih h)

theorem parent_live (ha : a.WellFormed) {x : TupleId} {t : Tuple} (h : a.get? x = some t)
    {p : TupleId} (hp : t.parent = some p) : ∃ u, a.get? p = some u := by
  have hmem : (x, t) ∈ a.live.reverse :=
    List.mem_reverse.mpr ((SlotMap.get?_eq_some_iff ha.valid).mp h)
  have hp' := ha.ordered.parent_mem hmem hp
  rw [List.map_reverse, List.mem_reverse] at hp'
  exact (SlotMap.mem_refs_iff ha.valid).mp hp'

/-- What holds of a tuple if it holds of its parent holds of every tuple. -/
theorem ancestor_induction (ha : a.WellFormed) {C : TupleId → Prop}
    (step : ∀ x t, a.get? x = some t → (∀ p, t.parent = some p → C p) → C x) {x : TupleId}
    {t : Tuple} (h : a.get? x = some t) : C x := by
  have hlive : ∀ e ∈ a.live.reverse, a.get? e.1 = some e.2 := fun e he =>
    (SlotMap.get?_eq_some_iff ha.valid).mpr (List.mem_reverse.mp he)
  have hall : ∀ l, Ordered l → (∀ e ∈ l, a.get? e.1 = some e.2) → ∀ y ∈ l.map Prod.fst, C y := by
    intro l ho hl
    induction ho with
    | nil => simp
    | @cons y u older rest parent ih =>
        have hold := ih fun e he => hl e (List.mem_cons_of_mem _ he)
        intro z hz
        rcases List.mem_cons.mp hz with rfl | hz
        · exact step z u (hl (z, u) List.mem_cons_self) fun p hp => hold p (parent p hp)
        · exact hold z hz
  refine hall _ ha.ordered hlive x ?_
  rw [List.map_reverse, List.mem_reverse]
  exact (SlotMap.mem_refs_iff ha.valid).mpr ⟨t, h⟩

/-! ## Facts of a tuple -/

theorem ancestry_cons_ne {e : TupleId × Tuple} {older : List (TupleId × Tuple)} {x : TupleId}
    (h : e.1 ≠ x) : ancestry (e :: older) x = ancestry older x := by
  rw [ancestry, if_neg h]

theorem ancestry_eq {l : List (TupleId × Tuple)} (ho : Ordered l) (hn : (l.map Prod.fst).Nodup)
    {x : TupleId} {t : Tuple} (h : (x, t) ∈ l) :
    ancestry l x = t.handle :: (t.parent.map (ancestry l)).getD [] := by
  induction ho with
  | nil => cases h
  | @cons y u older rest parent ih =>
      rw [List.map_cons, List.nodup_cons] at hn
      have hne : ∀ p ∈ older.map Prod.fst, y ≠ p := fun p hp heq => hn.1 (heq ▸ hp)
      rcases List.mem_cons.mp h with heq | h
      · obtain ⟨rfl, rfl⟩ := Prod.mk.inj heq
        rw [ancestry, if_pos rfl]
        cases hp : t.parent with
        | none => rfl
        | some p => simp [ancestry_cons_ne (e := (x, t)) (hne p (parent p hp))]
      · have hx : y ≠ x := hne x (List.mem_map_of_mem h)
        rw [ancestry_cons_ne (e := (y, u)) hx, ih hn.2 h]
        cases hp : t.parent with
        | none => rfl
        | some p => simp [ancestry_cons_ne (e := (y, u)) (hne p (rest.parent_mem h hp))]

theorem handles_eq (ha : a.WellFormed) {x : TupleId} {t : Tuple} (h : a.get? x = some t) :
    a.handles x = (t.parent.map a.handles).getD [] ++ [t.handle] := by
  have hmem : (x, t) ∈ a.live.reverse :=
    List.mem_reverse.mpr ((SlotMap.get?_eq_some_iff ha.valid).mp h)
  have hn : (a.live.reverse.map Prod.fst).Nodup := by
    rw [List.map_reverse]
    exact List.nodup_reverse.mpr ha.valid.nodup_refs
  unfold handles
  rw [ancestry_eq ha.ordered hn hmem]
  cases t.parent <;> simp

theorem handles_root (ha : a.WellFormed) {x : TupleId} {t : Tuple} (h : a.get? x = some t)
    (hp : t.parent = none) : a.handles x = [t.handle] := by
  rw [handles_eq ha h, hp]
  rfl

theorem handles_child (ha : a.WellFormed) {x p : TupleId} {t : Tuple} (h : a.get? x = some t)
    (hp : t.parent = some p) : a.handles x = a.handles p ++ [t.handle] := by
  rw [handles_eq ha h, hp]
  rfl

theorem ancestry_of_not_mem {l : List (TupleId × Tuple)} {x : TupleId} (h : x ∉ l.map Prod.fst) :
    ancestry l x = [] := by
  induction l with
  | nil => rfl
  | cons e older ih =>
      rw [List.map_cons, List.mem_cons, not_or] at h
      rw [ancestry_cons_ne (Ne.symm h.1), ih h.2]

theorem handles_dead {x : TupleId} (hx : a.get? x = none) : a.handles x = [] := by
  have hmem := SlotMap.get?_eq_none_iff.mp hx
  rw [handles, ancestry_of_not_mem]
  · rfl
  · rwa [List.map_reverse, List.mem_reverse]

/-- **A tuple keeps its facts as long as it and its ancestors are live.** -/
theorem handles_congr {a' : Arena} (ha : a.WellFormed) (ha' : a'.WellFormed) {S : TupleId → Prop}
    (hS : ∀ x t, S x → a.get? x = some t → ∃ t', a'.get? x = some t' ∧ t'.handle = t.handle ∧
      t'.parent = t.parent ∧ ∀ p, t.parent = some p → S p)
    {x : TupleId} {t : Tuple} (hx : S x) (h : a.get? x = some t) : a'.handles x = a.handles x := by
  refine ancestor_induction ha (C := fun x => S x → a'.handles x = a.handles x) ?_ h hx
  intro y u hu ih hy
  obtain ⟨u', hu', hh, hp, hup⟩ := hS y u hy hu
  rw [handles_eq ha hu, handles_eq ha' hu', hh, hp]
  cases hpar : u.parent with
  | none => rfl
  | some p => simp [ih p hpar (hup p hpar)]

/-- Only the references, handles and parents of the tuples matter. -/
theorem ancestry_map {g : TupleId × Tuple → TupleId × Tuple}
    (hg : ∀ e, (g e).1 = e.1 ∧ (g e).2.handle = e.2.handle ∧ (g e).2.parent = e.2.parent)
    (l : List (TupleId × Tuple)) (x : TupleId) : ancestry (l.map g) x = ancestry l x := by
  induction l generalizing x with
  | nil => rfl
  | cons e older ih =>
      obtain ⟨h1, h2, h3⟩ := hg e
      rw [List.map_cons, ancestry, ancestry, h1, h2, h3, ih]
      cases e.2.parent <;> simp [ih]

/-! ## Selections of tuples -/

/-- The tuples with a property, the oldest first. -/
def refsWhere (a : Arena) (p : Tuple → Bool) : List TupleId :=
  (a.live.filter fun e => p e.2).map Prod.fst

theorem mem_refsWhere (ha : a.Valid) {p : Tuple → Bool} {x : TupleId} :
    x ∈ a.refsWhere p ↔ ∃ t, a.get? x = some t ∧ p t = true := by
  simp only [refsWhere, List.mem_map, List.mem_filter, Prod.exists, exists_and_right,
    exists_eq_right, SlotMap.get?_eq_some_iff ha]

theorem nodup_refsWhere (ha : a.Valid) (p : Tuple → Bool) : (a.refsWhere p).Nodup :=
  ha.nodup_refs.sublist (List.filter_sublist.map _)

theorem length_refsWhere_le (a : Arena) (p : Tuple → Bool) : (a.refsWhere p).length ≤ a.size := by
  rw [refsWhere, List.length_map]
  exact List.length_filter_le _ _

theorem refsWhere_add (a : Arena) (p : Tuple → Bool) (t : Tuple) :
    Arena.refsWhere (a.add t) p = a.refsWhere p ++ if p t then [a.next] else [] := by
  simp only [refsWhere, SlotMap.live_add, List.filter_append, List.map_append]
  cases hp : p t <;> simp [hp]

theorem refsWhere_remove (a : Arena) (p : Tuple → Bool) (x : TupleId) :
    Arena.refsWhere (a.remove x) p = (a.refsWhere p).filter (· ≠ x) := by
  simp only [refsWhere, SlotMap.live_remove, List.filter_map, List.filter_filter]
  congr 1
  exact List.filter_congr fun e _ => Bool.and_comm _ _

/-- A change that leaves the property as it is leaves the selection. -/
theorem refsWhere_modify (a : Arena) {p : Tuple → Bool} (x : TupleId) {f : Tuple → Tuple}
    (hf : ∀ t, p (f t) = p t) : Arena.refsWhere (a.modify x f) p = a.refsWhere p := by
  simp only [refsWhere, SlotMap.modify, List.filter_map, List.map_map]
  rw [show ((fun e : TupleId × Tuple => p e.2) ∘ fun e => if e.1 = x then (e.1, f e.2) else e) =
    fun e => p e.2 by
      funext e
      simp only [Function.comp_apply]
      split
      · exact hf e.2
      · rfl]
  apply List.map_congr_left
  intro e _
  simp only [Function.comp_apply]
  split <;> rfl

/-- A change of the newest tuple. -/
theorem refsWhere_modify_newest (ha : a.Valid) {p : Tuple → Bool} {x : TupleId} {t : Tuple}
    (hx : a.live.getLast? = some (x, t)) {f : Tuple → Tuple} (ht : p t = false) :
    Arena.refsWhere (a.modify x f) p = a.refsWhere p ++ if p (f t) then [x] else [] := by
  obtain ⟨older, hlive⟩ := List.getLast?_eq_some_iff.mp hx
  have hn := ha.nodup_refs
  rw [SlotMap.refs, hlive, List.map_append, List.nodup_append] at hn
  have hold : older.map (fun e => if e.1 = x then (e.1, f e.2) else e) = older := by
    conv_rhs => rw [← List.map_id older]
    apply List.map_congr_left
    intro e he
    rw [if_neg]
    · rfl
    · exact hn.2.2 e.1 (List.mem_map_of_mem he) x (by simp)
  simp only [refsWhere, SlotMap.modify, hlive, List.map_append, hold, List.filter_append]
  cases hp : p (f t) <;> simp [hp, ht]

theorem mem_children_iff (ha : a.Valid) {x c : TupleId} {t : Tuple} (hx : a.get? x = some t) :
    c ∈ a.children x ↔ ∃ u, a.get? c = some u ∧ u.parent = some x := by
  have hlist : a.children x = (a.refsWhere fun u => u.parent = some x).reverse := by
    rw [children, if_pos ((SlotMap.contains_iff a x).mpr ⟨t, hx⟩)]
    rfl
  rw [hlist, List.mem_reverse, mem_refsWhere ha]
  simp

theorem children_dead {x : TupleId} (hx : a.get? x = none) : a.children x = [] := by
  rw [children, if_neg]
  simp [SlotMap.contains, hx]

/-! ## Changes of the arena -/

theorem wellFormed_add (ha : a.WellFormed) {t : Tuple}
    (hp : ∀ p, t.parent = some p → ∃ u, a.get? p = some u) : WellFormed (a.add t) := by
  refine ⟨SlotMap.valid_add ha.valid t, ?_⟩
  rw [SlotMap.live_add, List.reverse_concat]
  refine .cons ha.ordered fun p h => ?_
  rw [List.map_reverse, List.mem_reverse]
  exact (SlotMap.mem_refs_iff ha.valid).mpr (hp p h)

theorem Ordered.filter {l : List (TupleId × Tuple)} (ho : Ordered l) {x : TupleId}
    (hx : ∀ e ∈ l, e.2.parent ≠ some x) : Ordered (l.filter fun e => e.1 ≠ x) := by
  induction ho with
  | nil => exact .nil
  | @cons y u older rest parent ih =>
      have hrest := ih fun e he => hx e (List.mem_cons_of_mem _ he)
      rw [List.filter_cons]
      split
      · refine .cons hrest fun p hp => ?_
        obtain ⟨e, he, rfl⟩ := List.mem_map.mp (parent p hp)
        refine List.mem_map_of_mem (List.mem_filter.mpr ⟨he, ?_⟩)
        have hne : e.1 ≠ x := fun heq => hx (y, u) List.mem_cons_self (heq ▸ hp)
        simpa using hne
      · exact hrest

theorem wellFormed_remove (ha : a.WellFormed) {x : TupleId}
    (hx : ∀ y u, a.get? y = some u → u.parent ≠ some x) : WellFormed (a.remove x) := by
  refine ⟨SlotMap.valid_remove ha.valid x, ?_⟩
  rw [SlotMap.live_remove, ← List.filter_reverse]
  refine ha.ordered.filter fun e he => hx e.1 e.2 ?_
  exact (SlotMap.get?_eq_some_iff ha.valid).mpr (List.mem_reverse.mp he)

theorem Ordered.map {l : List (TupleId × Tuple)} (ho : Ordered l)
    {g : TupleId × Tuple → TupleId × Tuple}
    (hg : ∀ e, (g e).1 = e.1 ∧ (g e).2.parent = e.2.parent) : Ordered (l.map g) := by
  induction ho with
  | nil => exact .nil
  | @cons y u older rest parent ih =>
      refine .cons ih fun p hp => ?_
      rw [(hg (y, u)).2] at hp
      have hfst : (older.map g).map Prod.fst = older.map Prod.fst := by
        rw [List.map_map]
        exact List.map_congr_left fun e _ => (hg e).1
      rw [hfst]
      exact parent p hp

theorem wellFormed_setLocation (ha : a.WellFormed) (x : TupleId) (l : Location) :
    WellFormed (a.setLocation x l) := by
  refine ⟨SlotMap.valid_modify ha.valid x _, ?_⟩
  unfold setLocation SlotMap.modify
  rw [← List.map_reverse]
  refine ha.ordered.map fun e => ?_
  split <;> exact ⟨rfl, rfl⟩

theorem get?_setLocation (a : Arena) (x y : TupleId) (l : Location) :
    (a.setLocation x l).get? y =
      if y = x then (a.get? y).map fun t => { t with location := some l } else a.get? y :=
  SlotMap.get?_modify a x y _

theorem contains_setLocation (a : Arena) (x y : TupleId) (l : Location) :
    (a.setLocation x l).contains y = a.contains y := by
  rw [SlotMap.contains, get?_setLocation]
  split
  · exact Option.isSome_map
  · rfl

theorem handles_setLocation (a : Arena) (x y : TupleId) (l : Location) :
    (a.setLocation x l).handles y = a.handles y := by
  unfold handles setLocation SlotMap.modify
  rw [← List.map_reverse, ancestry_map]
  intro e
  split <;> exact ⟨rfl, rfl, rfl⟩

theorem handles_add (ha : a.WellFormed) {t : Tuple}
    (hp : ∀ p, t.parent = some p → ∃ u, a.get? p = some u) {x : TupleId} {u : Tuple}
    (hx : a.get? x = some u) : Arena.handles (a.add t) x = a.handles x := by
  refine handles_congr ha (wellFormed_add ha hp) (S := fun y => ∃ v, a.get? y = some v) ?_
    ⟨u, hx⟩ hx
  rintro y v - hv
  have hne : y ≠ a.next := fun h => by
    rw [h, SlotMap.get?_next ha.valid] at hv
    cases hv
  refine ⟨v, ?_, rfl, rfl, fun p hp => parent_live ha hv hp⟩
  rw [SlotMap.get?_add ha.valid, if_neg hne, hv]

theorem handles_remove (ha : a.WellFormed) {x : TupleId}
    (hx : ∀ y u, a.get? y = some u → u.parent ≠ some x) {y : TupleId} {u : Tuple}
    (hy : a.get? y = some u) (hne : y ≠ x) : Arena.handles (a.remove x) y = a.handles y := by
  refine handles_congr ha (wellFormed_remove ha hx) (S := fun y => y ≠ x) ?_ hne hy
  intro z v hz hv
  refine ⟨v, ?_, rfl, rfl, fun p hp heq => hx z v hv (heq ▸ hp)⟩
  rw [SlotMap.get?_remove ha.valid, if_neg hz, hv]

/-! ## Age -/

/-- The number of tuples newer than the given one. -/
def age (a : Arena) (x : TupleId) : Nat := (a.live.reverse.map Prod.fst).idxOf x

theorem Ordered.idxOf_lt {l : List (TupleId × Tuple)} (ho : Ordered l) (hn : (l.map Prod.fst).Nodup)
    {c x : TupleId} {u : Tuple} (hc : (c, u) ∈ l) (hp : u.parent = some x) :
    (l.map Prod.fst).idxOf c < (l.map Prod.fst).idxOf x := by
  induction ho with
  | nil => cases hc
  | @cons y v older rest parent ih =>
      rw [List.map_cons, List.nodup_cons] at hn
      have hx : x ∈ older.map Prod.fst := by
        rcases List.mem_cons.mp hc with heq | hc
        · obtain ⟨rfl, rfl⟩ := Prod.mk.inj heq
          exact parent x hp
        · exact rest.parent_mem hc hp
      have hyx : y ≠ x := fun heq => hn.1 (heq ▸ hx)
      rw [List.map_cons, List.idxOf_cons_ne _ hyx]
      rcases List.mem_cons.mp hc with heq | hc
      · obtain ⟨rfl, rfl⟩ := Prod.mk.inj heq
        rw [List.idxOf_cons_self]
        exact Nat.succ_pos _
      · have hmem : c ∈ older.map Prod.fst := List.mem_map_of_mem hc
        have hyc : y ≠ c := fun heq => hn.1 (heq ▸ hmem)
        rw [List.idxOf_cons_ne _ hyc]
        exact Nat.succ_lt_succ (ih hn.2 hc)

theorem age_lt_of_mem_children (ha : a.WellFormed) {x c : TupleId} (hc : c ∈ a.children x) :
    a.age c < a.age x := by
  have hn : (a.live.reverse.map Prod.fst).Nodup := by
    rw [List.map_reverse]
    exact List.nodup_reverse.mpr ha.valid.nodup_refs
  cases hx : a.get? x with
  | none =>
      rw [children_dead hx] at hc
      cases hc
  | some t =>
      obtain ⟨u, hu, hp⟩ := (mem_children_iff ha.valid hx).mp hc
      have hmem : (c, u) ∈ a.live.reverse :=
        List.mem_reverse.mpr ((SlotMap.get?_eq_some_iff ha.valid).mp hu)
      exact ha.ordered.idxOf_lt hn hmem hp

theorem age_le_size (a : Arena) (x : TupleId) : a.age x ≤ a.size := by
  have hlen : (a.live.reverse.map Prod.fst).length = a.size := by simp [SlotMap.size]
  rw [← hlen]
  exact List.idxOf_le_length

theorem age_lt_size {x : TupleId} (hx : x ∈ a.refs) : a.age x < a.size := by
  have hlen : (a.live.reverse.map Prod.fst).length = a.size := by simp [SlotMap.size]
  rw [← hlen]
  refine List.idxOf_lt_length_of_mem ?_
  rwa [List.map_reverse, List.mem_reverse]

end RuleMatching.Arena
