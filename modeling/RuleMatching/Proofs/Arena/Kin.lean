import RuleMatching.Proofs.Arena.Thread

set_option autoImplicit false

/-! # Tuples and their kin

What a change of the arena does to the extensions of each tuple (`Arena.children_add`,
`Arena.children_of_live`). Going down from a tuple to its extensions ends after no more steps than
there are tuples (`Arena.within_size`). Going up from a tuple to its parent ends at a match of one
pattern, and passes the facts of the tuple from the last to the first (`Arena.exists_walk_up`). -/

namespace RuleMatching.Arena

variable {a a' : Arena}

/-! ## Extensions after a change -/

theorem children_eq (ha : a.WellFormed) (x : TupleId) :
    a.children x = (a.refsWhere fun u => decide (u.parent = some x)).reverse := by
  cases hx : a.get? x with
  | some t =>
      rw [children, if_pos ((SlotMap.contains_iff a x).mpr ⟨t, hx⟩)]
      rfl
  | none =>
      -- Parents are live, so nothing extends a tuple that is not.
      rw [children_dead hx, eq_comm, List.reverse_eq_nil_iff, List.eq_nil_iff_forall_not_mem]
      intro c hc
      obtain ⟨u, hu, hp⟩ := (mem_refsWhere ha.valid).mp hc
      obtain ⟨v, hv⟩ := parent_live ha hu (decide_eq_true_eq.mp hp)
      rw [hx] at hv
      cases hv

theorem mem_children (ha : a.WellFormed) {x c : TupleId} :
    c ∈ a.children x ↔ ∃ u, a.get? c = some u ∧ u.parent = some x := by
  rw [children_eq ha, List.mem_reverse, mem_refsWhere ha.valid]
  simp only [decide_eq_true_eq]

theorem nodup_children (ha : a.WellFormed) (x : TupleId) : (a.children x).Nodup := by
  rw [children_eq ha]
  exact List.nodup_reverse.mpr (nodup_refsWhere ha.valid _)

theorem length_children_le (ha : a.WellFormed) (x : TupleId) : (a.children x).length ≤ a.size := by
  rw [children_eq ha, List.length_reverse]
  exact length_refsWhere_le a _

theorem children_add (ha : a.WellFormed) {t : Tuple}
    (hp : ∀ p, t.parent = some p → ∃ u, a.get? p = some u) (x : TupleId) :
    Arena.children (a.add t) x =
      if t.parent = some x then a.next :: a.children x else a.children x := by
  rw [children_eq (wellFormed_add ha hp), refsWhere_add, List.reverse_append, children_eq ha]
  by_cases h : t.parent = some x <;> simp [h]

theorem children_setLocation (ha : a.WellFormed) (y : TupleId) (l : Location) (x : TupleId) :
    (a.setLocation y l).children x = a.children x := by
  rw [children_eq (wellFormed_setLocation ha y l), children_eq ha, setLocation, refsWhere_modify]
  exact fun t => rfl

/-- Without some tuples. -/
theorem children_of_live (ha : a.WellFormed) (ha' : a'.WellFormed) {gone : List TupleId}
    (hlive : a'.live = a.live.filter fun e => e.1 ∉ gone) (x : TupleId) :
    a'.children x = (a.children x).filter (· ∉ gone) := by
  rw [children_eq ha, children_eq ha', refsWhere, refsWhere, hlive, List.filter_reverse,
    List.filter_map, List.filter_filter, List.filter_filter]
  congr 2
  exact List.filter_congr fun e _ => Bool.and_comm _ _

/-! ## Chains of extensions -/

/-- There are no longer chains of extensions below the tuple. -/
def Within (a : Arena) : Nat → TupleId → Prop
  | 0, x => a.children x = []
  | depth + 1, x => ∀ c ∈ a.children x, a.Within depth c

theorem within_of_age_le (ha : a.WellFormed) {depth : Nat} {x : TupleId} (hd : a.age x ≤ depth) :
    a.Within depth x := by
  induction depth generalizing x with
  | zero =>
      refine List.eq_nil_iff_forall_not_mem.mpr fun c hc => ?_
      have := age_lt_of_mem_children ha hc
      omega
  | succ depth ih =>
      intro c hc
      have := age_lt_of_mem_children ha hc
      exact ih (by omega)

theorem within_size (ha : a.WellFormed) (x : TupleId) : a.Within a.size x :=
  within_of_age_le ha (age_le_size a x)

/-- Without some extensions the chains do not get longer. -/
theorem Within.mono {depth : Nat} {x : TupleId} (hx : a.Within depth x)
    (h : ∀ y, ∀ c ∈ a'.children y, c ∈ a.children y) : a'.Within depth x := by
  induction depth generalizing x with
  | zero =>
      refine List.eq_nil_iff_forall_not_mem.mpr fun c hc => ?_
      have hmem := h x c hc
      rw [hx] at hmem
      cases hmem
  | succ depth ih => exact fun c hc => ih (hx c (h x c hc))

/-! ## The way up -/

/-- **Going from a tuple to its parent and on ends, and passes its facts from the last
to the first.** -/
theorem exists_walk_up (ha : a.WellFormed) {x : TupleId} {t : Tuple} (hx : a.get? x = some t) :
    ∃ path, Walk (fun y => (a.get? y).bind Tuple.parent) (some x) path ∧
      List.Forall₂ (fun y h => ∃ u, a.get? y = some u ∧
        u.handle = h) path (a.handles x).reverse := by
  refine ancestor_induction ha (C := fun x => ∃ path, Walk _ (some x) path ∧
    List.Forall₂ (fun y h => ∃ u, a.get? y = some u ∧ u.handle = h) path (a.handles x).reverse)
    (fun y u hu ih => ?_) hx
  cases hp : u.parent with
  | none =>
      refine ⟨[y], .step ?_, ?_⟩
      · rw [hu, Option.bind_some, hp]
        exact .done
      · rw [handles_root ha hu hp]
        exact .cons ⟨u, hu, rfl⟩ .nil
  | some q =>
      obtain ⟨path, hwalk, hhandles⟩ := ih q hp
      refine ⟨y :: path, .step ?_, ?_⟩
      · rw [hu, Option.bind_some, hp]
        exact hwalk
      · rw [handles_child ha hu hp, List.reverse_concat]
        exact .cons ⟨u, hu, rfl⟩ hhandles

end RuleMatching.Arena
