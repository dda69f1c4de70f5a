import Mathlib.Data.List.Nodup
import Mathlib.Data.List.Perm.Subperm
import RuleMatching.Proofs.FiniteMap
import RuleMatching.SlotMap

set_option autoImplicit false

/-! # Containers with stable references, proved

`SlotMap.Valid` says that the bookkeeping of a container fits its items: an item sits in the current
generation of a slot that is not free. It holds of every container that is built by `add`, `remove`
and `modify`, and it makes the next reference a new one (`SlotMap.get?_next`). -/

namespace RuleMatching.SlotMap

variable {α : Type}

/-! ## Lists of slots -/

section

variable {β γ : Type}

/-- A change of an entry that spares what is read of it. -/
theorem map_modify_of_eq (l : List β) (i : Nat) {g : β → β} {f : β → γ} (hg : ∀ b, f (g b) = f b) :
    (l.modify i g).map f = l.map f := by
  refine List.ext_getElem? fun j => ?_
  rw [List.getElem?_map, List.getElem?_map, List.getElem?_modify]
  cases l[j]? with
  | none => rfl
  | some b =>
      by_cases hij : i = j
      · simp [hij, hg]
      · simp [hij]

theorem map_modify_eq_set {l : List β} {i : Nat} (hi : i < l.length) (g : β → β) (f : β → γ) :
    (l.modify i g).map f = (l.map f).set i (f (g l[i])) := by
  refine List.ext_getElem? fun j => ?_
  rw [List.getElem?_map, List.getElem?_modify, List.getElem?_set, List.length_map,
    List.getElem?_map]
  by_cases hij : i = j
  · subst hij
    simp [hi]
  · simp [hij]

end

/-! ## Bookkeeping -/

/-- The references of the items, in the order of addition. -/
def refs (m : SlotMap α) : List SlotRef := m.live.map Prod.fst

/-- The bookkeeping fits the items. -/
structure Valid (m : SlotMap α) : Prop where
  nodup_refs : m.refs.Nodup
  nodup_free : m.free.Nodup
  free_lt : ∀ i ∈ m.free, i < m.generations.length
  current : ∀ r ∈ m.refs, m.generations[r.index]? = some r.generation
  occupied : ∀ r ∈ m.refs, r.index ∉ m.free

theorem valid_empty : (empty : SlotMap α).Valid := by
  constructor <;> simp [refs, empty]

/-- A live reference has the current generation of its place, so no two live ones share a place. -/
theorem Valid.eq_of_index_eq {m : SlotMap α} (hm : m.Valid) {r s : SlotRef} (hr : r ∈ m.refs)
    (hs : s ∈ m.refs) (h : r.index = s.index) : r = s := by
  have hgeneration := hm.current r hr
  rw [h, hm.current s hs, Option.some.injEq] at hgeneration
  cases r
  cases s
  simp_all

/-! ## Lookups -/

theorem get?_eq_some_iff {m : SlotMap α} (hm : m.Valid) {r : SlotRef} {a : α} :
    m.get? r = some a ↔ (r, a) ∈ m.live :=
  FiniteMap.lookup_eq_some_iff hm.nodup_refs

theorem mem_refs_iff {m : SlotMap α} (hm : m.Valid) {r : SlotRef} :
    r ∈ m.refs ↔ ∃ a, m.get? r = some a := by
  simp only [refs, List.mem_map, Prod.exists, exists_and_right, exists_eq_right,
    get?_eq_some_iff hm]

theorem contains_iff (m : SlotMap α) (r : SlotRef) :
    m.contains r = true ↔ ∃ a, m.get? r = some a := by
  simp [contains, Option.isSome_iff_exists]

theorem contains_eq_false_iff {m : SlotMap α} {r : SlotRef} :
    m.contains r = false ↔ m.get? r = none := by
  simp [contains]

theorem mem_toList_iff {m : SlotMap α} (hm : m.Valid) {a : α} :
    a ∈ m.toList ↔ ∃ r, m.get? r = some a := by
  simp only [toList, List.mem_map, Prod.exists, exists_eq_right, get?_eq_some_iff hm]

theorem get?_eq_none_iff {m : SlotMap α} {r : SlotRef} : m.get? r = none ↔ r ∉ m.refs :=
  FiniteMap.lookup_eq_none_iff

/-- There are no more references of items than items. -/
theorem length_le_size {m : SlotMap α} {l : List SlotRef} (hn : l.Nodup)
    (hl : ∀ r ∈ l, m.contains r = true) : l.length ≤ m.size :=
  have hsubset : l ⊆ m.refs := fun r hr => by
    obtain ⟨a, ha⟩ := (contains_iff m r).mp (hl r hr)
    by_contra hnot
    rw [get?_eq_none_iff.mpr hnot] at ha
    cases ha
  calc l.length ≤ m.refs.length := (hn.subperm hsubset).length_le
    _ = m.size := List.length_map Prod.fst

/-! ## The next reference -/

/-- The slot that is used next holds no item. -/
theorem index_ne_next {m : SlotMap α} (hm : m.Valid) {r : SlotRef} (hr : r ∈ m.refs) :
    r.index ≠ m.next.index := by
  intro hindex
  have hcurrent := hm.current r hr
  have hoccupied := hm.occupied r hr
  rw [hindex] at hcurrent hoccupied
  unfold next at hcurrent hoccupied
  cases hfree : m.free with
  | nil => simp [hfree] at hcurrent
  | cons i rest => simp [hfree] at hoccupied

/-- A slot in its next generation, or a slot of its own, has never been handed out to
a live item. -/
theorem next_not_mem_refs {m : SlotMap α} (hm : m.Valid) : m.next ∉ m.refs :=
  fun hmem => index_ne_next hm hmem rfl

theorem get?_next {m : SlotMap α} (hm : m.Valid) : m.get? m.next = none :=
  get?_eq_none_iff.mpr (next_not_mem_refs hm)

theorem contains_next {m : SlotMap α} (hm : m.Valid) : m.contains m.next = false := by
  rw [contains, get?_next hm]
  rfl

/-! ## Addition -/

@[simp] theorem live_add (m : SlotMap α) (a : α) : (m.add a).live = m.live ++ [(m.next, a)] := rfl

@[simp] theorem size_add (m : SlotMap α) (a : α) : (m.add a).size = m.size + 1 := by
  rw [size, live_add, List.length_append, List.length_singleton, size]

@[simp] theorem refs_add (m : SlotMap α) (a : α) : (m.add a).refs = m.refs ++ [m.next] := by
  simp [refs]

@[simp] theorem toList_add (m : SlotMap α) (a : α) : (m.add a).toList = m.toList ++ [a] := by
  simp [toList]

theorem mem_refs_add {m : SlotMap α} {a : α} {r : SlotRef} :
    r ∈ (m.add a).refs ↔ r ∈ m.refs ∨ r = m.next := by
  rw [refs_add, List.mem_append, List.mem_singleton]

theorem nodup_refs_add {m : SlotMap α} (hm : m.Valid) (a : α) : (m.add a).refs.Nodup := by
  rw [refs_add]
  refine List.nodup_append.mpr ⟨hm.nodup_refs, List.nodup_singleton _, fun x hx y hy h => ?_⟩
  rw [List.mem_singleton] at hy
  rw [h, hy] at hx
  exact next_not_mem_refs hm hx

/-- A new item takes the last place that was freed, under its next generation; if there is none, it
takes a new place. -/
theorem valid_add {m : SlotMap α} (hm : m.Valid) (a : α) : (m.add a).Valid := by
  cases hfree : m.free with
  | nil =>
      have hnext : m.next = ⟨m.generations.length, 0⟩ := by simp [next, hfree]
      have hgen : (m.add a).generations = m.generations ++ [0] := by simp [add, hfree]
      have hfree' : (m.add a).free = [] := by simp [add, hfree]
      exact {
        nodup_refs := nodup_refs_add hm a
        nodup_free := by simp [hfree']
        free_lt := by simp [hfree']
        current := fun r hr => by
          rw [hgen]
          rcases mem_refs_add.mp hr with hr | rfl
          -- References to older places do not see the new place.
          · have hlt := (List.getElem?_eq_some_iff.mp (hm.current r hr)).1
            rw [List.getElem?_append_left hlt]
            exact hm.current r hr
          · rw [hnext]
            simp
        occupied := by simp [hfree'] }
  | cons i rest =>
      have hnext : m.next = ⟨i, m.generations.getD i 0 + 1⟩ := by simp [next, hfree]
      have hgen : (m.add a).generations = m.generations.set i (m.generations.getD i 0 + 1) := by
        simp [add, hfree]
      have hfree' : (m.add a).free = rest := by simp [add, hfree]
      have hnd := hm.nodup_free
      rw [hfree, List.nodup_cons] at hnd
      have hi : i < m.generations.length := hm.free_lt i (by simp [hfree])
      exact {
        nodup_refs := nodup_refs_add hm a
        nodup_free := by
          rw [hfree']
          exact hnd.2
        free_lt := fun j hj => by
          rw [hfree'] at hj
          rw [hgen, List.length_set]
          exact hm.free_lt j (by simp [hfree, hj])
        current := fun r hr => by
          rw [hgen]
          rcases mem_refs_add.mp hr with hr | rfl
          -- A free place is in no live reference, so a new generation of it concerns none of them.
          · have hne : i ≠ r.index := fun h => hm.occupied r hr (by simp [hfree, h])
            rw [List.getElem?_set_ne hne]
            exact hm.current r hr
          · rw [hnext, List.getElem?_set_self hi]
        occupied := fun r hr => by
          rw [hfree']
          rcases mem_refs_add.mp hr with hr | rfl
          · intro h
            exact hm.occupied r hr (by simp [hfree, h])
          · rw [hnext]
            exact hnd.1 }

theorem get?_add {m : SlotMap α} (hm : m.Valid) (a : α) (r : SlotRef) :
    (m.add a).get? r = if r = m.next then some a else m.get? r := by
  by_cases hr : r = m.next
  · subst hr
    rw [if_pos rfl, get?_eq_some_iff (valid_add hm a)]
    simp
  · rw [if_neg hr]
    simp only [get?, live_add, List.lookup_append]
    have hne : (r == m.next) = false := by simp [hr]
    cases m.live.lookup r <;> simp [List.lookup_cons, hne]

/-- What was there stays where it was. -/
theorem get?_add_of_get? {m : SlotMap α} (hm : m.Valid) (a : α) {r : SlotRef} {b : α}
    (hr : m.get? r = some b) : (m.add a).get? r = some b := by
  have hne : r ≠ m.next := by
    rintro rfl
    rw [get?_next hm] at hr
    cases hr
  rw [get?_add hm, if_neg hne]
  exact hr

theorem contains_add {m : SlotMap α} (hm : m.Valid) (a : α) (r : SlotRef) :
    (m.add a).contains r = true ↔ r = m.next ∨ m.contains r = true := by
  rw [contains, contains, get?_add hm]
  by_cases hr : r = m.next
  · simp [hr]
  · simp [hr]

/-! ## Removal -/

theorem live_remove (m : SlotMap α) (r : SlotRef) :
    (m.remove r).live = m.live.filter (fun e => e.1 ≠ r) := by
  unfold remove
  split
  · rfl
  · next h =>
    have hnone : m.get? r = none := by simpa [contains] using h
    have hr := get?_eq_none_iff.mp hnone
    symm
    rw [List.filter_eq_self]
    intro e he
    have : e.1 ≠ r := fun h => hr (h ▸ List.mem_map_of_mem he)
    simp [this]

theorem refs_remove (m : SlotMap α) (r : SlotRef) : (m.remove r).refs = m.refs.filter (· ≠ r) := by
  simp only [refs, live_remove, List.filter_map]
  rfl

theorem length_refs (m : SlotMap α) : m.refs.length = m.size := List.length_map Prod.fst

theorem size_remove {m : SlotMap α} (hm : m.Valid) {r : SlotRef} {a : α} (hr : m.get? r = some a) :
    (m.remove r).size + 1 = m.size := by
  have hmem : r ∈ m.refs := (mem_refs_iff hm).mpr ⟨a, hr⟩
  rw [← length_refs, refs_remove, length_filter_ne hm.nodup_refs hmem, length_refs]

theorem valid_remove {m : SlotMap α} (hm : m.Valid) (r : SlotRef) : (m.remove r).Valid := by
  by_cases hc : m.contains r = true
  · have hr : r ∈ m.refs := (mem_refs_iff hm).mpr ((contains_iff m r).mp hc)
    have hfree : (m.remove r).free = r.index :: m.free := by simp [remove, hc]
    have hgen : (m.remove r).generations = m.generations := by simp [remove, hc]
    exact {
      nodup_refs := by
        rw [refs_remove]
        exact hm.nodup_refs.filter _
      nodup_free := by
        rw [hfree, List.nodup_cons]
        exact ⟨hm.occupied r hr, hm.nodup_free⟩
      free_lt := fun i hi => by
        rw [hfree, List.mem_cons] at hi
        rw [hgen]
        rcases hi with rfl | hi
        · exact (List.getElem?_eq_some_iff.mp (hm.current r hr)).1
        · exact hm.free_lt i hi
      current := fun x hx => by
        rw [refs_remove, List.mem_filter] at hx
        rw [hgen]
        exact hm.current x hx.1
      occupied := fun x hx => by
        rw [refs_remove, List.mem_filter] at hx
        have hne : x ≠ r := by simpa using hx.2
        -- No two live references share a place.
        rw [hfree, List.mem_cons, not_or]
        exact ⟨fun hidx => hne (hm.eq_of_index_eq hx.1 hr hidx), hm.occupied x hx.1⟩ }
  · have : m.remove r = m := by simp [remove, hc]
    rwa [this]

theorem get?_remove {m : SlotMap α} (hm : m.Valid) (r x : SlotRef) :
    (m.remove r).get? x = if x = r then none else m.get? x := by
  by_cases hx : x = r
  · subst hx
    rw [if_pos rfl, get?_eq_none_iff, refs_remove]
    simp
  · rw [if_neg hx]
    ext a
    rw [get?_eq_some_iff (valid_remove hm r), get?_eq_some_iff hm, live_remove, List.mem_filter]
    simp [hx]

/-- Other items stay where they were. -/
theorem get?_remove_of_ne {m : SlotMap α} (hm : m.Valid) {r x : SlotRef} {a b : α}
    (hr : m.get? r = some a) (hx : m.get? x = some b) (hne : b ≠ a) :
    (m.remove r).get? x = some b := by
  have hxr : x ≠ r := by
    rintro rfl
    rw [hx] at hr
    exact hne (Option.some.inj hr)
  rw [get?_remove hm, if_neg hxr]
  exact hx

/-- Without repeated items, removal by reference is removal by item. -/
theorem toList_remove [DecidableEq α] {m : SlotMap α} (hm : m.Valid) {r : SlotRef} {a : α}
    (hr : m.get? r = some a) (hn : m.toList.Nodup) :
    (m.remove r).toList = m.toList.filter (· ≠ a) := by
  have hmem := (get?_eq_some_iff hm).mp hr
  rw [toList, live_remove, toList, List.filter_map]
  congr 1
  apply List.filter_congr
  intro e he
  have hiff : e.1 = r ↔ e.2 = a := by
    constructor
    · intro h
      have hget := (get?_eq_some_iff hm).mpr he
      rw [h, hr] at hget
      exact (Option.some.inj hget).symm
    · intro h
      exact congrArg Prod.fst (List.inj_on_of_nodup_map hn he hmem h)
  simp [hiff]

/-! ## Change of an item -/

@[simp] theorem refs_modify (m : SlotMap α) (r : SlotRef) (f : α → α) :
    (m.modify r f).refs = m.refs := by
  simp only [refs, modify, List.map_map]
  apply List.map_congr_left
  intro e _
  simp only [Function.comp_apply]
  split <;> rfl

@[simp] theorem size_modify (m : SlotMap α) (r : SlotRef) (f : α → α) :
    (m.modify r f).size = m.size := by
  rw [size, modify, List.length_map, size]

theorem valid_modify {m : SlotMap α} (hm : m.Valid) (r : SlotRef) (f : α → α) :
    (m.modify r f).Valid := by
  refine ⟨?_, hm.nodup_free, hm.free_lt, ?_, ?_⟩
  · rw [refs_modify]
    exact hm.nodup_refs
  · rw [refs_modify]
    exact hm.current
  · rw [refs_modify]
    exact hm.occupied

theorem get?_modify (m : SlotMap α) (r x : SlotRef) (f : α → α) :
    (m.modify r f).get? x = if x = r then (m.get? x).map f else m.get? x := by
  simp only [get?, modify]
  induction m.live with
  | nil => simp
  | cons e rest ih =>
      obtain ⟨s, b⟩ := e
      by_cases hs : s = r
      · by_cases hx : x = s
        · simp [hs, hx]
        · have hne : (x == r) = false := by simp [← hs, hx]
          simpa [hs, List.lookup_cons, hne] using ih
      · by_cases hx : x = s
        · simp [hs, hx]
        · have hne : (x == s) = false := by simp [hx]
          simpa [hs, List.lookup_cons, hne] using ih

/-! ## References that are spent -/

/-- The reference was handed out, and its item is gone. -/
def Spent (m : SlotMap α) (r : SlotRef) : Prop :=
  m.get? r = none ∧ ∃ g, m.generations[r.index]? = some g ∧ r.generation ≤ g

/-- A slot does not hand out a generation that it has reached. -/
theorem ne_next_of_le {m : SlotMap α} {r : SlotRef}
    (h : ∃ g, m.generations[r.index]? = some g ∧ r.generation ≤ g) : r ≠ m.next := by
  obtain ⟨g, hg, hle⟩ := h
  rintro rfl
  unfold next at hg hle
  cases hfree : m.free with
  | nil =>
      rw [hfree] at hg
      simp at hg
  | cons i rest =>
      rw [hfree] at hg hle
      simp only [List.getD_eq_getElem?_getD, hg, Option.getD_some] at hle
      exact Nat.not_succ_le_self g hle

/-- A reference that was handed out is handed out no more. -/
theorem Spent.ne_next {m : SlotMap α} {r : SlotRef} (h : m.Spent r) : r ≠ m.next :=
  ne_next_of_le h.2

/-- A slot that is used again is in its next generation; a new slot is in generation 0. -/
theorem generation_next {m : SlotMap α} (hm : m.Valid) :
    (m.generations[m.next.index]? = none ∧ m.next.generation = 0) ∨
      ∃ g, m.generations[m.next.index]? = some g ∧ m.next.generation = g + 1 := by
  cases hfree : m.free with
  | nil =>
      have hnext : m.next = ⟨m.generations.length, 0⟩ := by simp [next, hfree]
      rw [hnext]
      exact Or.inl ⟨List.getElem?_eq_none (Nat.le_refl _), rfl⟩
  | cons i rest =>
      have hnext : m.next = ⟨i, m.generations.getD i 0 + 1⟩ := by simp [next, hfree]
      have hi : i < m.generations.length := hm.free_lt i (by simp [hfree])
      rw [hnext]
      exact Or.inr ⟨m.generations[i], List.getElem?_eq_getElem hi, by simp [hi]⟩

/-- An addition changes the generation of no slot but the one that it takes. -/
theorem getElem?_generations_add {m : SlotMap α} (hm : m.Valid) (a : α) (i : Nat) :
    (m.add a).generations[i]? =
      if i = m.next.index then some m.next.generation else m.generations[i]? := by
  by_cases hi : i = m.next.index
  · rw [if_pos hi, hi]
    exact (valid_add hm a).current m.next (mem_refs_add.mpr (Or.inr rfl))
  · rw [if_neg hi]
    cases hfree : m.free with
    | nil =>
        have hnext : m.next.index = m.generations.length := by simp [next, hfree]
        have hgen : (m.add a).generations = m.generations ++ [0] := by simp [add, hfree]
        rw [hgen, List.getElem?_append]
        split
        · rfl
        · rw [List.getElem?_eq_none (by simp; omega), List.getElem?_eq_none (by omega)]
    | cons j rest =>
        have hnext : m.next.index = j := by simp [next, hfree]
        have hgen : (m.add a).generations = m.generations.set j (m.generations.getD j 0 + 1) := by
          simp [add, hfree]
        rw [hgen, List.getElem?_set_ne (hnext ▸ Ne.symm hi)]

/-- The generations of slots do not go back. -/
theorem exists_generation_add {m : SlotMap α} (hm : m.Valid) (a : α) {r : SlotRef}
    (h : ∃ g, m.generations[r.index]? = some g ∧ r.generation ≤ g) :
    ∃ g, (m.add a).generations[r.index]? = some g ∧ r.generation ≤ g := by
  obtain ⟨g, hg, hle⟩ := h
  rw [getElem?_generations_add hm]
  split
  · next hi =>
    refine ⟨m.next.generation, rfl, ?_⟩
    rcases generation_next hm with ⟨hnone, -⟩ | ⟨g', hg', hnext⟩
    · rw [← hi, hg] at hnone
      cases hnone
    · rw [← hi, hg, Option.some.injEq] at hg'
      omega
  · exact ⟨g, hg, hle⟩

theorem Spent.add {m : SlotMap α} (hm : m.Valid) {r : SlotRef} (h : m.Spent r) (a : α) :
    (m.add a).Spent r := by
  refine ⟨?_, exists_generation_add hm a h.2⟩
  rw [get?_add hm, if_neg h.ne_next]
  exact h.1

theorem generations_remove (m : SlotMap α) (r : SlotRef) :
    (m.remove r).generations = m.generations := by
  unfold remove
  split <;> rfl

theorem Spent.remove {m : SlotMap α} (hm : m.Valid) {r : SlotRef} (h : m.Spent r) (x : SlotRef) :
    (m.remove x).Spent r := by
  refine ⟨?_, ?_⟩
  · rw [get?_remove hm, h.1, ite_self]
  · rw [generations_remove]
    exact h.2

theorem Spent.modify {m : SlotMap α} {r : SlotRef} (h : m.Spent r) (x : SlotRef) (f : α → α) :
    (m.modify x f).Spent r := by
  refine ⟨?_, h.2⟩
  rw [get?_modify, h.1, Option.map_none, ite_self]

/-- The reference of an item that is removed is spent. -/
theorem spent_remove {m : SlotMap α} (hm : m.Valid) {r : SlotRef} {a : α} (hr : m.get? r = some a) :
    (m.remove r).Spent r := by
  refine ⟨by rw [get?_remove hm, if_pos rfl], ?_⟩
  rw [generations_remove]
  exact ⟨r.generation, hm.current r ((mem_refs_iff hm).mpr ⟨a, hr⟩), Nat.le_refl _⟩

end RuleMatching.SlotMap
