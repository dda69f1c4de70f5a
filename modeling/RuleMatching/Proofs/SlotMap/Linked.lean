import RuleMatching.Proofs.SlotMap
import RuleMatching.SlotMap.Linked

set_option autoImplicit false

/-! # Linked lists in slots answer as containers with stable references

A list is chained up in slots if every item sits in the slot of its reference and has the slots of
the ones next to it as neighbours (`Slab.Chain`). Chains can be cut and joined anywhere
(`Slab.chain_append`), and at a cut only the neighbours of the two items beside it differ
(`Chain.relink_last`, `Chain.relink_first`). **A slab that shows the items of a `SlotMap` goes on to
do so** when both add an item (`Shows.add`) or remove one (`Shows.remove`). -/

namespace RuleMatching

@[simp] theorem SlabRef.kept_counted (r : SlabRef) : r.counted.kept = r := by
  simp [SlotRef.kept, SlabRef.counted]

/-- A generation that fits in 32 bits is counted as it is. -/
theorem SlotRef.counted_kept {r : SlotRef} (h : r.generation < UInt32.size) :
    r.kept.counted = r := by
  show (⟨r.index, (UInt32.ofNat r.generation).toNat⟩ : SlotRef) = r
  rw [UInt32.toNat_ofNat', Nat.mod_eq_of_lt h]

namespace Slab

variable {α : Type}

/-! ## Chains -/

/-- The slot of the first item, or else what comes after the list. -/
def firstSlot (l : List (SlotRef × α)) (next : Option Nat) : Option Nat :=
  (l.head?.map fun e => e.1.index).or next

/-- The slot of the last item, or else what comes before the list. -/
def lastSlot (previous : Option Nat) (l : List (SlotRef × α)) : Option Nat :=
  (l.getLast?.map fun e => e.1.index).or previous

/-- The items are in the slots of their references, each with the slots of the ones next to it. -/
def Chain (entryAt : Nat → Option (LinkedItem α)) :
    Option Nat → List (SlotRef × α) → Option Nat → Prop
  | _, [], _ => True
  | previous, (r, a) :: rest, next =>
      entryAt r.index = some ⟨a, previous, firstSlot rest next⟩ ∧
      Chain entryAt (some r.index) rest next

/-- The slots of the items. -/
def slotsOf (l : List (SlotRef × α)) : List Nat := l.map fun e => e.1.index

@[simp] theorem firstSlot_nil (next : Option Nat) :
    firstSlot ([] : List (SlotRef × α)) next = next := rfl

@[simp] theorem firstSlot_cons (e : SlotRef × α) (l : List (SlotRef × α)) (next : Option Nat) :
    firstSlot (e :: l) next = some e.1.index := rfl

@[simp] theorem lastSlot_nil (previous : Option Nat) :
    lastSlot previous ([] : List (SlotRef × α)) = previous := rfl

@[simp] theorem lastSlot_concat (previous : Option Nat) (l : List (SlotRef × α)) (e : SlotRef × α) :
    lastSlot previous (l ++ [e]) = some e.1.index := by
  simp [lastSlot]

theorem firstSlot_append (l l' : List (SlotRef × α)) (next : Option Nat) :
    firstSlot (l ++ l') next = firstSlot l (firstSlot l' next) := by
  cases l <;> rfl

theorem lastSlot_cons (previous : Option Nat) (e : SlotRef × α) (l : List (SlotRef × α)) :
    lastSlot previous (e :: l) = lastSlot (some e.1.index) l := by
  cases l with
  | nil => rfl
  | cons e' rest =>
      rw [lastSlot, lastSlot, List.getLast?_cons_cons,
        List.getLast?_eq_some_getLast (List.cons_ne_nil e' rest)]
      rfl

theorem isNone_lastSlot_cons (previous : Option Nat) (e : SlotRef × α) (l : List (SlotRef × α)) :
    (lastSlot previous (e :: l)).isNone = false := by
  rw [lastSlot, List.getLast?_eq_some_getLast (List.cons_ne_nil e l)]
  rfl

theorem lastSlot_ne {l : List (SlotRef × α)} {i : Nat} (hi : i ∉ slotsOf l) :
    lastSlot none l ≠ some i := by
  rcases List.eq_nil_or_concat l with rfl | ⟨init, e, rfl⟩
  · simp
  · rw [List.concat_eq_append] at hi ⊢
    rw [lastSlot_concat, ne_eq, Option.some.injEq]
    rintro rfl
    exact hi (by simp [slotsOf])

theorem firstSlot_ne {l : List (SlotRef × α)} {i : Nat} (hi : i ∉ slotsOf l) :
    firstSlot l none ≠ some i := by
  cases l with
  | nil => simp
  | cons e rest =>
      rw [firstSlot_cons, ne_eq, Option.some.injEq]
      rintro rfl
      exact hi List.mem_cons_self

theorem lastSlot_append (previous : Option Nat) (l l' : List (SlotRef × α)) :
    lastSlot previous (l ++ l') = lastSlot (lastSlot previous l) l' := by
  induction l generalizing previous with
  | nil => rfl
  | cons e rest ih => rw [List.cons_append, lastSlot_cons, lastSlot_cons, ih]

/-- An item that is added is the first one if there was none. -/
theorem firstSlot_concat (l : List (SlotRef × α)) (e : SlotRef × α) :
    firstSlot (l ++ [e]) none =
      if (lastSlot none l).isNone then some e.1.index else firstSlot l none := by
  cases l with
  | nil => rfl
  | cons e' rest =>
      rw [if_neg (by simp [isNone_lastSlot_cons])]
      rfl

variable {f f' : Nat → Option (LinkedItem α)} {previous next : Option Nat}
    {l l' : List (SlotRef × α)}

/-- Only what is in the slots of the list matters. -/
theorem Chain.congr (h : Chain f previous l next) (hl : ∀ i ∈ slotsOf l, f' i = f i) :
    Chain f' previous l next := by
  induction l generalizing previous with
  | nil => trivial
  | cons e rest ih =>
      obtain ⟨hfirst, hrest⟩ := h
      exact ⟨(hl _ List.mem_cons_self).trans hfirst,
        ih hrest fun i hi => hl i (List.mem_cons_of_mem _ hi)⟩

/-- **A chain can be cut anywhere.** Each part has the end of the other as what comes after
or before it. -/
theorem chain_append : Chain f previous (l ++ l') next ↔
    Chain f previous l (firstSlot l' next) ∧ Chain f (lastSlot previous l) l' next := by
  induction l generalizing previous with
  | nil => simp [Chain]
  | cons e rest ih =>
      rw [List.cons_append, Chain, Chain, ih, firstSlot_append, lastSlot_cons, and_assoc]

/-- What is in the slots after the neighbours in one of them are changed. -/
def relinked (f : Nat → Option (LinkedItem α)) (i : Option Nat) (g : LinkedItem α → LinkedItem α)
    (j : Nat) : Option (LinkedItem α) :=
  if i = some j then (f j).map g else f j

/-- No item comes into an empty slot. -/
theorem relinked_eq_none {i : Option Nat} {j : Nat} (h : f j = none)
    (g : LinkedItem α → LinkedItem α) : relinked f i g j = none := by
  rw [relinked, h]
  split <;> rfl

/-- Another slot comes after the list, and its last item is told so. -/
theorem Chain.relink_last (h : Chain f previous l next) (hl : (slotsOf l).Nodup)
    (next' : Option Nat) :
    Chain (relinked f (lastSlot none l) fun e => { e with next := next' }) previous l next' := by
  rcases List.eq_nil_or_concat l with rfl | ⟨init, e, rfl⟩
  · trivial
  · rw [List.concat_eq_append] at h hl ⊢
    obtain ⟨hinit, hlast, -⟩ := chain_append.mp h
    rw [lastSlot_concat]
    refine chain_append.mpr ⟨hinit.congr fun i hi => ?_, ?_, trivial⟩
    · have hne : e.1.index ≠ i := by
        rw [slotsOf, List.map_append, List.nodup_append] at hl
        exact fun heq => hl.2.2 i hi e.1.index (by simp) heq.symm
      exact if_neg (by simpa using hne)
    · rw [relinked, if_pos rfl, hlast]
      rfl

/-- Another slot comes before the list, and its first item is told so. -/
theorem Chain.relink_first (h : Chain f previous l next) (hl : (slotsOf l).Nodup)
    (previous' : Option Nat) :
    Chain (relinked f (firstSlot l none) fun e => { e with previous := previous' })
    previous' l next := by
  cases l with
  | nil => trivial
  | cons e rest =>
      obtain ⟨hfirst, hrest⟩ := h
      refine ⟨?_, hrest.congr fun i hi => ?_⟩
      · rw [relinked, firstSlot_cons, if_pos rfl, hfirst]
        rfl
      · have hne : e.1.index ≠ i := by
          rintro rfl
          exact (List.nodup_cons.mp hl).1 hi
        exact if_neg (by simpa using hne)

/-- A slot outside the list may be told anything. -/
theorem Chain.relink_other (h : Chain f previous l next) {o : Option Nat}
    (ho : ∀ i ∈ slotsOf l, o ≠ some i) (g : LinkedItem α → LinkedItem α) :
    Chain (relinked f o g) previous l next :=
  h.congr fun i hi => if_neg (ho i hi)

/-! ## What is in the slots -/

theorem entryAt?_relink (s : Slab α) (i : Option Nat) (g : LinkedItem α → LinkedItem α) :
    (s.relink i g).entryAt? = relinked s.entryAt? i g := by
  funext j
  cases i with
  | none => rfl
  | some i =>
      by_cases hij : i = j
      · subst hij
        rw [relinked, if_pos rfl, relink, entryAt?, entryAt?, List.getElem?_modify_eq]
        cases s.slots[i]? <;> rfl
      · rw [relinked, if_neg fun h => hij (Option.some.inj h), relink, entryAt?, entryAt?,
          List.getElem?_modify_ne _ _ hij]

theorem entryAt?_vacate_self (s : Slab α) (i : Nat) : (s.vacate i).entryAt? i = none := by
  rw [vacate, entryAt?, List.getElem?_modify_eq]
  cases s.slots[i]? <;> rfl

theorem entryAt?_vacate_ne (s : Slab α) {i j : Nat} (h : i ≠ j) :
    (s.vacate i).entryAt? j = s.entryAt? j := by
  rw [vacate, entryAt?, entryAt?, List.getElem?_modify_ne _ _ h]

/-- The generations of the slots. -/
def generations (s : Slab α) : List UInt32 := s.slots.map Slot.generation

@[simp] theorem generations_relink (s : Slab α) (i : Option Nat) (g : LinkedItem α → LinkedItem α) :
    (s.relink i g).generations = s.generations := by
  cases i with
  | none => rfl
  | some i => exact SlotMap.map_modify_of_eq _ _ fun _ => rfl

@[simp] theorem free_relink (s : Slab α) (i : Option Nat) (g : LinkedItem α → LinkedItem α) :
    (s.relink i g).free = s.free := by
  cases i <;> rfl

@[simp] theorem generations_vacate (s : Slab α) (i : Nat) :
    (s.vacate i).generations = s.generations :=
  SlotMap.map_modify_of_eq _ _ fun _ => rfl

/-! ## Slabs and containers -/

/-- The slab has the items of the container, in order, each in the slot of its reference. -/
structure Shows (s : Slab α) (m : SlotMap α) : Prop where
  valid : m.Valid
  generations_eq : s.generations = m.generations.map UInt32.ofNat
  free_eq : s.free = m.free
  chain : Chain s.entryAt? none m.live none
  first_eq : s.first = firstSlot m.live none
  last_eq : s.last = lastSlot none m.live
  count_eq : s.count = m.size
  /-- The other slots are empty. -/
  vacant : ∀ i ∉ slotsOf m.live, s.entryAt? i = none

theorem shows_empty : (empty : Slab α).Shows .empty :=
  ⟨SlotMap.valid_empty, rfl, rfl, trivial, rfl, rfl, rfl, fun _ _ => rfl⟩

theorem slotsOf_live (m : SlotMap α) : slotsOf m.live = m.refs.map SlotRef.index := by
  rw [slotsOf, SlotMap.refs, List.map_map]
  rfl

/-- No two items are in one slot. -/
theorem nodup_slotsOf {m : SlotMap α} (hm : m.Valid) : (slotsOf m.live).Nodup := by
  rw [slotsOf_live]
  exact hm.nodup_refs.map_on fun r hr r' hr' => hm.eq_of_index_eq hr hr'

theorem next_index_not_mem {m : SlotMap α} (hm : m.Valid) : m.next.index ∉ slotsOf m.live := by
  rw [slotsOf_live, List.mem_map]
  rintro ⟨r, hr, hindex⟩
  exact SlotMap.index_ne_next hm hr hindex

/-- As many slots as were ever used. -/
theorem Shows.length_slots {s : Slab α} {m : SlotMap α} (h : s.Shows m) :
    s.slots.length = m.generations.length := by
  have hlength := congrArg List.length h.generations_eq
  rwa [generations, List.length_map, List.length_map] at hlength

theorem Shows.length_live_le {s : Slab α} {m : SlotMap α} (h : s.Shows m) :
    m.live.length ≤ s.slots.length := by
  have hsubset : slotsOf m.live ⊆ List.range m.generations.length := by
    intro i hi
    rw [slotsOf_live, List.mem_map] at hi
    obtain ⟨r, hr, rfl⟩ := hi
    exact List.mem_range.mpr (List.getElem?_eq_some_iff.mp (h.valid.current r hr)).1
  calc m.live.length = (slotsOf m.live).length := (List.length_map _).symm
    _ ≤ (List.range m.generations.length).length :=
      ((nodup_slotsOf h.valid).subperm hsubset).length_le
    _ = s.slots.length := by rw [List.length_range, h.length_slots]

/-! ## Going through a slab -/

/-- A chain is gone through from its first item to its last. -/
theorem Chain.walk_eq {s : Slab α} (h : Chain s.entryAt? previous l none) {steps : Nat}
    (hl : l.length ≤ steps) : s.walk steps (firstSlot l none) = l.map Prod.snd := by
  induction l generalizing previous steps with
  | nil => cases steps <;> rfl
  | cons e rest ih =>
      cases steps with
      | zero => cases hl
      | succ steps =>
          obtain ⟨hfirst, hrest⟩ := h
          rw [firstSlot_cons, walk, hfirst, List.map_cons]
          exact congrArg (e.2 :: ·) (ih hrest (Nat.le_of_succ_le_succ hl))

/-- **Going through a slab yields the items in the order of addition.** -/
theorem Shows.toList_eq {s : Slab α} {m : SlotMap α} (h : s.Shows m) : s.toList = m.toList := by
  rw [toList, h.first_eq, h.chain.walk_eq h.length_live_le]
  rfl

theorem Shows.isEmpty_eq {s : Slab α} {m : SlotMap α} (h : s.Shows m) : s.isEmpty = m.isEmpty := by
  rw [isEmpty, h.count_eq, SlotMap.size, SlotMap.isEmpty]
  cases m.live <;> rfl

/-! ## Addition -/

/-- The item takes the slot of the reference that the container hands out next, and nothing
else changes. -/
theorem Shows.occupy {s : Slab α} {m : SlotMap α} (h : s.Shows m) (a : α) (e : LinkedItem α) :
    ∃ o, s.occupy e = (m.next.index, o) ∧ o.generations = (m.add a).generations.map UInt32.ofNat ∧
      o.free = (m.add a).free ∧ o.entryAt? m.next.index = some e ∧
      ∀ i ≠ m.next.index, o.entryAt? i = s.entryAt? i := by
  have hgenerations := h.generations_eq
  have hlength := h.length_slots
  unfold generations at hgenerations
  unfold Slab.occupy SlotMap.next SlotMap.add
  rw [h.free_eq]
  cases hfree : m.free with
  -- No slot is free, so there is a new one at the end.
  | nil =>
      refine ⟨_, congrArg (·, _) hlength, ?_, rfl, ?_, fun i hi => ?_⟩
      · simp [generations, hgenerations]
      · simp [entryAt?, hlength]
      · have hne : i ≠ s.slots.length := hlength ▸ hi
        simp only [entryAt?]
        rcases Nat.lt_or_gt_of_ne hne with hlt | hgt
        · rw [List.getElem?_append_left hlt]
        · rw [List.getElem?_eq_none (by simp; omega), List.getElem?_eq_none (by omega)]
  -- The slot that was freed last is used again, under the next generation.
  | cons i rest =>
      have hi : i < s.slots.length := hlength ▸ h.valid.free_lt i (by simp [hfree])
      have hgeneration : s.slots[i].generation = UInt32.ofNat (m.generations.getD i 0) := by
        have hget := congrArg (fun l => l[i]?) hgenerations
        simp only [List.getElem?_map, List.getElem?_eq_getElem hi,
          List.getElem?_eq_getElem (hlength ▸ hi)] at hget
        rw [List.getD_eq_getElem?_getD, List.getElem?_eq_getElem (hlength ▸ hi)]
        exact Option.some.inj hget
      refine ⟨_, rfl, ?_, rfl, ?_, fun j hj => ?_⟩
      · calc ((s.slots.modify i fun slot => ⟨slot.generation + 1, some e⟩).map Slot.generation)
            = (m.generations.map UInt32.ofNat).set i (s.slots[i].generation + 1) := by
              rw [SlotMap.map_modify_eq_set hi, hgenerations]
          _ = (m.generations.set i (m.generations.getD i 0 + 1)).map UInt32.ofNat := by
              rw [List.map_set, UInt32.ofNat_add, hgeneration]
              rfl
      · simp [entryAt?, List.getElem?_modify_eq, List.getElem?_eq_getElem hi]
      · simp only [entryAt?]
        rw [List.getElem?_modify_ne _ _ (Ne.symm hj)]

/-- An item that is added comes after the last one. -/
theorem Shows.add {s : Slab α} {m : SlotMap α} (h : s.Shows m) (a : α) :
    (s.add a).1 = m.next.kept ∧ (s.add a).2.Shows (m.add a) := by
  obtain ⟨occupied, hoccupy, hgenerations, hfree, hentry, hothers⟩ := h.occupy a ⟨a, s.last, none⟩
  have hnew := next_index_not_mem h.valid
  have hvalid := SlotMap.valid_add h.valid a
  -- The item stands in its slot already; the link of the last item is what is still to be written.
  have hchain :
      Chain (relinked occupied.entryAt? s.last fun e => { e with next := some m.next.index }) none
      (m.add a).live none := by
    have hold : Chain occupied.entryAt? none m.live none :=
      h.chain.congr fun i hi => hothers i (ne_of_mem_of_not_mem hi hnew)
    rw [h.last_eq] at hentry ⊢
    refine chain_append.mpr ⟨hold.relink_last (nodup_slotsOf h.valid) (some m.next.index),
      ?_, trivial⟩
    rw [relinked, if_neg (lastSlot_ne hnew), hentry]
    rfl
  have hnext : (m.add a).generations[m.next.index]? = some m.next.generation :=
    hvalid.current m.next (SlotMap.mem_refs_add.mpr (Or.inr rfl))
  rw [Slab.add, hoccupy]
  constructor
  · have hget :
        (occupied.relink s.last fun e =>
            { e with next := some m.next.index }).generations[m.next.index]? =
          some (UInt32.ofNat m.next.generation) := by
      rw [generations_relink, hgenerations, List.getElem?_map, hnext]
      rfl
    rw [generations, List.getElem?_map] at hget
    simp only [hget]
    rfl
  · exact {
      valid := hvalid
      generations_eq := (generations_relink _ _ _).trans hgenerations
      free_eq := (free_relink _ _ _).trans hfree
      chain := by
        rw [← entryAt?_relink] at hchain
        exact hchain
      first_eq := by
        simp only [h.first_eq, h.last_eq]
        exact (firstSlot_concat m.live (m.next, a)).symm
      last_eq := by simp only [SlotMap.live_add, lastSlot_concat]
      count_eq := (congrArg (· + 1) h.count_eq).trans (SlotMap.size_add m a).symm
      vacant := fun i hi => by
        have hold : i ∉ slotsOf m.live ∧ i ≠ m.next.index := by simpa [slotsOf, not_or] using hi
        show (occupied.relink s.last fun e => { e with next := some m.next.index }).entryAt? i =
          none
        rw [entryAt?_relink]
        exact relinked_eq_none ((hothers i hold.2).trans (h.vacant i hold.1)) _ }

/-! ## Removal -/

/-- The reference of an item finds it between the items before and after it. -/
theorem Shows.linked?_eq {s : Slab α} {m : SlotMap α} (h : s.Shows m) {r : SlotRef} {a : α}
    {before after : List (SlotRef × α)} (hlive : m.live = before ++ (r, a) :: after) :
    s.linked? r.kept = some ⟨a, lastSlot none before, firstSlot after none⟩ := by
  have hr : r ∈ m.refs :=
    List.mem_map.mpr ⟨(r, a), hlive ▸ List.mem_append_right _ List.mem_cons_self, rfl⟩
  have hgeneration : s.generations[r.index]? = some (UInt32.ofNat r.generation) := by
    rw [h.generations_eq, List.getElem?_map, h.valid.current r hr]
    rfl
  rw [generations, List.getElem?_map] at hgeneration
  obtain ⟨slot, hslot, hsame⟩ := Option.map_eq_some_iff.mp hgeneration
  have hentry : s.entryAt? r.index = some ⟨a, lastSlot none before, firstSlot after none⟩ :=
    (chain_append.mp (hlive ▸ h.chain : Chain _ _ (before ++ (r, a) :: after) _)).2.1
  rw [entryAt?, hslot, Option.bind_some] at hentry
  rw [linked?, show s.slots[r.kept.slot]? = some slot from hslot]
  exact (if_pos hsame).trans hentry

/-- The item of a reference that was not removed is found. -/
theorem Shows.get? {s : Slab α} {m : SlotMap α} (h : s.Shows m) {r : SlotRef} {a : α}
    (hr : m.get? r = some a) : s.get? r.kept = some a := by
  obtain ⟨before, after, hlive⟩ := List.append_of_mem ((SlotMap.get?_eq_some_iff h.valid).mp hr)
  rw [Slab.get?, h.linked?_eq hlive]
  rfl

theorem live_remove_middle {m : SlotMap α} (hm : m.Valid) {r : SlotRef} {a : α}
    {before after : List (SlotRef × α)} (hlive : m.live = before ++ (r, a) :: after) :
    (m.remove r).live = before ++ after := by
  have hnodup := hm.nodup_refs
  rw [SlotMap.refs, hlive, List.map_append, List.map_cons, List.nodup_middle, List.nodup_cons,
    ← List.map_append] at hnodup
  have hothers : ∀ e ∈ before ++ after, e.1 ≠ r := by
    rintro e he rfl
    exact hnodup.1 (List.mem_map.mpr ⟨e, he, rfl⟩)
  have hfilter : (before ++ after).filter (fun e => e.1 ≠ r) = before ++ after :=
    List.filter_eq_self.mpr fun e he => by simpa using hothers e he
  rw [SlotMap.live_remove, hlive, List.filter_append, List.filter_cons_of_neg (by simp),
    ← List.filter_append, hfilter]

/-- What is in the slots after an item is taken out. -/
theorem entryAt?_unlink (s : Slab α) (i : Nat) (e : LinkedItem α) :
    (s.unlink i e).entryAt? =
      relinked (relinked (s.vacate i).entryAt? e.previous fun e' => { e' with next := e.next })
      e.next fun e' => { e' with previous := e.previous } := by
  rw [← entryAt?_relink, ← entryAt?_relink]
  rfl

/-- What lies on either side of an item is a chain without it. -/
theorem Chain.unlink {s : Slab α} {r : SlotRef} {a : α} {before after : List (SlotRef × α)}
    (h : Chain s.entryAt? none (before ++ (r, a) :: after) none)
    (hl : (slotsOf (before ++ (r, a) :: after)).Nodup) :
    Chain (s.unlink r.index ⟨a, lastSlot none before, firstSlot after none⟩).entryAt? none
    (before ++ after) none := by
  obtain ⟨hbefore, -, hafter⟩ := chain_append.mp h
  obtain ⟨hr, hrest⟩ : r.index ∉ slotsOf before ++ slotsOf after ∧
      (slotsOf before ++ slotsOf after).Nodup := by
    rw [slotsOf, List.map_append, List.map_cons, List.nodup_middle, List.nodup_cons] at hl
    exact hl
  obtain ⟨hnodupBefore, hnodupAfter, hapart⟩ := List.nodup_append.mp hrest
  rw [List.mem_append, not_or] at hr
  have hvacatedBefore : Chain (s.vacate r.index).entryAt? none before (some r.index) :=
    hbefore.congr fun i hi => entryAt?_vacate_ne s (ne_of_mem_of_not_mem hi hr.1).symm
  have hvacatedAfter : Chain (s.vacate r.index).entryAt? (some r.index) after none :=
    hafter.congr fun i hi => entryAt?_vacate_ne s (ne_of_mem_of_not_mem hi hr.2).symm
  rw [entryAt?_unlink]
  refine chain_append.mpr ⟨?_, ?_⟩
  · refine (hvacatedBefore.relink_last hnodupBefore _).relink_other
      (fun i hi => firstSlot_ne fun hi' => ?_) _
    exact hapart i hi i hi' rfl
  · refine (hvacatedAfter.relink_other (fun i hi => lastSlot_ne fun hi' => ?_) _).relink_first
      hnodupAfter _
    exact hapart i hi' i hi rfl

/-- **An item can be removed anywhere.** -/
theorem Shows.remove {s : Slab α} {m : SlotMap α} (h : s.Shows m) {r : SlotRef} {a : α}
    (hr : m.get? r = some a) : ∃ s', s.remove? r.kept = some (a, s') ∧ s'.Shows (m.remove r) := by
  obtain ⟨before, after, hlive⟩ := List.append_of_mem ((SlotMap.get?_eq_some_iff h.valid).mp hr)
  have hchain := h.chain
  have hnodup := nodup_slotsOf h.valid
  rw [hlive] at hchain hnodup
  have hcontains : m.contains r = true := (SlotMap.contains_iff m r).mpr ⟨a, hr⟩
  have hremoved : s.remove? r.kept =
      some (a, s.unlink r.index ⟨a, lastSlot none before, firstSlot after none⟩) := by
    rw [remove?, h.linked?_eq hlive]
    rfl
  refine ⟨_, hremoved, ?_⟩
  exact {
    valid := SlotMap.valid_remove h.valid r
    generations_eq := by
      rw [SlotMap.generations_remove, ← h.generations_eq]
      exact (generations_relink _ _ _).trans
        ((generations_relink _ _ _).trans (generations_vacate _ _))
    free_eq := by rw [SlotMap.remove, if_pos hcontains, unlink, h.free_eq]
    chain := by
      rw [live_remove_middle h.valid hlive]
      exact hchain.unlink hnodup
    first_eq := by
      rw [live_remove_middle h.valid hlive, firstSlot_append, unlink, h.first_eq, hlive,
        firstSlot_append]
      -- Another item is first now iff there was no item before the one that goes.
      cases before with
      | nil => rfl
      | cons e rest =>
          rw [if_neg (by simp [isNone_lastSlot_cons])]
          rfl
    last_eq := by
      rw [live_remove_middle h.valid hlive, lastSlot_append, unlink, h.last_eq, hlive,
        lastSlot_append, lastSlot_cons]
      cases after with
      | nil => rfl
      | cons e rest =>
          rw [lastSlot_cons, lastSlot_cons]
          rfl
    count_eq := by
      rw [unlink, h.count_eq, ← SlotMap.size_remove h.valid hr]
      rfl
    vacant := fun i hi => by
      have hvacated : (s.vacate r.index).entryAt? i = none := by
        by_cases hri : r.index = i
        · exact hri ▸ entryAt?_vacate_self s r.index
        · rw [entryAt?_vacate_ne s hri]
          refine h.vacant i fun hmem => hi ?_
          rw [live_remove_middle h.valid hlive]
          simpa [hlive, slotsOf, Ne.symm hri] using hmem
      -- The links that are written belong to items that are there.
      rw [entryAt?_unlink]
      exact relinked_eq_none (relinked_eq_none hvacated _) _ }

/-- **A slab finds nothing under a reference under which the container finds nothing**, unless the
generation of the slot has started over. -/
theorem Shows.linked?_eq_none {s : Slab α} {m : SlotMap α} (h : s.Shows m) {r : SlabRef}
    (hcount : ∀ g, m.generations[r.slot]? = some g → g < UInt32.size)
    (hr : m.get? r.counted = none) : s.linked? r = none := by
  by_contra hsome
  obtain ⟨e, he⟩ := Option.ne_none_iff_exists'.mp hsome
  obtain ⟨slot, hslot, he⟩ := Option.bind_eq_some_iff.mp he
  obtain ⟨hgeneration, hentry⟩ : slot.generation = r.generation ∧ slot.entry = some e := by
    split at he
    · next heq => exact ⟨heq, he⟩
    · cases he
  -- There is an item in the slot, so its reference is one of those in use.
  have hused : r.slot ∈ slotsOf m.live := by
    by_contra hvacant
    have hnone := h.vacant r.slot hvacant
    rw [entryAt?, hslot, Option.bind_some, hentry] at hnone
    cases hnone
  rw [slotsOf_live, List.mem_map] at hused
  obtain ⟨r', hr', hindex⟩ := hused
  have hcurrent : m.generations[r.slot]? = some r'.generation := hindex ▸ h.valid.current r' hr'
  have hsame : slot.generation = UInt32.ofNat r'.generation := by
    have hget : s.generations[r.slot]? = some (UInt32.ofNat r'.generation) := by
      rw [h.generations_eq, List.getElem?_map, hcurrent]
      rfl
    rw [generations, List.getElem?_map, hslot] at hget
    exact Option.some.inj hget
  have hcounted : r.counted = r' := by
    have hkept : r'.kept = r := by rw [SlotRef.kept, ← hsame, hgeneration, hindex]
    rw [← hkept, SlotRef.counted_kept (hcount _ hcurrent)]
  exact SlotMap.get?_eq_none_iff.mp hr (hcounted ▸ hr')

end Slab

end RuleMatching
