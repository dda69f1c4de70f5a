import RuleMatching.Arena.Slots
import RuleMatching.Proofs.Arena.Linked

set_option autoImplicit false

/-! # Tuples in slots

A `SlotArena` shows a `LinkedArena` if it finds under every reference the tuple with the neighbours
that it has in the threads (`SlotArena.Shows`). **Every call to the one shows what the same call
makes of the other** (`SlotArena.Shows.alloc`, `SlotArena.Shows.link`, `SlotArena.Shows.unlink`,
`SlotArena.Shows.release`), as long as the generations of the slots fit in 32 bits, and going
through the slots comes to an end after the tuples that the threads list
(`SlotArena.Shows.children_eq`, `SlotArena.Shows.thread_eq`, `SlotArena.Shows.handles_eq`). -/

namespace RuleMatching

/-- Whoever may take as many steps as there are tuples on the way passes all of them. -/
theorem Walk.follow_eq {next : TupleId → Option TupleId} {start : Option TupleId} {l : List TupleId}
    (h : Walk next start l) {n : Nat} (hn : l.length ≤ n) : SlotArena.follow next n start = l := by
  induction h generalizing n with
  | done => cases n <;> rfl
  | @step t l rest ih =>
      obtain ⟨n, rfl⟩ : ∃ k, n = k + 1 := ⟨n - 1, by simp at hn; omega⟩
      exact congrArg (t :: ·) (ih (Nat.le_of_succ_le_succ hn))

namespace SlotArena

variable {a : SlotArena}

/-- The generation of every slot. -/
def generations (a : SlotArena) : List Nat := a.slots.map TupleSlot.generation

theorem get?_eq (a : SlotArena) (t : TupleId) : a.get? t =
    a.slots[t.index]?.bind fun slot =>
      if slot.generation = t.generation then slot.tuple else none := rfl

theorem get?_modify (a : SlotArena) (o : Option TupleId) (f : LinkedTuple → LinkedTuple)
    (x : TupleId) : (a.modify o f).get? x = if o = some x then (a.get? x).map f else a.get? x := by
  cases o with
  | none => rfl
  | some t =>
      simp only [get?_eq, modify, List.getElem?_modify, Option.some.injEq]
      cases a.slots[x.index]? with
      | none => simp
      | some slot =>
          obtain ⟨i, g⟩ := t
          obtain ⟨j, g'⟩ := x
          by_cases hi : i = j
          · by_cases hg : g = g'
            · subst hi hg
              by_cases hslot : slot.generation = g <;> simp [hslot]
            · by_cases hslot : slot.generation = g <;> simp [hi, hg, hslot]
          · simp [hi]

/-- The slots are in the generations of those of the arena, the same ones are free, and as many
hold a tuple. -/
structure HasSlots (a : SlotArena) (m : Arena) : Prop where
  generations_eq : a.generations = m.generations
  free_eq : a.free = m.free
  count_eq : a.count = m.size

namespace HasSlots

variable {m : Arena}

/-- As many slots as were ever used. -/
theorem length_slots (h : a.HasSlots m) : a.slots.length = m.generations.length := by
  rw [← h.generations_eq, generations, List.length_map]

theorem modify (h : a.HasSlots m) (o : Option TupleId) (f : LinkedTuple → LinkedTuple) :
    (a.modify o f).HasSlots m := by
  cases o with
  | none => exact h
  | some t =>
      refine ⟨(SlotMap.map_modify_of_eq _ _ fun slot => ?_).trans h.generations_eq, h.free_eq,
        h.count_eq⟩
      split <;> rfl

theorem bridge (h : a.HasSlots m) (t : TupleId) (gone : LinkedTuple) :
    (a.bridge t gone).HasSlots m := by
  refine modify ?_ _ _
  split <;> exact h.modify _ _

/-- The slot of a tuple that is removed is free. -/
theorem vacate (h : a.HasSlots m) (hm : m.Valid) {t : TupleId} {u : Tuple}
    (ht : m.get? t = some u) : (a.vacate t.index).HasSlots (SlotMap.remove m t) := by
  have hremove : SlotMap.remove m t =
      { m with free := t.index :: m.free, live := m.live.filter fun e => e.1 ≠ t } :=
    if_pos ((SlotMap.contains_iff m t).mpr ⟨u, ht⟩)
  have hsize := SlotMap.size_remove hm ht
  refine ⟨?_, ?_, ?_⟩
  · rw [SlotMap.generations_remove, ← h.generations_eq]
    exact SlotMap.map_modify_of_eq _ _ fun _ => rfl
  · rw [hremove, ← h.free_eq]
    rfl
  · have hcount := h.count_eq
    show a.count - 1 = _
    omega

end HasSlots

theorem get?_vacate (a : SlotArena) (i : Nat) (x : TupleId) :
    (a.vacate i).get? x = if i = x.index then none else a.get? x := by
  rw [get?_eq, get?_eq, vacate, List.getElem?_modify]
  by_cases hi : i = x.index
  · cases a.slots[x.index]? <;> simp [hi]
  · simp [hi]

/-- A tuple that is found is in its slot. -/
theorem tuple_of_get? {t : TupleId} {tuple : LinkedTuple} (h : a.get? t = some tuple) :
    a.slots[t.index]?.bind TupleSlot.tuple = some tuple := by
  rw [get?_eq] at h
  obtain ⟨slot, hslot, htuple⟩ := Option.bind_eq_some_iff.mp h
  split at htuple
  · rw [hslot, Option.bind_some, htuple]
  · cases htuple

theorem HasSlots.index_occupy {m : Arena} (h : a.HasSlots m) (tuple : LinkedTuple) :
    (a.occupy tuple).1.index = m.next.index := by
  unfold SlotArena.occupy SlotMap.next
  rw [h.free_eq, ← h.generations_eq, generations, List.length_map]
  cases m.free <;> rfl

/-- A new slot is found under its first reference, and hides no other. -/
theorem get?_newSlot (a : SlotArena) (tuple : LinkedTuple) (free : List Nat) (count : Nat)
    (x : TupleId) :
    get? ⟨a.slots ++ [⟨0, some tuple⟩], free, count⟩ x =
      if x.index = a.slots.length then (if x = ⟨a.slots.length, 0⟩ then some tuple else none)
      else a.get? x := by
  obtain ⟨j, g⟩ := x
  rw [get?_eq, get?_eq, List.getElem?_append]
  rcases Nat.lt_trichotomy j a.slots.length with hj | rfl | hj
  · have hne : j ≠ a.slots.length := by omega
    simp [hj, hne]
  · simp [eq_comm]
  · have hne : j ≠ a.slots.length := by omega
    have hlt : ¬j < a.slots.length := by omega
    have hpos : j - a.slots.length ≠ 0 := by omega
    simp [hne, hlt, hpos]

/-- A slot that is used again is found under its next reference, and no more under
the ones before. -/
theorem get?_usedAgain (a : SlotArena) {i : Nat} (hi : i < a.slots.length) (tuple : LinkedTuple)
    (free : List Nat) (count : Nat) (x : TupleId) :
    get? ⟨a.slots.modify i fun slot => ⟨slot.nextGeneration, some tuple⟩, free, count⟩ x =
      if x.index = i then (if x = ⟨i, a.slots[i].nextGeneration⟩ then some tuple else none)
      else a.get? x := by
  obtain ⟨j, g⟩ := x
  rw [get?_eq, get?_eq, List.getElem?_modify]
  by_cases hj : i = j
  · subst hj
    simp only [List.getElem?_eq_getElem hi, if_true, Option.map_eq_map, Option.map_some,
      Option.bind_some, SlotRef.mk.injEq, true_and, eq_comm]
  · simp [hj, Ne.symm hj]

/-- The tuple gets the reference that comes next, if its generation fits in 32 bits. -/
theorem HasSlots.occupy {m : Arena} (h : a.HasSlots m) (hm : m.Valid)
    (hlt : m.next.generation < UInt32.size) (u : Tuple) (tuple : LinkedTuple) :
    ∃ o, a.occupy tuple = (m.next, o) ∧ o.HasSlots (SlotMap.add m u) ∧
      ∀ x, o.get? x =
        if x.index = m.next.index then (if x = m.next then some tuple else none)
        else a.get? x := by
  have hgenerations : a.slots.map TupleSlot.generation = m.generations := h.generations_eq
  have hlength := h.length_slots
  have hcount : a.count + 1 = (SlotMap.add m u).size := by rw [SlotMap.size_add, h.count_eq]
  unfold SlotMap.next at hlt
  unfold SlotArena.occupy SlotMap.next
  rw [h.free_eq]
  cases hfree : m.free with
  | nil =>
      refine ⟨_, congrArg (fun n => ((⟨n, 0⟩ : TupleId), _)) hlength, ⟨?_, ?_, hcount⟩, fun x => ?_⟩
      · simp [generations, SlotMap.add, hgenerations, hfree]
      · simp [SlotMap.add, hfree]
      · rw [get?_newSlot, hlength]
  -- The slot that was freed last is used again; its generation goes up by one, and does
  -- not start over.
  | cons i rest =>
      have hi : i < a.slots.length := hlength ▸ hm.free_lt i (by simp [hfree])
      have hgeneration : a.slots[i].generation = m.generations.getD i 0 := by
        rw [← hgenerations]
        simp [hi]
      have hnext : a.slots[i].nextGeneration = m.generations.getD i 0 + 1 := by
        rw [hfree] at hlt
        rw [TupleSlot.nextGeneration, hgeneration]
        exact Nat.mod_eq_of_lt hlt
      refine ⟨⟨a.slots.modify i fun slot => ⟨slot.nextGeneration, some tuple⟩, rest, a.count + 1⟩,
        ?_, ⟨?_, ?_, hcount⟩, fun x => ?_⟩
      · simp only [List.getElem?_eq_getElem hi, Option.map_some, Option.getD_some, hnext]
      · simp only [generations, SlotMap.add, hfree]
        rw [SlotMap.map_modify_eq_set hi, hgenerations, hnext]
      · simp [SlotMap.add, hfree]
      · rw [get?_usedAgain a hi, hnext]

theorem get?_bridge (a : SlotArena) (t : TupleId) (gone : LinkedTuple) (x : TupleId) :
    (a.bridge t gone).get? x = (a.get? x).map (LinkedTuple.bridgedOver t gone x) := by
  cases hnewer : gone.siblings.newer with
  | some s =>
      simp only [bridge, hnewer, modifySiblings, get?_modify]
      cases a.get? x with
      | none => simp
      | some u =>
          by_cases hs : some s = some x <;> by_cases ho : gone.siblings.older = some x <;>
            simp [LinkedTuple.bridgedOver, hnewer, hs, ho]
  | none =>
      simp only [bridge, hnewer, modifySiblings, get?_modify]
      cases a.get? x with
      | none => simp
      | some u =>
          obtain ⟨_, firstChild, _, _⟩ := u
          by_cases hp : gone.parent = some x <;> by_cases ho : gone.siblings.older = some x <;>
            by_cases hf : firstChild = some t <;> simp [LinkedTuple.bridgedOver, hnewer, hp, ho, hf]

/-! ## Slots that show an arena with threads -/

variable {κ : Type}

/-- Under every reference is the tuple with its neighbours in the threads. -/
structure Shows (s : SlotArena) (m : LinkedArena κ) : Prop where
  slots : s.HasSlots m.arena
  get?_eq : ∀ x, s.get? x = m.linked? x

theorem shows_empty : empty.Shows (LinkedArena.empty : LinkedArena κ) :=
  ⟨⟨rfl, rfl, rfl⟩, fun _ => rfl⟩

namespace Shows

variable {s : SlotArena} {m : LinkedArena κ} {lists : κ → List TupleId} {t : TupleId}
    (h : s.Shows m)

include h

theorem get?_of_live {u : Tuple} (ht : m.arena.get? t = some u) :
    s.get? t = some (m.withLinks t u) := by
  rw [h.get?_eq, LinkedArena.linked?, ht]
  rfl

theorem get?_of_dead (ht : m.arena.get? t = none) : s.get? t = none := by
  rw [h.get?_eq, LinkedArena.linked?, ht]
  rfl

theorem map_get? (t : TupleId) : (s.get? t).map LinkedTuple.toTuple = m.arena.get? t := by
  cases ht : m.arena.get? t with
  | none => rw [h.get?_of_dead ht]; rfl
  | some u => rw [h.get?_of_live ht]; rfl

theorem contains_eq (t : TupleId) : s.contains t = m.arena.contains t := by
  rw [SlotArena.contains, SlotMap.contains, ← h.map_get? t, Option.isSome_map]

/-! ## Calls -/

theorem setLocation (t : TupleId) (l : Location) :
    (s.setLocation t l).Shows (m.setLocation t l) := by
  refine ⟨?_, fun x => ?_⟩
  · obtain ⟨hgenerations, hfree, hcount⟩ :=
      h.slots.modify (some t) fun tuple => { tuple with location := some l }
    exact ⟨hgenerations, hfree, hcount.trans (SlotMap.size_modify _ _ _).symm⟩
  · rw [SlotArena.setLocation, get?_modify, h.get?_eq, LinkedArena.linked?, LinkedArena.linked?]
    show _ = ((m.arena.setLocation t l).get? x).map _
    rw [Arena.get?_setLocation]
    simp only [Option.some.injEq, eq_comm (a := x)]
    split
    · cases m.arena.get? x <;> rfl
    · rfl

/-- A thread that is given up is still in the slots. -/
theorem drop [DecidableEq κ] (k : κ) : s.Shows (m.drop k) := ⟨h.slots, h.get?_eq⟩

variable [DecidableEq κ] (hm : m.Fits lists)

include hm

/-- **A tuple is created**, if the generation of its slot fits in 32 bits. -/
theorem alloc {handle : Handle} {parent : Option TupleId} {sink : NodeId} {origin : Option NodeId}
    (hp : ∀ p, parent = some p → ∃ u, m.arena.get? p = some u)
    (hlt : m.arena.next.generation < UInt32.size) :
    (s.alloc handle parent sink origin).1 = m.arena.next ∧
      (s.alloc handle parent sink origin).2.Shows (m.alloc handle parent sink origin) := by
  have hnewest : (parent.bind s.get?).bind LinkedTuple.firstChild =
      parent.bind m.siblings.newest.get? := by
    cases parent with
    | none => rfl
    | some p =>
        obtain ⟨v, hv⟩ := hp p rfl
        rw [Option.bind_some, h.get?_of_live hv]
        rfl
  have hsize : s.childSize parent = m.arena.childSize parent := by
    cases parent with
    | none => rfl
    | some p =>
        obtain ⟨v, hv⟩ := hp p rfl
        rw [SlotArena.childSize, Arena.childSize, Option.bind_some, Option.bind_some,
          h.get?_of_live hv, hv]
        rfl
  obtain ⟨o, hoccupy, hslots, hget⟩ :=
    h.slots.occupy hm.valid hlt ⟨handle, parent, m.arena.childSize parent, sink, origin, none⟩
      ⟨⟨handle, parent, m.arena.childSize parent, sink, origin, none⟩, none,
        ⟨none, parent.bind m.siblings.newest.get?⟩, {}⟩
  simp only [SlotArena.alloc, hnewest, hsize, hoccupy]
  -- Three slots are written: that of the tuple, that of its parent and that of the extension that
  -- was the newest.
  refine ⟨trivial, (hslots.modify _ _).modify _ _, fun x => ?_⟩
  rw [hm.linked?_alloc hp, get?_modify, modifySiblings, get?_modify, hget]
  obtain ⟨hparent, hne⟩ := hm.ne_next hp
  generalize parent.bind m.siblings.newest.get? = older at hne ⊢
  by_cases hx : x = m.arena.next
  · subst hx
    simp [hparent, hne]
  · -- Another reference to the slot finds nothing, before and after.
    have hindex : (if x.index = m.arena.next.index then none else s.get? x) = m.linked? x := by
      split
      · next hi =>
        have hdead : m.arena.get? x = none :=
          SlotMap.get?_eq_none_iff.mpr fun hmem => SlotMap.index_ne_next hm.valid hmem hi
        rw [LinkedArena.linked?, hdead]
        rfl
      · exact h.get?_eq x
    rw [if_neg hx, if_neg hx, hindex]
    cases m.linked? x with
    | none => simp
    | some v => by_cases hp : parent = some x <;> by_cases hn : older = some x <;> simp [hp, hn]

/-- **A tuple is put in front of a thread.** -/
theorem link (ht : m.arena.contains t = true) (k : κ) :
    (s.link (m.fellows.newest.get? k) t).1 = (m.link k t).fellows.newest.get? k ∧
      (s.link (m.fellows.newest.get? k) t).2.Shows (m.link k t) := by
  refine ⟨?_, (h.slots.modify _ _).modify _ _, fun x => ?_⟩
  · rw [LinkedArena.link, Threads.newest_link, if_pos rfl]
    rfl
  · simp only [SlotArena.link, modifyFellows, get?_modify, h.get?_eq, hm.linked?_link ht,
      Option.some.injEq]
    cases m.linked? x with
    | none => simp
    | some v =>
        by_cases hn : m.fellows.newest.get? k = some x <;> by_cases hx : t = x <;> simp [hn, hx]

/-- **A tuple is taken out of its thread.** -/
theorem unlink {k : κ} (ht : t ∈ lists k) :
    (s.unlink (m.fellows.newest.get? k) t).1 = (m.unlink k t).fellows.newest.get? k ∧
      (s.unlink (m.fellows.newest.get? k) t).2.Shows (m.unlink k t) := by
  have hlive := hm.live k t ht
  obtain ⟨u, hu⟩ := (SlotMap.contains_iff _ _).mp hlive
  simp only [SlotArena.unlink, h.get?_of_live hu]
  refine ⟨?_, ((h.slots.modify _ _).modify _ _).modify _ _, fun x => ?_⟩
  · rw [LinkedArena.unlink, Threads.newest_unlink, if_pos rfl, Threads.newestWithout_of_live hlive]
    rfl
  · simp only [modifyFellows, get?_modify, h.get?_eq, hm.linked?_unlink ht, Option.some.injEq]
    have hfellows : (m.withLinks t u).fellows = m.fellows.neighboursOf t := rfl
    rw [hfellows]
    generalize m.fellows.neighboursOf t = n
    cases m.linked? x with
    | none => simp
    | some v =>
        by_cases hn : n.newer = some x <;> by_cases ho : n.older = some x <;> by_cases hx :
            t = x <;>
          simp [hn, ho, hx]

/-- **A tuple is released and answered.** -/
theorem release {u : Tuple} (ht : m.arena.get? t = some u) :
    (s.release t).1.map LinkedTuple.toTuple = some u ∧ (s.release t).2.Shows (m.release t) := by
  have hbridge := fun x => get?_bridge s t (m.withLinks t u) x
  simp only [SlotArena.release, h.get?_of_live ht]
  refine ⟨?_, ?_, fun x => ?_⟩
  · have hself := hbridge t
    rw [h.get?_of_live ht] at hself
    rw [tuple_of_get? hself]
    rfl
  · rw [LinkedArena.arena_release]
    exact (h.slots.bridge t _).vacate hm.valid ht
  · rw [get?_vacate, hbridge, h.get?_eq, hm.linked?_release ht]
    by_cases hx : x = t
    · rw [if_pos hx, if_pos (hx ▸ rfl)]
    · rw [if_neg hx]
      split
      · next hi =>
        have hdead : m.arena.get? x = none := SlotMap.get?_eq_none_iff.mpr fun hmem =>
          hx (hm.valid.eq_of_index_eq hmem ((SlotMap.mem_refs_iff hm.valid).mpr ⟨u, ht⟩) hi.symm)
        rw [LinkedArena.linked?, hdead]
        rfl
      · rfl

omit hm [DecidableEq κ] in
theorem release_dead (ht : m.arena.get? t = none) : s.release t = (none, s) := by
  rw [SlotArena.release, h.get?_of_dead ht]

/-! ## Ways through the slots -/

/-- **From the newest extension of a tuple one comes to the older ones, and then to the end.** -/
theorem walk_children (t : TupleId) :
    Walk s.olderSibling? ((s.get? t).bind LinkedTuple.firstChild) (m.arena.children t) := by
  have hstart : (s.get? t).bind LinkedTuple.firstChild = m.siblings.newest.get? t := by
    cases ht : m.arena.get? t with
    | some u => rw [h.get?_of_live ht]; rfl
    | none => rw [h.get?_of_dead ht, (hm.loose_of_dead ht).1]; rfl
  rw [hstart]
  refine (hm.siblings.fits.strung t).walk.congr fun c hc => ?_
  obtain ⟨u, hu⟩ := (SlotMap.contains_iff _ _).mp (hm.siblings.live_of_mem_children t c hc)
  rw [olderSibling?, h.get?_of_live hu]
  rfl

/-- **So it is with the threads of the callers.** -/
theorem walk_thread (k : κ) : Walk s.olderFellow? (m.fellows.newest.get? k) (lists k) := by
  refine (hm.fellows.strung k).walk.congr fun c hc => ?_
  obtain ⟨u, hu⟩ := (SlotMap.contains_iff _ _).mp (hm.live k c hc)
  rw [olderFellow?, h.get?_of_live hu]
  rfl

theorem children_eq (t : TupleId) : s.children t = m.arena.children t := by
  refine (h.walk_children hm t).follow_eq ?_
  rw [h.slots.count_eq]
  exact Nat.le_succ_of_le (Arena.length_children_le hm.siblings.arena t)

theorem thread_eq (k : κ) : s.thread (m.fellows.newest.get? k) = lists k := by
  refine (h.walk_thread hm k).follow_eq ?_
  rw [h.slots.count_eq]
  exact Nat.le_succ_of_le (hm.length_le k)

/-- **From a tuple one comes to its parent, and on to a match of one pattern**, passing its facts
from the last to the first. -/
theorem walk_up {u : Tuple} (ht : m.arena.get? t = some u) :
    ∃ path, Walk (fun y => (s.get? y).bind fun tuple => tuple.parent) (some t) path ∧
      List.Forall₂ (fun y h => ∃ v, s.get? y = some v ∧
        v.handle = h) path (m.arena.handles t).reverse := by
  obtain ⟨path, hwalk, hhandles⟩ := Arena.exists_walk_up hm.siblings.arena ht
  refine ⟨path, hwalk.congr fun y _ => ?_, hhandles.imp ?_⟩
  · rw [← h.map_get?, Option.bind_map]
    rfl
  · rintro y _ ⟨v, hv, rfl⟩
    exact ⟨_, h.get?_of_live hv, rfl⟩

/-- The parent of a tuple is older, so one meets no tuple twice. -/
theorem ancestry_eq {u : Tuple} (ht : m.arena.get? t = some u) {n : Nat}
    (hn : m.arena.size ≤ n + m.arena.age t) :
    s.ancestry n (some t) = (m.arena.handles t).reverse := by
  refine Arena.ancestor_induction hm.siblings.arena
    (C := fun t => ∀ n, m.arena.size ≤ n + m.arena.age t →
      s.ancestry n (some t) = (m.arena.handles t).reverse)
    (fun x u hx ih n hn => ?_) ht n hn
  have hage : m.arena.age x < m.arena.size :=
    Arena.age_lt_size ((SlotMap.mem_refs_iff hm.valid).mpr ⟨u, hx⟩)
  obtain ⟨n, rfl⟩ : ∃ k, n = k + 1 := ⟨n - 1, by omega⟩
  rw [ancestry, h.get?_of_live hx]
  show u.handle :: s.ancestry n u.parent = _
  cases hp : u.parent with
  | none =>
      rw [Arena.handles_root hm.siblings.arena hx hp]
      cases n <;> rfl
  | some p =>
      have holder : m.arena.age x < m.arena.age p :=
        Arena.age_lt_of_mem_children hm.siblings.arena
          ((Arena.mem_children hm.siblings.arena).mpr ⟨u, hx, hp⟩)
      rw [Arena.handles_child hm.siblings.arena hx hp, List.reverse_concat, ih p hp n (by omega)]

theorem handles_eq (t : TupleId) : s.handles t = m.arena.handles t := by
  rw [SlotArena.handles, h.slots.count_eq]
  cases ht : m.arena.get? t with
  | some u => rw [h.ancestry_eq hm ht (Nat.le_add_right _ _), List.reverse_reverse]
  | none =>
      rw [Arena.handles_dead ht]
      cases m.arena.size with
      | zero => rfl
      | succ n => rw [ancestry, h.get?_of_dead ht]; rfl

end Shows

end SlotArena

end RuleMatching
