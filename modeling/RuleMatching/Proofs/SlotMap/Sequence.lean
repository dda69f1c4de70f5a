import RuleMatching.Proofs.SlotMap.Issued
import RuleMatching.Proofs.SlotMap.Linked

set_option autoImplicit false

/-! # Containers with stable references as sequences

What the caller of a container may rely on is written without slots: a `Sequence` has the items in
the order of addition, each under a reference of its own, and knows all references that were ever
handed out. `Sequence.Step` says which answers a call may have and what becomes of the sequence.
**Containers and slabs answer every sequence of calls in this way**, also calls by references of
items that are gone, and whoever goes through them meets the items in order
(`Sequence.sequence_run`). -/

namespace RuleMatching

/-! ## Sequences -/

/-- Items under references, in the order of addition, and all references that were
handed out so far. -/
structure Sequence (α ρ : Type) where
  issued : List ρ
  items : List (ρ × α)

/-- A call to a container of items. Nothing is asked of its reference. -/
inductive SequenceCall (α ρ : Type) where
  | add (item : α)
  | remove (r : ρ)
  | get (r : ρ)

/-- What a call is answered: the reference of an item that was added, or the item that was found. -/
inductive SequenceAnswer (α ρ : Type) where
  | reference (r : ρ)
  | item (found : Option α)

/-- The reference that an answer hands out. -/
def SequenceAnswer.reference? {α ρ : Type} : SequenceAnswer α ρ → Option ρ
  | reference r => some r
  | item _ => none

namespace Sequence

variable {α ρ : Type}

def empty : Sequence α ρ := ⟨[], []⟩

/-- The references of the items. -/
def refs (q : Sequence α ρ) : List ρ := q.items.map Prod.fst

/-- The answers that a call may have, and what becomes of the sequence. An item is added at the
end, under a reference that was never handed out. A removal takes out one item and keeps the
others in order. -/
inductive Step : Sequence α ρ → SequenceCall α ρ → SequenceAnswer α ρ → Sequence α ρ → Prop
  | add {q : Sequence α ρ} {r : ρ} (a : α) (fresh : r ∉ q.issued) :
      Step q (.add a) (.reference r) ⟨q.issued ++ [r], q.items ++ [(r, a)]⟩
  | remove {q : Sequence α ρ} {before after : List (ρ × α)} {r : ρ} {a : α}
      (items : q.items = before ++ (r, a) :: after) :
      Step q (.remove r) (.item (some a)) ⟨q.issued, before ++ after⟩
  | remove_gone {q : Sequence α ρ} {r : ρ} (gone : r ∉ q.refs) : Step q (.remove r) (.item none) q
  | get {q : Sequence α ρ} {r : ρ} {a : α} (mem : (r, a) ∈ q.items) :
      Step q (.get r) (.item (some a)) q
  | get_gone {q : Sequence α ρ} {r : ρ} (gone : r ∉ q.refs) : Step q (.get r) (.item none) q

/-- Some calls, one after the other. -/
inductive Run : Sequence α ρ → List (SequenceCall α ρ) → List (SequenceAnswer α ρ) →
    Sequence α ρ → Prop
  | nil (q : Sequence α ρ) : Run q [] [] q
  | cons {q q' q'' : Sequence α ρ} {c : SequenceCall α ρ} {calls : List (SequenceCall α ρ)}
      {answer : SequenceAnswer α ρ} {answers : List (SequenceAnswer α ρ)}
        (step : Step q c answer q')
      (rest : Run q' calls answers q'') : Run q (c :: calls) (answer :: answers) q''

/-- No reference was handed out twice, and the items are under references that were handed out, no
two under the same. -/
structure Sound (q : Sequence α ρ) : Prop where
  nodup_issued : q.issued.Nodup
  nodup_refs : q.refs.Nodup
  issued : ∀ r ∈ q.refs, r ∈ q.issued

theorem sound_empty : (empty : Sequence α ρ).Sound :=
  ⟨List.nodup_nil, List.nodup_nil, fun _ hr => (List.not_mem_nil hr).elim⟩

variable {q q' : Sequence α ρ} {c : SequenceCall α ρ} {answer : SequenceAnswer α ρ} {r : ρ}

theorem Sound.not_mem_of_remove (hq : q.Sound) {before after : List (ρ × α)} {a : α}
    (hitems : q.items = before ++ (r, a) :: after) :
    r ∉ (before ++ after).map Prod.fst ∧ ((before ++ after).map Prod.fst).Nodup := by
  have hnodup := hq.nodup_refs
  rw [refs, hitems, List.map_append, List.map_cons, List.nodup_middle, List.nodup_cons,
    ← List.map_append] at hnodup
  exact hnodup

theorem Step.sound (hq : q.Sound) (h : Step q c answer q') : q'.Sound := by
  cases h with
  | @add r a fresh =>
      refine ⟨?_, ?_, fun x hx => ?_⟩
      · rw [← List.concat_eq_append]
        exact hq.nodup_issued.concat fresh
      · rw [refs, List.map_append, List.map_singleton, ← List.concat_eq_append]
        exact hq.nodup_refs.concat fun hr => fresh (hq.issued r hr)
      · rw [refs, List.map_append, List.map_singleton] at hx
        exact List.mem_append.mpr ((List.mem_append.mp hx).imp_left (hq.issued x))
  | @remove before after r a items =>
      refine ⟨hq.nodup_issued, (hq.not_mem_of_remove items).2, fun x hx => hq.issued x ?_⟩
      rw [refs, items, List.map_append, List.map_cons]
      rw [refs, List.map_append] at hx
      exact List.mem_append.mpr ((List.mem_append.mp hx).imp_right (List.mem_cons_of_mem r))
  | remove_gone gone => exact hq
  | get mem => exact hq
  | get_gone gone => exact hq

/-- **A reference whose item is gone does not come to stand for another item.** -/
theorem Step.gone (hr : r ∈ q.issued) (hgone : r ∉ q.refs) (h : Step q c answer q') :
    r ∈ q'.issued ∧ r ∉ q'.refs := by
  cases h with
  | @add r' a fresh =>
      refine ⟨List.mem_append_left _ hr, fun hmem => ?_⟩
      rw [refs, List.map_append, List.map_singleton] at hmem
      rcases List.mem_append.mp hmem with hmem | hmem
      · exact hgone hmem
      · have heq : r = r' := List.mem_singleton.mp hmem
        exact fresh (heq ▸ hr)
  | @remove before after r' a items =>
      refine ⟨hr, fun hmem => hgone ?_⟩
      rw [refs, items, List.map_append, List.map_cons]
      rw [refs, List.map_append] at hmem
      exact List.mem_append.mpr ((List.mem_append.mp hmem).imp_right (List.mem_cons_of_mem r'))
  | remove_gone gone => exact ⟨hr, hgone⟩
  | get mem => exact ⟨hr, hgone⟩
  | get_gone gone => exact ⟨hr, hgone⟩

section Run

variable {calls : List (SequenceCall α ρ)} {answers : List (SequenceAnswer α ρ)}

theorem Run.sound (hq : q.Sound) (h : Run q calls answers q') : q'.Sound := by
  induction h with
  | nil q => exact hq
  | cons step rest ih => exact ih (step.sound hq)

theorem Run.gone (hr : r ∈ q.issued) (hgone : r ∉ q.refs) (h : Run q calls answers q') :
    r ∉ q'.refs := by
  induction h with
  | nil q => exact hgone
  | cons step rest ih =>
      obtain ⟨hr', hgone'⟩ := step.gone hr hgone
      exact ih hr' hgone'

/-- **Once an item was removed its reference stands for none.** -/
theorem Run.removed (hq : q.Sound) (h : Run q calls answers q') {a : α}
    (hmem : (SequenceCall.remove r, SequenceAnswer.item (some a)) ∈ calls.zip answers) :
    r ∉ q'.refs := by
  induction h with
  | nil q => exact (List.not_mem_nil hmem).elim
  | @cons q q₁ q₂ c calls answer answers step rest ih =>
      rcases List.mem_cons.mp hmem with heq | hmem
      · obtain ⟨rfl, rfl⟩ := Prod.mk.inj heq
        cases step with
        | @remove before after _ _ items =>
            have hr : r ∈ q.refs := List.mem_map.mpr ⟨(r, a), items ▸ by simp, rfl⟩
            exact rest.gone (q := ⟨q.issued, before ++ after⟩) (hq.issued r hr)
              (hq.not_mem_of_remove items).1
      · exact ih (step.sound hq) hmem

end Run

end Sequence

/-! ## Containers that answer as sequences -/

/-- The operations of a container of items of type `α` under references of type `ρ`. -/
structure SequenceOps (α μ ρ : Type) where
  empty : μ
  add : μ → α → ρ × μ
  remove? : μ → ρ → Option (α × μ)
  get? : μ → ρ → Option α
  toList : μ → List α
  size : μ → Nat

namespace SequenceOps

variable {α μ ρ : Type} (ops : SequenceOps α μ ρ)

/-- The answer to a call, and the container after it. -/
def perform (m : μ) : SequenceCall α ρ → SequenceAnswer α ρ × μ
  | .add a => (.reference (ops.add m a).1, (ops.add m a).2)
  | .remove r =>
    match ops.remove? m r with
    | some (a, m) => (.item (some a), m)
    | none => (.item none, m)
  | .get r => (.item (ops.get? m r), m)

/-- The answers to some calls, and the container after them. -/
def run : μ → List (SequenceCall α ρ) → List (SequenceAnswer α ρ) × μ
  | m, [] => ([], m)
  | m, c :: rest =>
    ((ops.perform m c).1 :: (run (ops.perform m c).2 rest).1, (run (ops.perform m c).2 rest).2)

/-- The references that some calls hand out, in order. -/
def handedOut (m : μ) (calls : List (SequenceCall α ρ)) : List ρ :=
  (ops.run m calls).1.filterMap SequenceAnswer.reference?

/-- The container has the items of the sequence, in order, and nothing under any other reference. -/
structure Holds (m : μ) (q : Sequence α ρ) : Prop where
  toList_eq : ops.toList m = q.items.map Prod.snd
  size_eq : ops.size m = q.items.length
  gone : ∀ r, r ∉ q.refs → ops.get? m r = none ∧ ops.perform m (.remove r) = (.item none, m)

/-- The calls are answered as they may be for a sequence, and afterwards the container holds
this sequence. -/
structure Behaves (calls : List (SequenceCall α ρ)) (q : Sequence α ρ) : Prop where
  run : Sequence.Run .empty calls (ops.run ops.empty calls).1 q
  sound : q.Sound
  holds : ops.Holds (ops.run ops.empty calls).2 q
  /-- An item that was removed is found no more under its reference. -/
  removed : ∀ r a, (SequenceCall.remove r, SequenceAnswer.item (some a)) ∈
    calls.zip (ops.run ops.empty calls).1 →
    r ∉ q.refs

end SequenceOps

/-! ## Containers -/

namespace SlotMap

variable {α : Type} {m : SlotMap α} {q : Sequence α SlotRef}

def ops : SequenceOps α (SlotMap α) SlotRef where
  empty := .empty
  add m a := (m.next, m.add a)
  remove? m r := (m.get? r).map fun a => (a, m.remove r)
  get? := SlotMap.get?
  toList := SlotMap.toList
  size := SlotMap.size

/-- The container has handed out the references of the sequence, and its items are those of
the sequence. -/
structure Mirrors (m : SlotMap α) (q : Sequence α SlotRef) : Prop where
  issued : m.Issued q.issued
  items : q.items = m.live

namespace Mirrors

theorem refs_eq (h : m.Mirrors q) : q.refs = m.refs := by rw [Sequence.refs, h.items, SlotMap.refs]

theorem perform (h : m.Mirrors q) (c : SequenceCall α SlotRef) :
    ∃ q', Sequence.Step q c (ops.perform m c).1 q' ∧ (ops.perform m c).2.Mirrors q' := by
  have hvalid := h.issued.valid
  cases c with
  | add a =>
      exact ⟨_, .add a h.issued.next_not_mem, h.issued.add a, congrArg (· ++ [(m.next, a)]) h.items⟩
  | remove r =>
      cases hr : m.get? r with
      | none =>
          have hperform :
              ops.perform m (.remove r) = (.item none, m) := by simp [SequenceOps.perform, ops, hr]
          rw [hperform]
          exact ⟨q, .remove_gone (h.refs_eq ▸ get?_eq_none_iff.mp hr), h⟩
      | some a =>
          have hperform : ops.perform m (.remove r) = (.item (some a), m.remove r) := by
            simp [SequenceOps.perform, ops, hr]
          obtain ⟨before, after, hlive⟩ := List.append_of_mem ((get?_eq_some_iff hvalid).mp hr)
          rw [hperform]
          refine ⟨_, .remove (h.items.trans hlive), h.issued.remove r, ?_⟩
          exact (Slab.live_remove_middle hvalid hlive).symm
  | get r =>
      show ∃ q', Sequence.Step q (.get r) (.item (m.get? r)) q' ∧ m.Mirrors q'
      cases hr : m.get? r with
      | none => exact ⟨q, .get_gone (h.refs_eq ▸ get?_eq_none_iff.mp hr), h⟩
      | some a => exact ⟨q, .get (h.items ▸ (get?_eq_some_iff hvalid).mp hr), h⟩

theorem run (h : m.Mirrors q) (calls : List (SequenceCall α SlotRef)) :
    ∃ q', Sequence.Run q calls (ops.run m calls).1 q' ∧ (ops.run m calls).2.Mirrors q' := by
  induction calls generalizing m q with
  | nil => exact ⟨q, .nil q, h⟩
  | cons c rest ih =>
      obtain ⟨q₁, hstep, h₁⟩ := h.perform c
      obtain ⟨q₂, hrest, h₂⟩ := ih h₁
      exact ⟨q₂, .cons hstep hrest, h₂⟩

theorem holds (h : m.Mirrors q) : ops.Holds m q where
  toList_eq := congrArg (List.map Prod.snd) h.items.symm
  size_eq := congrArg List.length h.items.symm
  gone := by
    intro r hr
    have hnone : m.get? r = none := get?_eq_none_iff.mpr (h.refs_eq ▸ hr)
    exact ⟨hnone, by simp [SequenceOps.perform, ops, hnone]⟩

end Mirrors

end SlotMap

/-! ## Slabs -/

/-- Two references are kept alike only if they are the same, provided that the generations
fit in 32 bits. -/
theorem SlotRef.eq_of_kept_eq {r r' : SlotRef} (hr : r.generation < UInt32.size)
    (hr' : r'.generation < UInt32.size) (h : r.kept = r'.kept) : r = r' :=
  calc r = r.kept.counted := (SlotRef.counted_kept hr).symm
    _ = r'.kept.counted := by rw [h]
    _ = r' := SlotRef.counted_kept hr'

namespace Slab

variable {α : Type} {s : Slab α} {q : Sequence α SlabRef}

def ops : SequenceOps α (Slab α) SlabRef where
  empty := .empty
  add := Slab.add
  remove? := Slab.remove?
  get? := Slab.get?
  toList := Slab.toList
  size := Slab.count

/-- Going on from the cursor one meets the items of the list, one after the other, and then the end.
At every point the cursor says how many are still to come. -/
inductive Yields (s : Slab α) : Cursor → List α → Prop
  | done {c : Cursor} (slot : c.slot = none) (hint : c.sizeHint = (0, some 0)) : Yields s c []
  | step {c c' : Cursor} {a : α} {rest : List α} (next : s.next? c = some (a, c'))
      (hint : c.sizeHint = (rest.length + 1, some (rest.length + 1))) (later : Yields s c' rest) :
      Yields s c (a :: rest)

/-- All slots that the slab refers to exist. -/
structure InBounds (s : Slab α) : Prop where
  free : ∀ i ∈ s.free, i < s.slots.length
  ends : ∀ i, s.first = some i ∨ s.last = some i → ∃ e, s.entryAt? i = some e
  neighbours : ∀ i e j, s.entryAt? i = some e → e.previous = some j ∨ e.next = some j →
    ∃ e', s.entryAt? j = some e'

/-- A chain is met item by item. -/
theorem Chain.yields {previous : Option Nat} {l : List (SlotRef × α)}
    (h : Chain s.entryAt? previous l none) :
    s.Yields ⟨firstSlot l none, l.length⟩ (l.map Prod.snd) := by
  induction l generalizing previous with
  | nil => exact .done rfl rfl
  | cons e rest ih =>
      obtain ⟨hfirst, hrest⟩ := h
      have hnext : s.next? ⟨firstSlot (e :: rest) none, (e :: rest).length⟩ =
          some (e.2, ⟨firstSlot rest none, rest.length⟩) := by
        simp [next?, hfirst]
      exact .step hnext (by simp [Cursor.sizeHint]) (ih hrest)

/-- **Going through a slab one meets the items in the order of addition.** -/
theorem Shows.yields {m : SlotMap α} (h : s.Shows m) : s.Yields s.cursor m.toList := by
  rw [cursor, h.first_eq, h.count_eq]
  exact h.chain.yields

/-- An item lies between the last slot before it and the first after it. -/
theorem Shows.exists_split {m : SlotMap α} (h : s.Shows m) {i : Nat} (hi : i ∈ slotsOf m.live) :
    ∃ before after r a, m.live = before ++ (r, a) :: after ∧ r.index = i ∧
      s.entryAt? i = some ⟨a, lastSlot none before, firstSlot after none⟩ := by
  obtain ⟨⟨r, a⟩, hmem, rfl⟩ := List.mem_map.mp hi
  obtain ⟨before, after, hlive⟩ := List.append_of_mem hmem
  have hchain := h.chain
  rw [hlive] at hchain
  exact ⟨before, after, r, a, hlive, rfl, (chain_append.mp hchain).2.1⟩

theorem mem_of_lastSlot {l : List (SlotRef × α)} {i : Nat} (h : lastSlot none l = some i) :
    i ∈ slotsOf l := by
  by_contra hi
  exact lastSlot_ne hi h

theorem mem_of_firstSlot {l : List (SlotRef × α)} {i : Nat} (h : firstSlot l none = some i) :
    i ∈ slotsOf l := by
  by_contra hi
  exact firstSlot_ne hi h

theorem Shows.inBounds {m : SlotMap α} (h : s.Shows m) : s.InBounds := by
  have hfull : ∀ i ∈ slotsOf m.live, ∃ e, s.entryAt? i = some e := by
    intro i hi
    obtain ⟨before, after, r, a, -, -, hentry⟩ := h.exists_split hi
    exact ⟨_, hentry⟩
  refine ⟨fun i hi => ?_, fun i hi => hfull i ?_, fun i e j he hj => hfull j ?_⟩
  · rw [h.length_slots]
    exact h.valid.free_lt i (h.free_eq ▸ hi)
  · rw [h.first_eq, h.last_eq] at hi
    exact hi.elim mem_of_firstSlot mem_of_lastSlot
  · -- There is an item in the slot, so it is one of the list.
    have hi : i ∈ slotsOf m.live := by
      by_contra hi
      rw [h.vacant i hi] at he
      cases he
    obtain ⟨before, after, r, a, hlive, -, hentry⟩ := h.exists_split hi
    rw [he, Option.some.injEq] at hentry
    subst hentry
    rw [hlive, slotsOf, List.map_append, List.map_cons]
    rcases hj with hj | hj
    · exact List.mem_append_left _ (mem_of_lastSlot hj)
    · exact List.mem_append_right _ (List.mem_cons_of_mem _ (mem_of_firstSlot hj))

/-- The sequence of a container, under references as a slab keeps them. -/
def keptSequence (m : SlotMap α) (issued : List SlotRef) : Sequence α SlabRef :=
  ⟨issued.map SlotRef.kept, m.live.map fun e => (e.1.kept, e.2)⟩

theorem refs_keptSequence (m : SlotMap α) (issued : List SlotRef) :
    (keptSequence m issued).refs = m.refs.map SlotRef.kept := by
  rw [Sequence.refs, keptSequence, SlotMap.refs, List.map_map, List.map_map]
  rfl

theorem countP_issued_keptSequence (m : SlotMap α) (issued : List SlotRef) (i : Nat) :
    (keptSequence m issued).issued.countP (fun r => r.slot = i) = issued.countP fun r =>
      r.index = i :=
  List.countP_map

/-- The slab shows a container that has handed out these references, all of a generation that
fits in 32 bits. -/
structure Mirrors (s : Slab α) (m : SlotMap α) (issued : List SlotRef) : Prop where
  shows : s.Shows m
  issued : m.Issued issued
  lt : ∀ i g : Nat, m.generations[i]? = some g → g < UInt32.size

namespace Mirrors

variable {m : SlotMap α} {issued : List SlotRef}

theorem empty : (Slab.empty : Slab α).Mirrors .empty [] :=
  ⟨shows_empty, SlotMap.issued_empty, fun _ _ hg => nomatch hg⟩

/-- Nothing is found under a reference of no item. -/
theorem linked?_eq_none (h : s.Mirrors m issued) {r : SlabRef}
    (hr : r ∉ (keptSequence m issued).refs) : s.linked? r = none := by
  refine h.shows.linked?_eq_none (h.lt r.slot) (SlotMap.get?_eq_none_iff.mpr fun hmem => hr ?_)
  rw [refs_keptSequence]
  exact List.mem_map.mpr ⟨r.counted, hmem, r.kept_counted⟩

theorem perform_gone (h : s.Mirrors m issued) {r : SlabRef}
    (hr : r ∉ (keptSequence m issued).refs) :
    s.get? r = none ∧ ops.perform s (.remove r) = (.item none, s) := by
  have hlinked := h.linked?_eq_none hr
  have hremove : s.remove? r = none := by rw [remove?, hlinked]; rfl
  exact ⟨by rw [Slab.get?, hlinked]; rfl, by simp [SequenceOps.perform, ops, hremove]⟩

/-- A reference of an item is the one under which the container has it. -/
theorem exists_of_mem (h : s.Mirrors m issued) {r : SlabRef}
    (hr : r ∈ (keptSequence m issued).refs) :
    ∃ (r' : SlotRef) (a : α), r = r'.kept ∧ m.get? r' = some a := by
  rw [refs_keptSequence] at hr
  obtain ⟨r', hr', rfl⟩ := List.mem_map.mp hr
  obtain ⟨a, ha⟩ := (SlotMap.mem_refs_iff h.issued.valid).mp hr'
  exact ⟨r', a, rfl, ha⟩

theorem step_add (h : s.Mirrors m issued) (a : α)
    (huses : ∀ i, (issued ++ [m.next]).countP (fun r => r.index = i) ≤ UInt32.size) :
    Sequence.Step (keptSequence m issued) (.add a) (.reference m.next.kept)
      (keptSequence (m.add a) (issued ++ [m.next])) := by
  have hissued := h.issued.add a
  -- With so few uses the kept generation tells the references of a slot apart.
  have hfresh : m.next.kept ∉ (keptSequence m issued).issued := by
    intro hmem
    obtain ⟨r, hr, hkept⟩ := List.mem_map.mp hmem
    have hsame : r = m.next := SlotRef.eq_of_kept_eq
      (hissued.generation_lt_of_mem huses (List.mem_append_left _ hr))
      (hissued.generation_lt_of_mem huses (by simp)) hkept
    exact h.issued.next_not_mem (hsame ▸ hr)
  have hadded : keptSequence (m.add a) (issued ++ [m.next]) =
      ⟨(keptSequence m issued).issued ++ [m.next.kept], (keptSequence m issued).items ++
        [(m.next.kept, a)]⟩ := by
    simp [keptSequence]
  rw [hadded]
  exact .add a hfresh

theorem step_remove (h : s.Mirrors m issued) {r : SlotRef} {a : α} (ha : m.get? r = some a) :
    Sequence.Step (keptSequence m issued) (.remove r.kept) (.item (some a))
      (keptSequence (m.remove r) issued) := by
  have hvalid := h.issued.valid
  obtain ⟨before, after, hlive⟩ := List.append_of_mem ((SlotMap.get?_eq_some_iff hvalid).mp ha)
  have hitems : (keptSequence m issued).items =
      (before.map fun e => (e.1.kept, e.2)) ++ (r.kept, a) :: after.map fun e =>
        (e.1.kept, e.2) := by
    simp [keptSequence, hlive]
  have hremoved : keptSequence (m.remove r) issued = ⟨(keptSequence m issued).issued,
      (before.map fun e => (e.1.kept, e.2)) ++ after.map fun e => (e.1.kept, e.2)⟩ := by
    simp [keptSequence, live_remove_middle hvalid hlive]
  rw [hremoved]
  exact .remove hitems

theorem step_get (h : s.Mirrors m issued) (r : SlabRef) :
    Sequence.Step (keptSequence m issued) (.get r) (.item (s.get? r)) (keptSequence m issued) := by
  by_cases hr : r ∈ (keptSequence m issued).refs
  · obtain ⟨r', a, rfl, ha⟩ := h.exists_of_mem hr
    rw [h.shows.get? ha]
    exact .get (List.mem_map.mpr ⟨(r', a), (SlotMap.get?_eq_some_iff h.issued.valid).mp ha, rfl⟩)
  · rw [(h.perform_gone hr).1]
    exact .get_gone hr

/-- **A call is answered as it may be for the sequence**, if no slot is used so often that its
generation starts over. -/
theorem perform (h : s.Mirrors m issued) (c : SequenceCall α SlabRef)
    (huses : ∀ i, ((keptSequence m issued).issued ++ (ops.perform s c).1.reference?.toList).countP
      (fun r => r.slot = i) ≤ UInt32.size) :
    ∃ m' issued',
      Sequence.Step (keptSequence m issued) c (ops.perform s c).1 (keptSequence m' issued') ∧
      (ops.perform s c).2.Mirrors m' issued' ∧
      (keptSequence m' issued').issued = (keptSequence m issued).issued ++
        (ops.perform s c).1.reference?.toList := by
  cases c with
  | add a =>
      obtain ⟨hnext, hshows⟩ := h.shows.add a
      have hissued := h.issued.add a
      have hanswer : (ops.perform s (.add a)).1 = .reference m.next.kept := congrArg _ hnext
      have hkept : (keptSequence (m.add a) (issued ++ [m.next])).issued =
          (keptSequence m issued).issued ++ [m.next.kept] := by simp [keptSequence]
      rw [hanswer] at huses ⊢
      have huses' : ∀ i, (issued ++ [m.next]).countP (fun r => r.index = i) ≤ UInt32.size := by
        intro i
        rw [← countP_issued_keptSequence (m.add a), hkept]
        exact huses i
      exact ⟨m.add a, issued ++ [m.next], h.step_add a huses',
        ⟨hshows, hissued, fun i g hg => hissued.generation_lt huses' hg⟩, hkept⟩
  | remove r =>
      by_cases hr : r ∈ (keptSequence m issued).refs
      · obtain ⟨r', a, rfl, ha⟩ := h.exists_of_mem hr
        obtain ⟨s', hremove, hshows⟩ := h.shows.remove ha
        have hperform : ops.perform s (.remove r'.kept) = (.item (some a), s') := by
          simp [SequenceOps.perform, ops, hremove]
        rw [hperform]
        refine ⟨m.remove r', issued, h.step_remove ha, ⟨hshows, h.issued.remove r', ?_⟩,
          (List.append_nil _).symm⟩
        rw [SlotMap.generations_remove]
        exact h.lt
      · rw [(h.perform_gone hr).2]
        exact ⟨m, issued, .remove_gone hr, h, (List.append_nil _).symm⟩
  | get r => exact ⟨m, issued, h.step_get r, h, (List.append_nil _).symm⟩

theorem run (h : s.Mirrors m issued) (calls : List (SequenceCall α SlabRef))
    (huses : ∀ i, ((keptSequence m issued).issued ++ ops.handedOut s calls).countP
      (fun r => r.slot = i) ≤ UInt32.size) :
    ∃ m' issued', Sequence.Run (keptSequence m issued) calls (ops.run s calls).1
      (keptSequence m' issued') ∧
      (ops.run s calls).2.Mirrors m' issued' := by
  induction calls generalizing s m issued with
  | nil => exact ⟨m, issued, .nil _, h⟩
  | cons c rest ih =>
      have hout : ops.handedOut s (c :: rest) =
          (ops.perform s c).1.reference?.toList ++ ops.handedOut (ops.perform s c).2 rest := by
        show List.filterMap _ (_ :: _) = _
        rw [List.filterMap_cons]
        cases (ops.perform s c).1.reference? <;> rfl
      simp only [hout, ← List.append_assoc] at huses
      obtain ⟨m₁, issued₁, hstep, h₁, hissued₁⟩ := h.perform c fun i =>
        calc _ ≤ _ := (List.sublist_append_left _ _).countP_le
          _ ≤ UInt32.size := huses i
      obtain ⟨m₂, issued₂, hrest, h₂⟩ := ih h₁ (hissued₁ ▸ huses)
      exact ⟨m₂, issued₂, .cons hstep hrest, h₂⟩

theorem holds (h : s.Mirrors m issued) : ops.Holds s (keptSequence m issued) where
  toList_eq := by
    show s.toList = _
    rw [h.shows.toList_eq, SlotMap.toList, keptSequence, List.map_map]
    rfl
  size_eq := by
    show s.count = _
    rw [h.shows.count_eq, SlotMap.size, keptSequence, List.length_map]
  gone _ hr := h.perform_gone hr

end Mirrors

end Slab

namespace Sequence

/-- **Every sequence of calls is answered as it may be for a sequence of items under distinct
references.** So it is for containers, and for slabs if no slot is used again 2³² times. Going
through a slab from its first item one meets the items in the order of addition, at each point as
many as the cursor says, and comes to an end. -/
theorem sequence_run (α : Type) :
    (∀ calls : List (SequenceCall α SlotRef), ∃ q, SlotMap.ops.Behaves calls q) ∧
    ∀ calls : List (SequenceCall α SlabRef),
      (∀ i, (Slab.ops.handedOut .empty calls).countP (fun r => r.slot = i) ≤ UInt32.size) →
      ∃ q, Slab.ops.Behaves calls q ∧
        (Slab.ops.run .empty calls).2.Yields (Slab.ops.run .empty calls).2.cursor
          (q.items.map Prod.snd) ∧
        (Slab.ops.run .empty calls).2.InBounds := by
  constructor
  · intro calls
    have hstart : (SlotMap.empty : SlotMap α).Mirrors .empty := ⟨SlotMap.issued_empty, rfl⟩
    obtain ⟨q, hrun, hmirrors⟩ := hstart.run calls
    exact ⟨q, hrun, hrun.sound sound_empty, hmirrors.holds, fun r a => hrun.removed sound_empty⟩
  · intro calls huses
    obtain ⟨m, issued, hrun, hmirrors⟩ := Slab.Mirrors.empty.run calls huses
    have hyields := hmirrors.shows.yields
    rw [← hmirrors.shows.toList_eq] at hyields
    refine ⟨_, ⟨hrun, hrun.sound sound_empty, hmirrors.holds, fun r a => hrun.removed sound_empty⟩,
      ?_, hmirrors.shows.inBounds⟩
    exact hmirrors.holds.toList_eq ▸ hyields

/-- The first of two items is removed, twice by the same reference. In between its slot
is used again. -/
def reusing : List (SequenceCall Nat SlabRef) :=
  [.add 10, .add 11, .remove ⟨0, 0⟩, .add 20, .remove ⟨0, 0⟩, .get ⟨0, 1⟩]

/-- The second removal finds nothing, and the item in the reused slot comes last. -/
theorem sequence_run_reusing :
    (∀ i, (Slab.ops.handedOut .empty reusing).countP (fun r => r.slot = i) ≤ UInt32.size) ∧
    (Slab.ops.run .empty reusing).1 =
      [.reference ⟨0, 0⟩, .reference ⟨1, 0⟩, .item (some 10), .reference ⟨0, 1⟩, .item none,
        .item (some 20)] ∧
    ∃ q, Slab.ops.Behaves reusing q ∧ q.items.map Prod.snd = [11, 20] ∧
      (Slab.ops.run .empty reusing).2.Yields (Slab.ops.run .empty reusing).2.cursor
        (q.items.map Prod.snd) ∧
      (Slab.ops.run .empty reusing).2.InBounds := by
  have huses : ∀ i, (Slab.ops.handedOut .empty reusing).countP (fun r => r.slot = i) ≤
      UInt32.size := by
    intro i
    calc (Slab.ops.handedOut .empty reusing).countP (fun r => r.slot = i)
        ≤ (Slab.ops.handedOut .empty reusing).length := List.countP_le_length
      _ ≤ UInt32.size := by decide
  obtain ⟨q, hbehaves, hyields, hbounds⟩ := (sequence_run Nat).2 reusing huses
  exact ⟨huses, rfl, q, hbehaves, hbehaves.holds.toList_eq.symm.trans rfl, hyields, hbounds⟩

end Sequence

end RuleMatching
