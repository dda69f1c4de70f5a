import RuleMatching.Proofs.Arena.Callers

set_option autoImplicit false

/-! # Arenas answer what the books of their callers say

There are two arenas of tuples. A `ThreadedArena` keeps the tuples in the order of creation, and
notes the neighbours of those in threads of the callers. A `SlotArena` keeps each tuple in a slot,
with its neighbours in that thread and among the extensions of its parent. Both show an arena with
threads (`ThreadedArena.simulates`, `SlotArena.simulates`), and so **both answer what the book of
their callers says**, as long as the callers make permitted calls only (`TupleBook.book_run`). -/

namespace RuleMatching

/-! ## Arenas with threads as lists of tuples -/

namespace ThreadedArena

def ops : ArenaOps ThreadedArena where
  empty := .empty
  alloc a handle parent sink origin := (a.arena.next, a.alloc handle parent sink origin)
  setLocation a t l := { a with arena := a.arena.setLocation t l }
  link a newest t := (some t, a.link newest t)
  unlink a newest t := (a.newestWithout newest t, a.unlink t)
  release a t := (a.arena.get? t, a.remove t)
  get? a := a.arena.get?
  contains a := a.arena.contains
  children a := a.arena.children
  thread := ThreadedArena.thread
  handles a := a.arena.handles
  size a := a.arena.size

variable {κ : Type}

/-- Neighbours are noted of live tuples only. -/
def LiveNoted (a : ThreadedArena) : Prop :=
  ∀ t n, a.neighbours.get? t = some n → a.arena.contains t = true

theorem LiveNoted.modifyNeighbours {a : ThreadedArena} (h : a.LiveNoted) (o : Option TupleId)
    (f : Neighbours → Neighbours) : (a.modifyNeighbours o f).LiveNoted := by
  cases o with
  | none => exact h
  | some t =>
      unfold ThreadedArena.modifyNeighbours
      by_cases ht : a.arena.contains t = true
      · simp only [ht, if_true]
        intro x n hx
        by_cases heq : x = t
        · exact heq ▸ ht
        · exact h x n ((FiniteMap.get?_insert_ne _ _ heq).symm.trans hx)
      · simp only [ht]
        exact h

theorem LiveNoted.link {a : ThreadedArena} (h : a.LiveNoted) (newest : Option TupleId)
    (t : TupleId) : (a.link newest t).LiveNoted :=
  (h.modifyNeighbours _ _).modifyNeighbours _ _

theorem LiveNoted.unlink {a : ThreadedArena} (h : a.LiveNoted) (t : TupleId) :
    (a.unlink t).LiveNoted := by
  unfold ThreadedArena.unlink
  split
  · exact ((h.modifyNeighbours _ _).modifyNeighbours _ _).modifyNeighbours _ _
  · exact h

theorem LiveNoted.remove {a : ThreadedArena} (h : a.LiveNoted) (ha : a.arena.Valid) (t : TupleId) :
    (a.remove t).LiveNoted := by
  intro x n hx
  have hx' : (a.neighbours.erase t).get? x = some n := hx
  rw [FiniteMap.get?_erase] at hx'
  split at hx'
  · cases hx'
  · next hne =>
    show (SlotMap.get? (SlotMap.remove a.arena t) x).isSome = true
    rw [SlotMap.get?_remove ha, if_neg hne]
    exact h x n hx'

/-- Of a tuple that is not live nothing is noted that could be removed. -/
theorem LiveNoted.remove_dead {a : ThreadedArena} (h : a.LiveNoted) {t : TupleId}
    (ht : a.arena.get? t = none) : a.remove t = a := by
  have hdead : ¬a.arena.contains t = true :=
    Bool.eq_false_iff.mp (SlotMap.contains_eq_false_iff.mpr ht)
  have hnone : a.neighbours.get? t = none := by
    by_contra hsome
    obtain ⟨n, hn⟩ := Option.ne_none_iff_exists'.mp hsome
    exact hdead (h t n hn)
  have harena : SlotMap.remove a.arena t = a.arena := if_neg hdead
  rw [ThreadedArena.remove, harena, FiniteMap.erase_of_get?_eq_none hnone]

theorem eq_mk {a : ThreadedArena} {arena : Arena} (h : a.arena = arena) :
    a = ⟨arena, a.neighbours⟩ := h ▸ rfl

theorem arena_link (a : ThreadedArena) (newest : Option TupleId) (t : TupleId) :
    (a.link newest t).arena = a.arena := by
  simp [link]

theorem arena_unlink (a : ThreadedArena) (t : TupleId) : (a.unlink t).arena = a.arena := by
  unfold unlink
  split
  · simp
  · rfl

/-- The tuples and the threads of the callers. Of the extensions of a tuple there are no threads. -/
structure Shows (a : ThreadedArena) (m : LinkedArena κ) : Prop where
  beside : a = m.fellows.beside m.arena
  noted : a.LiveNoted

theorem simulates [DecidableEq κ] (bound : Nat) :
    ops.Simulates (Shows : ThreadedArena → LinkedArena κ → Prop) bound where
  empty := ⟨rfl, fun _ _ h => nomatch h⟩
  index_alloc := fun h handle parent sink origin => by
    obtain ⟨rfl, -⟩ := h
    rfl
  alloc := fun {a m lists} h hm _ handle parent sink origin _ => by
    obtain ⟨rfl, hnoted⟩ := h
    refine ⟨rfl, rfl, fun t n ht => ?_⟩
    exact (SlotMap.contains_add hm.valid _ t).mpr (Or.inr (hnoted t n ht))
  setLocation := fun {a m} h t l => by
    obtain ⟨rfl, hnoted⟩ := h
    exact ⟨rfl, fun x n hx => (Arena.contains_setLocation m.arena t x l).trans (hnoted x n hx)⟩
  link := fun {a m lists} h hm k t ht => by
    obtain ⟨rfl, hnoted⟩ := h
    refine ⟨((Threads.newest_link m.fellows m.arena (some k) t k).trans (if_pos rfl)).symm, ?_,
      hnoted.link _ t⟩
    exact eq_mk (arena_link _ _ t)
  unlink := fun {a m lists} h hm k t ht => by
    obtain ⟨rfl, hnoted⟩ := h
    refine ⟨((Threads.newest_unlink m.fellows m.arena (some k) t k).trans (if_pos rfl)).symm, ?_,
      hnoted.unlink t⟩
    exact eq_mk (arena_unlink _ t)
  release := fun {a m lists} h hm t => by
    obtain ⟨rfl, hnoted⟩ := h
    refine ⟨rfl, ?_, hnoted.remove hm.valid t⟩
    cases ht : m.arena.get? t with
    | some u =>
        rw [LinkedArena.release, ht]
        rfl
    | none =>
        rw [LinkedArena.release, ht]
        exact hnoted.remove_dead ht
  release_dead := fun {a m} h t ht => by
    obtain ⟨rfl, hnoted⟩ := h
    exact hnoted.remove_dead ht
  get?_eq := fun h t => h.beside ▸ rfl
  contains_eq := fun h t => h.beside ▸ rfl
  children_eq := fun h _ t => h.beside ▸ rfl
  thread_eq := fun {a m lists} h hm k => by
    obtain ⟨rfl, -⟩ := h
    exact hm.fellows.thread_eq (Nat.le_succ_of_le (hm.length_le k))
  handles_eq := fun h _ t => h.beside ▸ rfl
  size_eq := fun h => h.beside ▸ rfl

end ThreadedArena

/-! ## Arenas in slots -/

namespace SlotArena

def ops : ArenaOps SlotArena where
  empty := .empty
  alloc := SlotArena.alloc
  setLocation := SlotArena.setLocation
  link := SlotArena.link
  unlink := SlotArena.unlink
  release a t := ((a.release t).1.map LinkedTuple.toTuple, (a.release t).2)
  get? a t := (a.get? t).map LinkedTuple.toTuple
  contains := SlotArena.contains
  children := SlotArena.children
  thread := SlotArena.thread
  handles := SlotArena.handles
  size := SlotArena.count

variable {κ : Type}

/-- The generations of the slots are counted in 32 bits. -/
theorem simulates [DecidableEq κ] :
    ops.Simulates (Shows : SlotArena → LinkedArena κ → Prop) UInt32.size where
  empty := shows_empty
  index_alloc := fun h _ _ _ _ => h.slots.index_occupy _
  alloc := fun h hm hlt _ _ _ _ hp => h.alloc hm hp hlt
  setLocation := fun h t l => h.setLocation t l
  link := fun h hm k _ ht => h.link hm ht k
  unlink := fun h hm _ _ ht => h.unlink hm ht
  release := fun {a m lists} h hm t => by
    cases ht : m.arena.get? t with
    | some u => exact h.release hm ht
    | none =>
        have hrelease : m.release t = m := by rw [LinkedArena.release, ht]
        show (a.release t).1.map LinkedTuple.toTuple = none ∧ (a.release t).2.Shows (m.release t)
        rw [h.release_dead ht, hrelease]
        exact ⟨rfl, h⟩
  release_dead := fun {a m} h t ht => congrArg Prod.snd (h.release_dead ht)
  get?_eq := fun h t => h.map_get? t
  contains_eq := fun h t => h.contains_eq t
  children_eq := fun h hm t => h.children_eq hm t
  thread_eq := fun h hm k => h.thread_eq hm k
  handles_eq := fun h hm t => h.handles_eq hm t
  size_eq := fun h => h.slots.count_eq

/-- Every way through the slots comes to an end, after the tuples that are collected on it, and the
slots that are free are there. -/
structure Ends (s : SlotArena) (starts : κ → Option TupleId) : Prop where
  children : ∀ t, Walk s.olderSibling? ((s.get? t).bind LinkedTuple.firstChild) (s.children t)
  thread : ∀ k, Walk s.olderFellow? (starts k) (s.thread (starts k))
  up : ∀ t u, s.get? t = some u → ∃ path,
    Walk (fun y => (s.get? y).bind fun tuple => tuple.parent) (some t) path ∧
      List.Forall₂ (fun y h => ∃ v, s.get? y = some v ∧ v.handle = h) path (s.handles t).reverse
  free : ∀ i ∈ s.free, i < s.slots.length

theorem Shows.ends [DecidableEq κ] {s : SlotArena} {m : LinkedArena κ} {lists : κ → List TupleId}
    (h : s.Shows m) (hm : m.Fits lists) : s.Ends m.fellows.newest.get? := by
  refine ⟨fun t => ?_, fun k => ?_, fun t u ht => ?_, fun i hi => ?_⟩
  · rw [h.children_eq hm]
    exact h.walk_children hm t
  · rw [h.thread_eq hm]
    exact h.walk_thread hm k
  · have hlive := h.map_get? t
    rw [ht] at hlive
    rw [h.handles_eq hm]
    exact h.walk_up hm hlive.symm
  · rw [h.slots.length_slots]
    exact hm.valid.free_lt i (h.slots.free_eq ▸ hi)

end SlotArena

namespace TupleBook

/-- **As long as its callers make permitted calls only, an arena answers what their book says.** So
does an arena that keeps its tuples in slots, if no slot is used more than 2³² times, and every way
through its slots comes to an end. -/
theorem book_run (κ : Type) [DecidableEq κ] :
    (∀ calls : List (ArenaCall κ), ThreadedArena.ops.Disciplined ThreadedArena.ops.start calls →
      ThreadedArena.ops.Behaves calls) ∧
    ∀ calls : List (ArenaCall κ), SlotArena.ops.Disciplined SlotArena.ops.start calls →
      (∀ i, (SlotArena.ops.run SlotArena.ops.start calls).book.issued.countP (fun t => t.index =
        i) ≤ UInt32.size) →
      SlotArena.ops.Behaves calls ∧
        (SlotArena.ops.run SlotArena.ops.start calls).arena.Ends
          (SlotArena.ops.run SlotArena.ops.start calls).starts := by
  constructor
  · intro calls hd
    -- There are no more uses of a slot than references.
    exact ((ThreadedArena.simulates _).behaves hd fun i => List.countP_le_length).1
  · intro calls hd huses
    obtain ⟨hbehaves, m, hm⟩ := SlotArena.simulates.behaves hd huses
    rw [hm.starts]
    exact ⟨hbehaves, hm.shows.ends hm.book.fits⟩

/-- Three extensions of a tuple are linked, the middle one is taken out and released, and its slot
is used again for an extension of another. At last the tuple that was released is released again. -/
def reusing : List (ArenaCall Bool) :=
  [.alloc 1 none 9 none, .alloc 2 (some ⟨0, 0⟩) 9 (some 3), .alloc 3 (some ⟨0, 0⟩) 9 (some 3),
    .alloc 4 (some ⟨0, 0⟩) 9 (some 3), .link true ⟨1, 0⟩, .link true ⟨2, 0⟩, .link true ⟨3, 0⟩,
    .unlink true ⟨2, 0⟩, .release ⟨2, 0⟩, .alloc 5 (some ⟨1, 0⟩) 9 (some 4), .link false ⟨2, 1⟩,
    .release ⟨2, 0⟩]

/-- The thread and the extensions of the first tuple close up over the gap, and the slot leads
nobody astray. -/
theorem book_run_reusing :
    ThreadedArena.ops.Disciplined ThreadedArena.ops.start reusing ∧
    ThreadedArena.ops.Behaves reusing ∧
    SlotArena.ops.Disciplined SlotArena.ops.start reusing ∧
    (∀ i, (SlotArena.ops.run SlotArena.ops.start reusing).book.issued.countP (fun t => t.index =
      i) ≤ UInt32.size) ∧
    SlotArena.ops.Behaves reusing ∧
    (SlotArena.ops.run SlotArena.ops.start reusing).arena.Ends
      (SlotArena.ops.run SlotArena.ops.start reusing).starts ∧
    (SlotArena.ops.run SlotArena.ops.start reusing).book.issued =
      [⟨0, 0⟩, ⟨1, 0⟩, ⟨2, 0⟩, ⟨3, 0⟩, ⟨2, 1⟩] ∧
    (SlotArena.ops.run SlotArena.ops.start reusing).book.lists true = [⟨3, 0⟩, ⟨1, 0⟩] ∧
    (SlotArena.ops.run SlotArena.ops.start reusing).arena.children ⟨0, 0⟩ = [⟨3, 0⟩, ⟨1, 0⟩] ∧
    (SlotArena.ops.run SlotArena.ops.start reusing).arena.handles ⟨2, 1⟩ = [1, 2, 5] ∧
    (SlotArena.ops.run SlotArena.ops.start reusing).arena.contains ⟨2, 0⟩ = false := by
  have hthreaded : ThreadedArena.ops.Disciplined ThreadedArena.ops.start reusing := by decide
  have hslots : SlotArena.ops.Disciplined SlotArena.ops.start reusing := by decide
  have huses :
      ∀ i, (SlotArena.ops.run SlotArena.ops.start reusing).book.issued.countP
      (fun t => t.index = i) ≤
      UInt32.size := by
    intro i
    calc (SlotArena.ops.run SlotArena.ops.start reusing).book.issued.countP (fun t => t.index = i)
        ≤ (SlotArena.ops.run SlotArena.ops.start reusing).book.issued.length :=
          List.countP_le_length
      _ ≤ UInt32.size := by decide
  obtain ⟨hbehaves, hends⟩ := (book_run Bool).2 reusing hslots huses
  exact ⟨hthreaded, (book_run Bool).1 reusing hthreaded, hslots, huses, hbehaves,
    hends, by decide, by decide, by decide, by decide, by decide⟩

end TupleBook

end RuleMatching
