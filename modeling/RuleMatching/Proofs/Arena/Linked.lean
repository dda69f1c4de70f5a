import RuleMatching.Arena.Slots
import RuleMatching.Proofs.Arena.Siblings

set_option autoImplicit false

/-! # Arenas with threads

A `LinkedArena` has the tuples of an arena strung together in two ways: the extensions of every
tuple, and the threads that its callers keep. The threads stand for lists of live tuples
(`LinkedArena.Fits`), and **every call makes of the lists what it says**: a tuple is created, put in
front of a list, taken out of one, or released. -/

namespace RuleMatching

/-- What becomes of a tuple when another is taken out of the extensions of its parent. -/
def LinkedTuple.bridgedOver (t : TupleId) (gone : LinkedTuple) (x : TupleId) (u : LinkedTuple) :
    LinkedTuple :=
  { u with
    firstChild :=
      if gone.siblings.newer = none ∧ gone.parent = some x ∧
        u.firstChild = some t then gone.siblings.older
      else u.firstChild
    siblings :=
      { newer := if gone.siblings.older = some x then gone.siblings.newer else u.siblings.newer
        older := if gone.siblings.newer = some x then gone.siblings.older else u.siblings.older } }

/-- An arena whose tuples are strung together: the extensions of each, and the threads
of the callers. -/
structure LinkedArena (κ : Type) where
  arena : Arena
  siblings : Threads TupleId
  fellows : Threads κ

namespace LinkedArena

variable {κ : Type}

def empty : LinkedArena κ := ⟨.empty, .empty, .empty⟩

/-- Creates a tuple in front of the extensions of its parent; it gets the reference
`m.arena.next`. -/
def alloc (m : LinkedArena κ) (handle : Handle) (parent : Option TupleId) (sink : NodeId)
    (origin : Option NodeId) : LinkedArena κ :=
  let arena := m.arena.alloc handle parent sink origin
  { m with arena, siblings := m.siblings.link arena parent m.arena.next }

def setLocation (m : LinkedArena κ) (t : TupleId) (l : Location) : LinkedArena κ :=
  { m with arena := m.arena.setLocation t l }

def link [DecidableEq κ] (m : LinkedArena κ) (k : κ) (t : TupleId) : LinkedArena κ :=
  { m with fellows := m.fellows.link m.arena (some k) t }

def unlink [DecidableEq κ] (m : LinkedArena κ) (k : κ) (t : TupleId) : LinkedArena κ :=
  { m with fellows := m.fellows.unlink m.arena (some k) t }

/-- Gives the thread of a key up. Its tuples stay, in no list then. -/
def drop [DecidableEq κ] (m : LinkedArena κ) (k : κ) : LinkedArena κ :=
  { m with fellows := m.fellows.restart k none }

/-- Removes a live tuple, and takes it out of the extensions of its parent. -/
def release (m : LinkedArena κ) (t : TupleId) : LinkedArena κ :=
  match m.arena.get? t with
  | some tuple =>
    { arena := m.arena.remove t
      siblings := ((m.siblings.unlink m.arena tuple.parent t).forget t).restart t none
      fellows := m.fellows.forget t }
  | none => m

/-- Takes a tuple that goes out of the list that it is in, if it is in one, and releases it. -/
def discard [DecidableEq κ] (m : LinkedArena κ) (k : Option κ) (t : TupleId) : LinkedArena κ :=
  match k with
  | some k => (m.unlink k t).release t
  | none => m.release t

theorem arena_release (m : LinkedArena κ) (t : TupleId) :
    (m.release t).arena = SlotMap.remove m.arena t := by
  unfold release
  cases ht : m.arena.get? t with
  | some tuple => rfl
  | none =>
      have hdead : m.arena.contains t = false := SlotMap.contains_eq_false_iff.mpr ht
      exact (if_neg (Bool.eq_false_iff.mp hdead)).symm

theorem arena_discard [DecidableEq κ] (m : LinkedArena κ) (k : Option κ) (t : TupleId) :
    (m.discard k t).arena = SlotMap.remove m.arena t := by
  cases k with
  | none => exact m.arena_release t
  | some k => exact (m.unlink k t).arena_release t

/-! ## Where the threads start -/

theorem newest_drop [DecidableEq κ] (m : LinkedArena κ) (k j : κ) :
    (m.drop k).fellows.newest.get? j = if k = j then none else m.fellows.newest.get? j :=
  Threads.newest_restart m.fellows k none j

theorem newest_link [DecidableEq κ] (m : LinkedArena κ) (k : κ) (t : TupleId) (j : κ) :
    (m.link k t).fellows.newest.get? j = if k = j then some t else m.fellows.newest.get? j := by
  rw [link, Threads.newest_link]
  simp only [Option.some.injEq]

/-- Only the thread that the tuple is taken out of may start at another one. -/
theorem newest_unlink [DecidableEq κ] (m : LinkedArena κ) (k : κ) (t : TupleId) (j : κ) :
    (m.unlink k t).fellows.newest.get? j =
      if k = j then (m.unlink k t).fellows.newest.get? k else m.fellows.newest.get? j := by
  split
  · next hj => rw [hj]
  · next hj => rw [unlink, Threads.newest_unlink, if_neg fun heq => hj (Option.some.inj heq)]

theorem newest_release (m : LinkedArena κ) (t : TupleId) :
    (m.release t).fellows.newest = m.fellows.newest := by
  unfold release
  split <;> rfl

/-! ## What a tuple is linked to -/

/-- A tuple with its newest extension and the tuples next to it. -/
def withLinks (m : LinkedArena κ) (t : TupleId) (tuple : Tuple) : LinkedTuple :=
  { tuple with
    firstChild := m.siblings.newest.get? t
    siblings := m.siblings.neighboursOf t
    fellows := m.fellows.neighboursOf t }

/-- The tuple of a reference, with its links. -/
def linked? (m : LinkedArena κ) (t : TupleId) : Option LinkedTuple :=
  (m.arena.get? t).map (m.withLinks t)

/-- The thread of every tuple lists its extensions, and those of the callers are the given lists of
live tuples. Nothing is noted of a tuple that is not live. -/
structure Fits [DecidableEq κ] (m : LinkedArena κ) (lists : κ → List TupleId) : Prop where
  siblings : SiblingsFit m.arena m.siblings
  fellows : m.fellows.Fits lists
  live : ∀ k x, x ∈ lists k → m.arena.contains x = true
  gone : ∀ t, m.arena.get? t = none → m.fellows.neighboursOf t = {}

theorem fits_empty [DecidableEq κ] : (empty : LinkedArena κ).Fits fun _ => [] :=
  ⟨siblingsFit_empty, Threads.fits_empty, fun _ _ hx => (List.not_mem_nil hx).elim, fun _ _ => rfl⟩

variable [DecidableEq κ]

theorem Fits.congr {m : LinkedArena κ} {lists lists' : κ → List TupleId} (h : m.Fits lists)
    (hl : ∀ k, lists' k = lists k) : m.Fits lists' := funext hl ▸ h

namespace Fits

variable {m : LinkedArena κ} {lists : κ → List TupleId} {t : TupleId} (h : m.Fits lists)

include h

theorem valid : m.arena.Valid := h.siblings.arena.valid

/-- A list has no more tuples than there are. -/
theorem length_le (k : κ) : (lists k).length ≤ m.arena.size :=
  SlotMap.length_le_size (h.fellows.nodup k) (h.live k)

/-- What is next to a tuple of a list is live. -/
theorem neighbour_live {k : κ} (ht : t ∈ lists k) {x : TupleId}
    (hx : (m.fellows.neighboursOf t).newer = some x ∨ (m.fellows.neighboursOf t).older = some x) :
    m.arena.contains x = true :=
  h.live k x (h.fellows.mem_of_neighbour ht hx)

theorem sibling_live {x : TupleId}
    (hx : (m.siblings.neighboursOf t).newer = some x ∨ (m.siblings.neighboursOf t).older = some x) :
    m.arena.contains x = true := by
  by_cases ht : ∃ q, t ∈ m.arena.children q
  · obtain ⟨q, hq⟩ := ht
    exact h.siblings.live_of_mem_children q x (h.siblings.fits.mem_of_neighbour hq hx)
  · rw [h.siblings.loose t fun q hq => ht ⟨q, hq⟩] at hx
    simp at hx

/-- A tuple that is not live is in no thread, and has no extensions. -/
theorem loose_of_dead (ht : m.arena.get? t = none) :
    m.siblings.newest.get? t = none ∧ m.siblings.neighboursOf t = {} ∧
    m.fellows.neighboursOf t = {} := by
  have hdead : m.arena.contains t = false := SlotMap.contains_eq_false_iff.mpr ht
  refine ⟨?_, h.siblings.loose t fun q hq => ?_, h.gone t ht⟩
  · rw [(h.siblings.fits.strung t).start, Arena.children_dead ht]
    rfl
  · rw [h.siblings.live_of_mem_children q t hq] at hdead
    cases hdead

theorem alloc {handle : Handle} {parent : Option TupleId} {sink : NodeId} {origin : Option NodeId}
    (hp : ∀ p, parent = some p → ∃ u, m.arena.get? p = some u) :
    (m.alloc handle parent sink origin).Fits lists := by
  let u : Tuple := ⟨handle, parent, m.arena.childSize parent, sink, origin, none⟩
  obtain ⟨-, hlive, -⟩ := Arena.lists_add h.valid h.live u
  refine ⟨h.siblings.add (u := u) hp rfl, h.fellows, hlive, fun x hx => h.gone x ?_⟩
  have hadd : SlotMap.get? (SlotMap.add m.arena u) x = none := hx
  rw [SlotMap.get?_add h.valid] at hadd
  split at hadd
  · cases hadd
  · exact hadd

/-- Neither the parent of a new tuple nor the newest extension of the parent has the reference
that comes next. -/
theorem ne_next {parent : Option TupleId}
    (hp : ∀ p, parent = some p → ∃ u, m.arena.get? p = some u) :
    parent ≠ some m.arena.next ∧ parent.bind m.siblings.newest.get? ≠ some m.arena.next := by
  refine ⟨fun hparent => ?_, fun hnewest => ?_⟩
  · obtain ⟨v, hv⟩ := hp _ hparent
    rw [SlotMap.get?_next h.valid] at hv
    cases hv
  · obtain ⟨p, -, hp⟩ := Option.bind_eq_some_iff.mp hnewest
    have hlive := h.siblings.live_of_mem_children p _ (h.siblings.fits.mem_of_newest hp)
    rw [SlotMap.contains_next h.valid] at hlive
    cases hlive

/-- The new tuple is the newest extension of its parent, next to the one that was it before. -/
theorem linked?_alloc {handle : Handle} {parent : Option TupleId} {sink : NodeId}
    {origin : Option NodeId} (hp : ∀ p, parent = some p → ∃ u, m.arena.get? p = some u)
    (x : TupleId) :
    (m.alloc handle parent sink origin).linked? x =
      if x = m.arena.next then
        some ⟨⟨handle, parent, m.arena.childSize parent, sink, origin, none⟩, none,
          ⟨none, parent.bind m.siblings.newest.get?⟩, {}⟩
      else (m.linked? x).map fun v =>
        { v with
          firstChild := if parent = some x then some m.arena.next else v.firstChild
          siblings := { v.siblings with
            newer :=
              if parent.bind m.siblings.newest.get? = some x then some m.arena.next
              else v.siblings.newer } } := by
  obtain ⟨u, hu⟩ : ∃ u : Tuple, u = ⟨handle, parent, m.arena.childSize parent, sink, origin,
    none⟩ := ⟨_, rfl⟩
  have harena : (m.alloc handle parent sink origin).arena = SlotMap.add m.arena u := hu ▸ rfl
  have hsiblings : (m.alloc handle parent sink origin).siblings =
      m.siblings.link (SlotMap.add m.arena u) parent m.arena.next := hu ▸ rfl
  obtain ⟨hnext, hlive, -⟩ := Arena.lists_add h.valid h.siblings.live_of_mem_children u
  have hnewest : ∀ c, parent.bind m.siblings.newest.get? = some c →
      SlotMap.contains (SlotMap.add m.arena u) c = true := by
    intro c hc
    obtain ⟨p, -, hp⟩ := Option.bind_eq_some_iff.mp hc
    exact hlive p c (h.siblings.fits.mem_of_newest hp)
  have hneighbours := Threads.neighboursOf_link_eq (s := m.siblings) hnext hnewest x
  rw [linked?, harena, SlotMap.get?_add h.valid, ← hu]
  by_cases hx : x = m.arena.next
  · subst hx
    -- Nothing was linked to the reference while no tuple had it.
    obtain ⟨hnone, -, hloose⟩ := h.loose_of_dead (SlotMap.get?_next h.valid)
    obtain ⟨hparent, hne⟩ := h.ne_next hp
    rw [if_pos rfl, if_pos rfl, Option.map_some, withLinks, hsiblings, hneighbours,
      Threads.newest_link, if_neg hparent, if_neg hne, if_pos rfl, if_pos rfl, hnone]
    exact congrArg (fun n => some (LinkedTuple.mk u none _ n)) hloose
  · rw [if_neg hx, if_neg hx, linked?, Option.map_map]
    refine congrArg (Option.map · _) (funext fun v => ?_)
    rw [withLinks, hsiblings, hneighbours, Threads.newest_link, if_neg (Ne.symm hx),
      if_neg (Ne.symm hx)]
    rfl

theorem setLocation (t : TupleId) (l : Location) : (m.setLocation t l).Fits lists := by
  have hcontains := fun x => Arena.contains_setLocation m.arena t x l
  refine ⟨h.siblings.setLocation t l, h.fellows, fun k x hx => (hcontains x).trans (h.live k x hx),
    fun x hx => h.gone x ?_⟩
  exact SlotMap.contains_eq_false_iff.mp
    ((hcontains x).symm.trans (SlotMap.contains_eq_false_iff.mpr hx))

/-- **A tuple in no list is put in front of one.** -/
theorem link (ht : m.arena.contains t = true) (hnew : ∀ j, t ∉ lists j) (k : κ) :
    (m.link k t).Fits fun j => if k = j then t :: lists j else lists j := by
  have hfellows := h.fellows.link (k := some k) ht h.live hnew
  obtain ⟨-, -, hother⟩ := h.fellows.neighboursOf_link (k := some k) ht h.live hnew
  simp only [Option.some.injEq] at hfellows
  refine ⟨h.siblings, hfellows, fun j x hx => ?_, fun x hx => ?_⟩
  · split at hx
    · rcases List.mem_cons.mp hx with rfl | hx
      · exact ht
      · exact h.live j x hx
    · exact h.live j x hx
  · have hdead : ¬m.arena.contains x = true :=
      Bool.eq_false_iff.mp (SlotMap.contains_eq_false_iff.mpr hx)
    refine (hother x (fun heq => hdead (heq ▸ ht)) fun hn => hdead ?_).trans (h.gone x hx)
    exact h.live k x (h.fellows.mem_of_newest hn)

/-- The tuple comes next to the one that was the newest of the thread. -/
theorem linked?_link (ht : m.arena.contains t = true) (k : κ) (x : TupleId) :
    (m.link k t).linked? x = (m.linked? x).map fun v =>
      { v with
        fellows :=
          ⟨if m.fellows.newest.get? k = some x then some t
            else if t = x then none else v.fellows.newer,
            if t = x then m.fellows.newest.get? k else v.fellows.older⟩ } := by
  have hneighbours := Threads.neighboursOf_link_eq (s := m.fellows) (k := some k) ht
    (fun c hc => h.live k c (h.fellows.mem_of_newest hc)) x
  rw [linked?, linked?, Option.map_map]
  refine congrArg (Option.map · _) (funext fun v => ?_)
  rw [withLinks, LinkedArena.link, hneighbours]
  rfl

/-- **A tuple is taken out of its list, wherever it is.** -/
theorem unlink {k : κ} (ht : t ∈ lists k) :
    (m.unlink k t).Fits fun j => if k = j then (lists j).filter (· ≠ t) else lists j := by
  have hk : ∀ j, t ∈ lists j ↔ some k = some j := fun j =>
    ⟨fun hj => congrArg some (h.fellows.apart k j t ht hj), fun hj => Option.some.inj hj ▸ ht⟩
  have hlists : (fun j => if k = j then (lists j).filter (· ≠ t) else lists j) =
      fun j => (lists j).filter (· ≠ t) := by
    funext j
    split
    · rfl
    · next hj =>
      rw [filter_ne_of_not_mem fun hmem => hj (Option.some.inj ((hk j).mp hmem))]
  have hlive := h.live k t ht
  rw [hlists]
  refine ⟨h.siblings, h.fellows.unlink hlive h.live hk (fun hc => nomatch hc),
    fun j x hx => h.live j x (List.mem_filter.mp hx).1, fun x hx => ?_⟩
  have hx : m.arena.get? x = none := hx
  have hne : ∀ y, m.arena.contains y = true → y ≠ x := by
    rintro y hy rfl
    rw [SlotMap.contains_eq_false_iff.mpr hx] at hy
    cases hy
  show (m.fellows.unlink m.arena (some k) t).neighboursOf x = {}
  rw [Threads.neighboursOf_unlink_eq hlive (fun c hc => h.neighbour_live ht (Or.inl hc))
    (fun c hc => h.neighbour_live ht (Or.inr hc)), h.gone x hx,
    if_neg fun hc => hne x (h.neighbour_live ht (Or.inr hc)) rfl,
    if_neg fun hc => hne x (h.neighbour_live ht (Or.inl hc)) rfl, if_neg (hne t hlive)]

/-- The neighbours of the tuple become neighbours of each other. -/
theorem linked?_unlink {k : κ} (ht : t ∈ lists k) (x : TupleId) :
    (m.unlink k t).linked? x = (m.linked? x).map fun v =>
      { v with
        fellows :=
          ⟨if (m.fellows.neighboursOf t).older = some x then (m.fellows.neighboursOf t).newer
            else if t = x then none else v.fellows.newer,
            if (m.fellows.neighboursOf t).newer = some x then (m.fellows.neighboursOf t).older
            else if t = x then none else v.fellows.older⟩ } := by
  have hneighbours := Threads.neighboursOf_unlink_eq (s := m.fellows) (k := some k) (h.live k t ht)
    (fun c hc => h.neighbour_live ht (Or.inl hc)) (fun c hc => h.neighbour_live ht (Or.inr hc)) x
  rw [linked?, linked?, Option.map_map]
  refine congrArg (Option.map · _) (funext fun v => ?_)
  rw [withLinks, LinkedArena.unlink, hneighbours]
  rfl

/-- A list is given up. -/
theorem drop (k : κ) : (m.drop k).Fits fun j => if k = j then [] else lists j := by
  refine ⟨h.siblings, h.fellows.restart_none k, fun j x hx => h.live j x ?_, h.gone⟩
  split at hx
  · cases hx
  · exact hx

/-- **A tuple without extensions that is in no list is released.** -/
theorem release (hfree : ∀ k, t ∉ lists k)
    (hleaf : ∀ y u, m.arena.get? y = some u → u.parent ≠ some t) : (m.release t).Fits lists := by
  unfold LinkedArena.release
  cases ht : m.arena.get? t with
  | none => exact h
  | some tuple =>
      refine ⟨h.siblings.remove ht hleaf, h.fellows.forget hfree, fun k x hx => ?_, fun x hx => ?_⟩
      · have hne : x ≠ t := fun heq => hfree k (heq ▸ hx)
        show SlotMap.contains (SlotMap.remove m.arena t) x = true
        rw [SlotMap.contains, SlotMap.get?_remove h.valid, if_neg hne]
        exact h.live k x hx
      · have hdead : SlotMap.get? (SlotMap.remove m.arena t) x = none := hx
        rw [SlotMap.get?_remove h.valid] at hdead
        rw [Threads.neighboursOf_forget]
        split
        · rfl
        · next hne => exact h.gone x (by rwa [if_neg hne] at hdead)

/-- **A tuple without extensions is taken out of its list and released.** -/
theorem discard {o : Option κ} (ho : ∀ k, t ∈ lists k ↔ o = some k)
    (hleaf : ∀ y u, m.arena.get? y = some u → u.parent ≠ some t) :
    (m.discard o t).Fits fun k => (lists k).filter (· ≠ t) := by
  cases o with
  | none =>
      have hfree : ∀ k, t ∉ lists k := fun k hk => nomatch (ho k).mp hk
      exact (h.release hfree hleaf).congr fun k => filter_ne_of_not_mem (hfree k)
  | some k =>
      have hunlinked := h.unlink ((ho k).mpr rfl)
      have hfree : ∀ j, t ∉ if k = j then (lists j).filter (· ≠ t) else lists j := by
        intro j hj
        split at hj
        · simp at hj
        · next hne => exact hne (Option.some.inj ((ho j).mp hj))
      refine (hunlinked.release hfree hleaf).congr fun j => ?_
      split
      · rfl
      · next hne => exact filter_ne_of_not_mem fun hj => hne (Option.some.inj ((ho j).mp hj))

theorem linked?_release {u : Tuple} (ht : m.arena.get? t = some u) (x : TupleId) :
    (m.release t).linked? x =
      if x = t then none
      else (m.linked? x).map (LinkedTuple.bridgedOver t (m.withLinks t u) x) := by
  have hlive : m.arena.contains t = true := (SlotMap.contains_iff _ _).mpr ⟨u, ht⟩
  have hrelease : m.release t =
      ⟨m.arena.remove t, ((m.siblings.unlink m.arena u.parent t).forget t).restart t none,
        m.fellows.forget t⟩ := by
    rw [LinkedArena.release, ht]
  have hneighbours := Threads.neighboursOf_unlink_eq (s := m.siblings) (k := u.parent) hlive
    (fun c hc => h.sibling_live (Or.inl hc)) (fun c hc => h.sibling_live (Or.inr hc)) x
  rw [hrelease, linked?, SlotMap.get?_remove h.valid]
  by_cases hx : x = t
  · rw [if_pos hx, if_pos hx]
    rfl
  · rw [if_neg hx, if_neg hx, linked?, Option.map_map]
    refine congrArg (Option.map · _) (funext fun v => ?_)
    have hsiblings :
        (((m.siblings.unlink m.arena u.parent t).forget t).restart t none).neighboursOf x =
        (m.siblings.unlink m.arena u.parent t).neighboursOf x :=
      (Threads.neighboursOf_forget _ t x).trans (if_neg hx)
    have hnewest :
        (((m.siblings.unlink m.arena u.parent t).forget t).restart t none).newest.get? x =
        (m.siblings.unlink m.arena u.parent t).newest.get? x :=
      (Threads.newest_restart _ t none x).trans (if_neg (Ne.symm hx))
    rw [withLinks, hsiblings, hnewest, hneighbours, Threads.neighboursOf_forget, if_neg hx,
      Threads.newest_unlink, Threads.newestWithout_of_live hlive, if_neg (Ne.symm hx),
      if_neg (Ne.symm hx)]
    by_cases hp : u.parent = some x <;> simp [LinkedTuple.bridgedOver, withLinks, hp]

end Fits

end LinkedArena

end RuleMatching
