import Mathlib.Data.Fintype.Basic
import RuleMatching.Proofs.Arena.Slots
import RuleMatching.Proofs.SlotMap.Issued

set_option autoImplicit false

/-! # What the callers of an arena may rely on

The callers of an arena know without it which tuples are live, and which of them are in which
thread: they keep a `TupleBook`. They hold where each thread starts, create tuples under live
parents only, link a tuple that is in no thread, take it out of the thread that it is in, and
release a tuple that is in no thread and has no extensions (`TupleBook.Permits`). Any arena
that shows an arena with threads (`ArenaOps.Simulates`) then **answers what the book says**
(`ArenaOps.Tells`), **after every run of permitted calls** (`ArenaOps.Simulates.behaves`):
also after tuples were taken out of the middle of a thread, and after slots of released tuples
were used again. -/

namespace RuleMatching

/-- A call that changes an arena. The threads of the callers are known by keys. -/
inductive ArenaCall (κ : Type) where
  | alloc (handle : Handle) (parent : Option TupleId) (sink : NodeId) (origin : Option NodeId)
  | setLocation (t : TupleId) (l : Location)
  | link (k : κ) (t : TupleId)
  | unlink (k : κ) (t : TupleId)
  | release (t : TupleId)

/-- The references handed out so far, the live tuples in the order of creation, and the threads,
newest first. -/
structure TupleBook (κ : Type) where
  issued : List TupleId
  live : List (TupleId × Tuple)
  lists : κ → List TupleId

namespace TupleBook

variable {κ : Type}

def empty : TupleBook κ := ⟨[], [], fun _ => []⟩

/-- The references of the live tuples. -/
def refs (b : TupleBook κ) : List TupleId := b.live.map Prod.fst

def tuple? (b : TupleBook κ) (t : TupleId) : Option Tuple := b.live.lookup t

/-- The live tuples that were created under a tuple, the newest first. -/
def children (b : TupleBook κ) (p : TupleId) : List TupleId :=
  ((b.live.filter fun e => e.2.parent = some p).map Prod.fst).reverse

/-- The facts from a tuple without parent on to a live one, each tuple the parent of the next. -/
inductive Chain (b : TupleBook κ) : TupleId → List Handle → Prop
  | root {t : TupleId} {u : Tuple} (mem : (t, u) ∈ b.live) (parent : u.parent = none) :
      Chain b t [u.handle]
  | extend {t p : TupleId} {u : Tuple} {handles : List Handle} (mem : (t, u) ∈ b.live)
      (parent : u.parent = some p) (above : Chain b p handles) : Chain b t (handles ++ [u.handle])

/-- What the callers may call. -/
def Permits (b : TupleBook κ) : ArenaCall κ → Prop
  | .alloc _ parent _ _ => ∀ p ∈ parent, p ∈ b.refs
  | .setLocation _ _ => True
  | .link _ t => t ∈ b.refs ∧ ∀ j, t ∉ b.lists j
  | .unlink k t => t ∈ b.lists k
  | .release t => (∀ j, t ∉ b.lists j) ∧ ∀ e ∈ b.live, e.2.parent ≠ some t

instance decidablePermits [Fintype κ] (b : TupleBook κ) :
    (c : ArenaCall κ) → Decidable (b.Permits c)
  | .alloc _ parent _ _ => inferInstanceAs (Decidable (∀ p ∈ parent, p ∈ b.refs))
  | .setLocation _ _ => inferInstanceAs (Decidable True)
  | .link _ t => inferInstanceAs (Decidable (t ∈ b.refs ∧ ∀ j, t ∉ b.lists j))
  | .unlink k t => inferInstanceAs (Decidable (t ∈ b.lists k))
  | .release t =>
    inferInstanceAs (Decidable ((∀ j, t ∉ b.lists j) ∧ ∀ e ∈ b.live, e.2.parent ≠ some t))

/-- A tuple is one pattern longer than its parent. -/
def childSize (b : TupleBook κ) (parent : Option TupleId) : Nat :=
  match parent.bind b.tuple? with
  | some p => p.size + 1
  | none => 1

/-- A tuple was created and got the reference. -/
def create (b : TupleBook κ) (t : TupleId) (handle : Handle) (parent : Option TupleId)
    (sink : NodeId) (origin : Option NodeId) : TupleBook κ :=
  { b with
    issued := b.issued ++ [t]
    live := b.live ++ [(t, ⟨handle, parent, b.childSize parent, sink, origin, none⟩)] }

def setLocation (b : TupleBook κ) (t : TupleId) (l : Location) : TupleBook κ :=
  { b with
    live := b.live.map fun e => if e.1 = t then (e.1, { e.2 with location := some l }) else e }

def link [DecidableEq κ] (b : TupleBook κ) (k : κ) (t : TupleId) : TupleBook κ :=
  { b with lists := fun j => if k = j then t :: b.lists j else b.lists j }

def unlink [DecidableEq κ] (b : TupleBook κ) (k : κ) (t : TupleId) : TupleBook κ :=
  { b with lists := fun j => if k = j then (b.lists j).filter (· ≠ t) else b.lists j }

def release (b : TupleBook κ) (t : TupleId) : TupleBook κ :=
  { b with live := b.live.filter fun e => e.1 ≠ t }

theorem refs_create (b : TupleBook κ) (t : TupleId) (handle : Handle) (parent : Option TupleId)
    (sink : NodeId) (origin : Option NodeId) :
    (b.create t handle parent sink origin).refs = b.refs ++ [t] := List.map_append

theorem refs_setLocation (b : TupleBook κ) (t : TupleId) (l : Location) :
    (b.setLocation t l).refs = b.refs := by
  rw [refs, setLocation, refs, List.map_map]
  refine List.map_congr_left fun e _ => ?_
  simp only [Function.comp_apply]
  split <;> rfl

theorem refs_release (b : TupleBook κ) (t : TupleId) :
    (b.release t).refs = b.refs.filter (· ≠ t) := by
  rw [refs, release, refs, List.filter_map]
  rfl

end TupleBook

/-! ## Arenas and their callers -/

/-- The operations of an arena. -/
structure ArenaOps (σ : Type) where
  empty : σ
  alloc : σ → Handle → Option TupleId → NodeId → Option NodeId → TupleId × σ
  setLocation : σ → TupleId → Location → σ
  /-- Puts a tuple in front of the thread with the given start, and answers the new start. -/
  link : σ → Option TupleId → TupleId → Option TupleId × σ
  /-- Takes a tuple out of the thread with the given start, and answers the new start. -/
  unlink : σ → Option TupleId → TupleId → Option TupleId × σ
  release : σ → TupleId → Option Tuple × σ
  get? : σ → TupleId → Option Tuple
  contains : σ → TupleId → Bool
  children : σ → TupleId → List TupleId
  thread : σ → Option TupleId → List TupleId
  handles : σ → TupleId → List Handle
  size : σ → Nat

/-- An arena in the hands of its callers: they hold where each thread starts, and keep a book. -/
structure ArenaCaller (κ σ : Type) where
  arena : σ
  starts : κ → Option TupleId
  book : TupleBook κ

namespace ArenaOps

variable {κ σ : Type} (ops : ArenaOps σ)

def start : ArenaCaller κ σ := ⟨ops.empty, fun _ => none, .empty⟩

variable [DecidableEq κ]

/-- A call, and what the callers hold and note after it. -/
def step (s : ArenaCaller κ σ) : ArenaCall κ → ArenaCaller κ σ
  | .alloc handle parent sink origin =>
    let (t, arena) := ops.alloc s.arena handle parent sink origin
    { s with arena, book := s.book.create t handle parent sink origin }
  | .setLocation t l =>
    { s with arena := ops.setLocation s.arena t l, book := s.book.setLocation t l }
  | .link k t =>
    let (newest, arena) := ops.link s.arena (s.starts k) t
    { arena, starts := fun j => if k = j then newest else s.starts j, book := s.book.link k t }
  | .unlink k t =>
    let (newest, arena) := ops.unlink s.arena (s.starts k) t
    { arena, starts := fun j => if k = j then newest else s.starts j, book := s.book.unlink k t }
  | .release t => { s with arena := (ops.release s.arena t).2, book := s.book.release t }

/-- Some calls, one after the other. -/
def run (s : ArenaCaller κ σ) (calls : List (ArenaCall κ)) : ArenaCaller κ σ :=
  calls.foldl ops.step s

/-- Every call is permitted when it is made. -/
def Disciplined : ArenaCaller κ σ → List (ArenaCall κ) → Prop
  | _, [] => True
  | s, c :: rest => s.book.Permits c ∧ Disciplined (ops.step s c) rest

instance decidableDisciplined [Fintype κ] :
    (s : ArenaCaller κ σ) → (calls : List (ArenaCall κ)) → Decidable (ops.Disciplined s calls)
  | _, [] => inferInstanceAs (Decidable True)
  | s, c :: rest =>
    have := decidableDisciplined (ops.step s c) rest
    inferInstanceAs (Decidable (s.book.Permits c ∧ ops.Disciplined (ops.step s c) rest))

/-- The arena answers what the book says. -/
structure Tells (s : ArenaCaller κ σ) : Prop where
  /-- No reference was handed out twice. -/
  nodup_issued : s.book.issued.Nodup
  refs_issued : s.book.refs.Sublist s.book.issued
  get?_eq : ∀ t, ops.get? s.arena t = s.book.tuple? t
  contains_eq : ∀ t, ops.contains s.arena t = (s.book.tuple? t).isSome
  children_eq : ∀ t, ops.children s.arena t = s.book.children t
  thread_eq : ∀ k, ops.thread s.arena (s.starts k) = s.book.lists k
  handles : ∀ t u, s.book.tuple? t = some u →
    s.book.Chain t (ops.handles s.arena t) ∧ (ops.handles s.arena t).length = u.size
  size_eq : ops.size s.arena = s.book.live.length
  release_eq : ∀ t, (ops.release s.arena t).1 = s.book.tuple? t
  /-- Nothing is found under a reference of no live tuple, and its release changes nothing. -/
  gone : ∀ t, t ∉ s.book.refs →
    ops.get? s.arena t = none ∧ ops.contains s.arena t = false ∧ ops.children s.arena t = [] ∧
      ops.handles s.arena t = [] ∧ ops.release s.arena t = (none, s.arena)

/-- After the calls the arena answers what the book says, and a tuple that was released is not among
the live ones. -/
structure Behaves (calls : List (ArenaCall κ)) : Prop where
  tells : ops.Tells (ops.run ops.start calls)
  released : ∀ before t after, calls = before ++ .release t :: after →
    t ∈ (ops.run ops.start before).book.refs →
    t ∈ (ops.run ops.start calls).book.issued ∧ t ∉ (ops.run ops.start calls).book.refs

/-- The calls to an arena show what they make of an arena with threads, if the generations of its
slots stay below the bound, and its answers are those of the other. -/
structure Simulates (ops : ArenaOps σ) (R : σ → LinkedArena κ → Prop) (bound : Nat) : Prop where
  empty : R ops.empty .empty
  index_alloc : ∀ {a m}, R a m → ∀ handle parent sink origin,
    (ops.alloc a handle parent sink origin).1.index = m.arena.next.index
  alloc : ∀ {a m lists}, R a m → m.Fits lists → m.arena.next.generation < bound →
    ∀ handle parent sink origin, (∀ p, parent = some p → ∃ u, m.arena.get? p = some u) →
      (ops.alloc a handle parent sink origin).1 = m.arena.next ∧
        R (ops.alloc a handle parent sink origin).2 (m.alloc handle parent sink origin)
  setLocation : ∀ {a m}, R a m → ∀ t l, R (ops.setLocation a t l) (m.setLocation t l)
  link : ∀ {a m lists}, R a m → m.Fits lists → ∀ k t, m.arena.contains t = true →
    (ops.link a (m.fellows.newest.get? k) t).1 = (m.link k t).fellows.newest.get? k ∧
      R (ops.link a (m.fellows.newest.get? k) t).2 (m.link k t)
  unlink : ∀ {a m lists}, R a m → m.Fits lists → ∀ k t, t ∈ lists k →
    (ops.unlink a (m.fellows.newest.get? k) t).1 = (m.unlink k t).fellows.newest.get? k ∧
      R (ops.unlink a (m.fellows.newest.get? k) t).2 (m.unlink k t)
  release : ∀ {a m lists}, R a m → m.Fits lists → ∀ t,
    (ops.release a t).1 = m.arena.get? t ∧ R (ops.release a t).2 (m.release t)
  release_dead : ∀ {a m}, R a m → ∀ t, m.arena.get? t = none → (ops.release a t).2 = a
  get?_eq : ∀ {a m}, R a m → ∀ t, ops.get? a t = m.arena.get? t
  contains_eq : ∀ {a m}, R a m → ∀ t, ops.contains a t = m.arena.contains t
  children_eq : ∀ {a m lists}, R a m → m.Fits lists → ∀ t, ops.children a t = m.arena.children t
  thread_eq : ∀ {a m lists}, R a m → m.Fits lists →
    ∀ k, ops.thread a (m.fellows.newest.get? k) = lists k
  handles_eq : ∀ {a m lists}, R a m → m.Fits lists → ∀ t, ops.handles a t = m.arena.handles t
  size_eq : ∀ {a m}, R a m → ops.size a = m.arena.size

end ArenaOps

namespace TupleBook

variable {κ : Type} [DecidableEq κ]

/-- The book lists what is in the arena. -/
structure Describes (b : TupleBook κ) (m : LinkedArena κ) : Prop where
  fits : m.Fits b.lists
  issued : m.arena.Issued b.issued
  live_eq : b.live = m.arena.live
  refs_issued : b.refs.Sublist b.issued

theorem describes_empty : (empty : TupleBook κ).Describes .empty :=
  ⟨LinkedArena.fits_empty, SlotMap.issued_empty, rfl, List.Sublist.slnil⟩

namespace Describes

variable {b : TupleBook κ} {m : LinkedArena κ} (h : b.Describes m)

include h

theorem tuple?_eq (t : TupleId) : b.tuple? t = m.arena.get? t := by rw [tuple?, h.live_eq]; rfl

theorem refs_eq : b.refs = m.arena.refs := by rw [refs, h.live_eq]; rfl

theorem mem_refs_iff {t : TupleId} : t ∈ b.refs ↔ ∃ u, m.arena.get? t = some u := by
  rw [h.refs_eq, SlotMap.mem_refs_iff h.fits.valid]

theorem mem_live_iff {t : TupleId} {u : Tuple} : (t, u) ∈ b.live ↔ m.arena.get? t = some u := by
  rw [h.live_eq, SlotMap.get?_eq_some_iff h.fits.valid]

/-! ## Calls -/

theorem create {handle : Handle} {parent : Option TupleId} {sink : NodeId} {origin : Option NodeId}
    (hp : ∀ p ∈ parent, p ∈ b.refs) :
    (b.create m.arena.next handle parent sink origin).Describes
      (m.alloc handle parent sink origin) := by
  have hsize : b.childSize parent = m.arena.childSize parent :=
    congrArg (fun lookup : TupleId → Option Tuple =>
      match parent.bind lookup with
      | some p => p.size + 1
      | none => 1) (funext h.tuple?_eq)
  refine ⟨h.fits.alloc fun p hparent => h.mem_refs_iff.mp (hp p hparent), h.issued.add _, ?_, ?_⟩
  · rw [TupleBook.create, hsize, h.live_eq]
    rfl
  · rw [refs_create]
    exact h.refs_issued.append (List.Sublist.refl _)

theorem setLocation (t : TupleId) (l : Location) :
    (b.setLocation t l).Describes (m.setLocation t l) := by
  refine ⟨h.fits.setLocation t l, h.issued.modify t fun u => { u with location := some l }, ?_, ?_⟩
  · rw [TupleBook.setLocation, h.live_eq]
    rfl
  · rw [refs_setLocation]
    exact h.refs_issued

theorem link {k : κ} {t : TupleId} (ht : t ∈ b.refs) (hnew : ∀ j, t ∉ b.lists j) :
    (b.link k t).Describes (m.link k t) :=
  ⟨h.fits.link ((SlotMap.contains_iff _ _).mpr (h.mem_refs_iff.mp ht)) hnew k, h.issued, h.live_eq,
    h.refs_issued⟩

theorem unlink {k : κ} {t : TupleId} (ht : t ∈ b.lists k) :
    (b.unlink k t).Describes (m.unlink k t) :=
  ⟨h.fits.unlink ht, h.issued, h.live_eq, h.refs_issued⟩

theorem release {t : TupleId} (hfree : ∀ j, t ∉ b.lists j)
    (hleaf : ∀ e ∈ b.live, e.2.parent ≠ some t) : (b.release t).Describes (m.release t) := by
  have hleaf' : ∀ y u, m.arena.get? y = some u → u.parent ≠ some t := fun y u hu =>
    hleaf (y, u) (h.mem_live_iff.mpr hu)
  refine ⟨h.fits.release hfree hleaf', ?_, ?_, ?_⟩
  · rw [LinkedArena.arena_release]
    exact h.issued.remove t
  · rw [LinkedArena.arena_release, SlotMap.live_remove, TupleBook.release, h.live_eq]
  · rw [refs_release]
    exact List.filter_sublist.trans h.refs_issued

/-! ## What an arena answers -/

theorem children_eq (t : TupleId) : m.arena.children t = b.children t := by
  rw [Arena.children_eq h.fits.siblings.arena, Arena.refsWhere, ← h.live_eq]
  rfl

/-- **Going up from a tuple one meets the chain of its facts.** -/
theorem chain {t : TupleId} {u : Tuple} (ht : m.arena.get? t = some u) :
    b.Chain t (m.arena.handles t) := by
  have harena := h.fits.siblings.arena
  refine Arena.ancestor_induction harena (C := fun t => b.Chain t (m.arena.handles t))
    (fun x v hx ih => ?_) ht
  cases hp : v.parent with
  | none =>
      rw [Arena.handles_root harena hx hp]
      exact .root (h.mem_live_iff.mpr hx) hp
  | some p =>
      rw [Arena.handles_child harena hx hp]
      exact .extend (h.mem_live_iff.mpr hx) hp (ih p hp)

end Describes

end TupleBook

/-! ## Runs -/

namespace ArenaOps

variable {κ σ : Type} [DecidableEq κ] {ops : ArenaOps σ} {R : σ → LinkedArena κ → Prop}
    {bound : Nat}

/-- The arena shows one with threads that start where the callers say, and their book
describes it. -/
structure Follows (R : σ → LinkedArena κ → Prop) (s : ArenaCaller κ σ) (m : LinkedArena κ) :
    Prop where
  shows : R s.arena m
  starts : s.starts = m.fellows.newest.get?
  book : s.book.Describes m

/-- A call makes no tuple live but one that it creates. -/
theorem issued_step (ops : ArenaOps σ) (s : ArenaCaller κ σ) (c : ArenaCall κ) :
    ∃ fresh, (ops.step s c).book.issued = s.book.issued ++ fresh ∧
      ∀ t ∈ (ops.step s c).book.refs, t ∈ s.book.refs ∨ t ∈ fresh := by
  cases c with
  | alloc handle parent sink origin =>
      refine ⟨[(ops.alloc s.arena handle parent sink origin).1], rfl, fun t ht => ?_⟩
      exact List.mem_append.mp (TupleBook.refs_create s.book _ handle parent sink origin ▸ ht)
  | setLocation t l =>
      exact ⟨[], (List.append_nil _).symm,
        fun x hx => Or.inl (TupleBook.refs_setLocation s.book t l ▸ hx)⟩
  | link k t => exact ⟨[], (List.append_nil _).symm, fun x hx => Or.inl hx⟩
  | unlink k t => exact ⟨[], (List.append_nil _).symm, fun x hx => Or.inl hx⟩
  | release t =>
      refine ⟨[], (List.append_nil _).symm, fun x hx => Or.inl ?_⟩
      have hmem : x ∈ (s.book.release t).refs := hx
      rw [TupleBook.refs_release] at hmem
      exact (List.mem_filter.mp hmem).1

theorem issued_run (ops : ArenaOps σ) (s : ArenaCaller κ σ) (calls : List (ArenaCall κ)) :
    ∃ fresh, (ops.run s calls).book.issued = s.book.issued ++ fresh ∧
      ∀ t ∈ (ops.run s calls).book.refs, t ∈ s.book.refs ∨ t ∈ fresh := by
  induction calls generalizing s with
  | nil => exact ⟨[], (List.append_nil _).symm, fun t ht => Or.inl ht⟩
  | cons c rest ih =>
      obtain ⟨fresh, hissued, hrefs⟩ := issued_step ops s c
      obtain ⟨fresh', hissued', hrefs'⟩ := ih (ops.step s c)
      refine ⟨fresh ++ fresh', ?_, fun t ht => ?_⟩
      · rw [← List.append_assoc, ← hissued]
        exact hissued'
      · rcases hrefs' t ht with ht | ht
        · exact (hrefs t ht).imp_right (List.mem_append_left _)
        · exact Or.inr (List.mem_append_right _ ht)

namespace Simulates

variable (hsim : ops.Simulates R bound) {s : ArenaCaller κ σ} {m : LinkedArena κ}

include hsim

/-- **One call**, if no slot has been used more often than the bound after it. -/
theorem step (h : Follows R s m) {c : ArenaCall κ} (hc : s.book.Permits c)
    (huses : ∀ i, (ops.step s c).book.issued.countP (fun t => t.index = i) ≤ bound) :
    ∃ m', Follows R (ops.step s c) m' := by
  obtain ⟨arena, starts, book⟩ := s
  obtain ⟨hshows, rfl, hbook⟩ := h
  have hfits := hbook.fits
  cases c with
  | alloc handle parent sink origin =>
      let u : Tuple := ⟨handle, parent, m.arena.childSize parent, sink, origin, none⟩
      have hindex := hsim.index_alloc hshows handle parent sink origin
      -- A slot has been handed out once for each generation up to its present one.
      have hlt : m.arena.next.generation < bound := by
        refine (hbook.issued.add u).generation_lt_of_mem (fun i => ?_)
          (List.mem_append_right _ List.mem_cons_self)
        calc (book.issued ++ [m.arena.next]).countP (fun t => t.index = i)
            = (book.issued ++ [(ops.alloc arena handle parent sink origin).1]).countP
              (fun t => t.index = i) := by
              simp [List.countP_append, List.countP_singleton, hindex]
          _ ≤ bound := huses i
      obtain ⟨hanswer, hshows'⟩ := hsim.alloc hshows hfits hlt handle parent sink origin fun p hp =>
        hbook.mem_refs_iff.mp (hc p hp)
      refine ⟨_, hshows', rfl, ?_⟩
      show (book.create (ops.alloc arena handle parent sink origin).1 handle parent sink
        origin).Describes _
      rw [hanswer]
      exact hbook.create hc
  | setLocation t l => exact ⟨_, hsim.setLocation hshows t l, rfl, hbook.setLocation t l⟩
  | link k t =>
      have hlive := (SlotMap.contains_iff _ _).mpr (hbook.mem_refs_iff.mp hc.1)
      obtain ⟨hstart, hshows'⟩ := hsim.link hshows hfits k t hlive
      -- The thread of the call starts where the arena says; the other threads start where they did.
      refine ⟨_, hshows', funext fun j => ?_, hbook.link hc.1 hc.2⟩
      by_cases hj : k = j
      · subst hj
        exact (if_pos rfl).trans hstart
      · exact (if_neg hj).trans ((m.newest_link _ t _).trans (if_neg hj)).symm
  | unlink k t =>
      obtain ⟨hstart, hshows'⟩ := hsim.unlink hshows hfits k t hc
      refine ⟨_, hshows', funext fun j => ?_, hbook.unlink hc⟩
      by_cases hj : k = j
      · subst hj
        exact (if_pos rfl).trans hstart
      · exact (if_neg hj).trans ((m.newest_unlink _ t _).trans (if_neg hj)).symm
  | release t =>
      refine ⟨_, (hsim.release hshows hfits t).2, ?_, hbook.release hc.1 hc.2⟩
      rw [m.newest_release t]
      rfl

/-- **A run of permitted calls.** -/
theorem run (h : Follows R s m) {calls : List (ArenaCall κ)} (hd : ops.Disciplined s calls)
    (huses : ∀ i, (ops.run s calls).book.issued.countP (fun t => t.index = i) ≤ bound) :
    ∃ m', Follows R (ops.run s calls) m' := by
  induction calls generalizing s m with
  | nil => exact ⟨m, h⟩
  | cons c rest ih =>
      -- What was handed out up to the first call is among what the whole run hands out.
      obtain ⟨fresh, hissued, -⟩ := issued_run ops (ops.step s c) rest
      obtain ⟨m₁, h₁⟩ := hsim.step h hd.1 fun i =>
        calc (ops.step s c).book.issued.countP (fun t => t.index = i)
            ≤ ((ops.step s c).book.issued ++ fresh).countP (fun t => t.index = i) :=
              (List.sublist_append_left _ _).countP_le
          _ = (ops.run s (c :: rest)).book.issued.countP (fun t => t.index =
            i) := by rw [← hissued]; rfl
          _ ≤ bound := huses i
      exact ih h₁ hd.2 huses

theorem tells (h : Follows R s m) : ops.Tells s := by
  have hfits := h.book.fits
  have hlive : ∀ t, ops.get? s.arena t = s.book.tuple? t := fun t =>
    (hsim.get?_eq h.shows t).trans (h.book.tuple?_eq t).symm
  exact {
    nodup_issued := h.book.issued.nodup
    refs_issued := h.book.refs_issued
    get?_eq := hlive
    contains_eq := fun t => by
      rw [hsim.contains_eq h.shows, h.book.tuple?_eq]
      rfl
    children_eq := fun t => by rw [hsim.children_eq h.shows hfits, h.book.children_eq]
    thread_eq := fun k => by rw [h.starts, hsim.thread_eq h.shows hfits]
    handles := fun t u ht => by
      rw [h.book.tuple?_eq] at ht
      rw [hsim.handles_eq h.shows hfits]
      exact ⟨h.book.chain ht, (hfits.siblings.sized t u ht).symm⟩
    size_eq := by
      rw [hsim.size_eq h.shows, h.book.live_eq]
      rfl
    release_eq := fun t => by rw [(hsim.release h.shows hfits t).1, h.book.tuple?_eq]
    gone := fun t ht => by
      have hdead : m.arena.get? t = none := by
        rw [h.book.refs_eq] at ht
        exact SlotMap.get?_eq_none_iff.mpr ht
      refine ⟨?_, ?_, ?_, ?_, Prod.ext ?_ (hsim.release_dead h.shows t hdead)⟩
      · rw [hsim.get?_eq h.shows, hdead]
      · rw [hsim.contains_eq h.shows, SlotMap.contains, hdead]
        rfl
      · rw [hsim.children_eq h.shows hfits, Arena.children_dead hdead]
      · rw [hsim.handles_eq h.shows hfits, Arena.handles_dead hdead]
      · rw [(hsim.release h.shows hfits t).1, hdead] }

/-- **After permitted calls the arena answers what the book says.** -/
theorem behaves {calls : List (ArenaCall κ)} (hd : ops.Disciplined ops.start calls)
    (huses : ∀ i, (ops.run ops.start calls).book.issued.countP (fun t => t.index = i) ≤ bound) :
    ops.Behaves calls ∧ ∃ m, Follows R (ops.run ops.start calls) m := by
  have hstart : Follows R ops.start .empty := ⟨hsim.empty, rfl, TupleBook.describes_empty⟩
  obtain ⟨m, hm⟩ := hsim.run hstart hd huses
  refine ⟨⟨hsim.tells hm, fun before t after heq ht => ?_⟩, m, hm⟩
  obtain ⟨created, hcreated, hrefs⟩ := issued_run ops ops.start before
  obtain ⟨fresh, hfresh, hrefs'⟩ :=
    issued_run ops (ops.step (ops.run ops.start before) (.release t)) after
  have hrun :
      ops.run ops.start calls =
      ops.run (ops.step (ops.run ops.start before) (.release t)) after := by
    rw [heq, ArenaOps.run, List.foldl_append]
    rfl
  have hissued :
      (ops.run ops.start calls).book.issued = (ops.run ops.start before).book.issued ++ fresh :=
    (congrArg (fun s => s.book.issued) hrun).trans hfresh
  have hmem : t ∈ (ops.run ops.start before).book.issued := by
    rw [hcreated]
    exact List.mem_append_right _ ((hrefs t ht).resolve_left List.not_mem_nil)
  refine ⟨hissued ▸ List.mem_append_left _ hmem, fun hlive => ?_⟩
  rw [hrun] at hlive
  rcases hrefs' t hlive with hlive | hlive
  · have hgone : t ∈ ((ops.run ops.start before).book.release t).refs := hlive
    rw [TupleBook.refs_release] at hgone
    simp at hgone
  · -- It would have been handed out twice.
    have hnodup := hm.book.issued.nodup
    rw [hissued] at hnodup
    exact (List.nodup_append.mp hnodup).2.2 t hmem t hlive rfl

end Simulates

end ArenaOps

end RuleMatching
