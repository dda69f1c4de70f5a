import RuleMatching.Arena
import RuleMatching.FiniteMap

set_option autoImplicit false

/-! # Threads of tuples

A thread strings tuples of one arena together, the newest first. It is known by its newest tuple;
every further one is found as the older neighbour of the one before, so that a tuple can leave a
thread (`ThreadedArena.unlink`) without going through it. A tuple has one pair of neighbours, those
of the thread that it was put into last. One that is no longer live has none, and a thread that runs
into it ends there. -/

namespace RuleMatching

/-- The tuples next to a tuple in its thread. -/
structure Neighbours where
  newer : Option TupleId := none
  older : Option TupleId := none
deriving DecidableEq, Repr, Inhabited

/-- An arena with the neighbours of its live tuples. -/
structure ThreadedArena where
  arena : Arena
  neighbours : FiniteMap TupleId Neighbours

namespace ThreadedArena

/-- The arena without tuples. -/
def empty : ThreadedArena := ⟨.empty, .empty⟩

instance : Inhabited ThreadedArena := ⟨empty⟩

/-- The neighbours of a tuple; a tuple outside all threads has none. -/
def neighboursOf (a : ThreadedArena) (t : TupleId) : Neighbours := (a.neighbours.get? t).getD {}

/-- Changes the neighbours of a live tuple; nothing changes if there is no such tuple. -/
def modifyNeighbours (a : ThreadedArena) (t : Option TupleId) (f : Neighbours → Neighbours) :
    ThreadedArena :=
  match t with
  | some t =>
    if a.arena.contains t then { a with neighbours := a.neighbours.insert t (f (a.neighboursOf t)) }
    else a
  | none => a

/-- Creates a tuple outside all threads; it gets the reference `a.arena.next`. -/
def alloc (a : ThreadedArena) (handle : Handle) (parent : Option TupleId) (sink : NodeId)
    (origin : Option NodeId) : ThreadedArena :=
  { a with arena := a.arena.alloc handle parent sink origin }

/-- Removes a tuple and what is known of its neighbours. -/
def remove (a : ThreadedArena) (t : TupleId) : ThreadedArena :=
  ⟨a.arena.remove t, a.neighbours.erase t⟩

/-- Puts a tuple in front of the thread that starts at `newest`; the thread then starts
at the tuple. -/
def link (a : ThreadedArena) (newest : Option TupleId) (t : TupleId) : ThreadedArena :=
  (a.modifyNeighbours (some t) fun _ => ⟨none, newest⟩).modifyNeighbours newest
    fun n => { n with newer := some t }

/-- Takes a live tuple out of its thread: its neighbours become neighbours of each other. -/
def unlink (a : ThreadedArena) (t : TupleId) : ThreadedArena :=
  if a.arena.contains t then
    let n := a.neighboursOf t
    ((a.modifyNeighbours (some t) fun _ => {}).modifyNeighbours n.newer
      fun m => { m with older := n.older }).modifyNeighbours n.older
        fun m => { m with newer := n.newer }
  else a

/-- The start of the thread that starts at `newest` after the tuple is taken out of its thread: it
moves to the older neighbour of the tuple if the thread starts at the tuple. -/
def newestWithout (a : ThreadedArena) (newest : Option TupleId) (t : TupleId) : Option TupleId :=
  if a.arena.contains t ∧ (a.neighboursOf t).newer = none ∧
    newest = some t then (a.neighboursOf t).older
  else newest

/-- The first tuples, at most the given number, of the thread that starts at `newest`. -/
def threadWithin (a : ThreadedArena) : Nat → Option TupleId → List TupleId
  | count + 1, some t => t :: a.threadWithin count (a.neighboursOf t).older
  | _, _ => []

/-- The tuples of the thread that starts at `newest`. All but the last are live, so there is one
more than live tuples at most. -/
def thread (a : ThreadedArena) (newest : Option TupleId) : List TupleId :=
  a.threadWithin (a.arena.size + 1) newest

end ThreadedArena

end RuleMatching
