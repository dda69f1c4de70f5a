import RuleMatching.Arena.Thread

set_option autoImplicit false

/-! # Threads by key

`Threads` keep many threads of tuples of one arena, each known by a key that says at which tuple it
starts. A tuple is in one of them at most. The extensions of every tuple are strung together this
way, under the tuple itself, and so are the matches that a join has made with a fact, under the node
and the fact (`Links`). -/

namespace RuleMatching

/-- Threads of tuples, with the newest tuple of each. -/
structure Threads (κ : Type) where
  neighbours : FiniteMap TupleId Neighbours
  newest : FiniteMap κ TupleId

namespace Threads

variable {κ : Type} [DecidableEq κ]

def empty : Threads κ := ⟨.empty, .empty⟩

/-- The arena with the neighbours of its tuples. -/
def beside (s : Threads κ) (a : Arena) : ThreadedArena := ⟨a, s.neighbours⟩

/-- Lets the thread of a key start at another tuple. -/
def restart (s : Threads κ) (k : κ) (newest : Option TupleId) : Threads κ :=
  { s with
    newest := match newest with
      | some t => s.newest.insert k t
      | none => s.newest.erase k }

/-- Puts a tuple in front of the thread of a key; without a key it is in no thread. -/
def link (s : Threads κ) (a : Arena) (k : Option κ) (t : TupleId) : Threads κ :=
  match k with
  | some k =>
    { s with neighbours := ((s.beside a).link (s.newest.get? k) t).neighbours }.restart k (some t)
  | none => { s with neighbours := ((s.beside a).link none t).neighbours }

/-- Takes a tuple out of the thread of a key. -/
def unlink (s : Threads κ) (a : Arena) (k : Option κ) (t : TupleId) : Threads κ :=
  let unlinked := { s with neighbours := ((s.beside a).unlink t).neighbours }
  match k with
  | some k => unlinked.restart k ((s.beside a).newestWithout (s.newest.get? k) t)
  | none => unlinked

/-- Forgets the neighbours of a tuple that goes. -/
def forget (s : Threads κ) (t : TupleId) : Threads κ :=
  { s with neighbours := s.neighbours.erase t }

/-- The tuples of the thread of a key, the newest first. -/
def thread (s : Threads κ) (a : Arena) (k : κ) : List TupleId :=
  (s.beside a).thread (s.newest.get? k)

end Threads

/-- How the tuples of an arena are strung together: the extensions of each tuple, and the matches
that each join has made with each of its facts. -/
structure Links where
  siblings : Threads TupleId
  fellows : Threads (NodeId × Handle)

namespace Links

def empty : Links := ⟨.empty, .empty⟩

end Links

end RuleMatching
