import RuleMatching.Error
import RuleMatching.Memory.Basic

set_option autoImplicit false

/-! # Partial matches

A `Tuple` is a match of the first patterns of a rule, stored as its last fact and its parent, the
match of the patterns before. The arena holds all live tuples, from which it finds the extensions of
a match (`Arena.children`) and its facts (`Arena.handles`). -/

namespace RuleMatching

/-- The reference of a tuple. -/
abbrev TupleId := SlotRef

/-- The written form of the reference of a tuple. -/
def TupleId.display (t : TupleId) : String :=
  "t" ++ toString t.index ++ "v" ++ toString t.generation

/-- A match of the first patterns of a rule. -/
structure Tuple where
  /-- The fact of its last pattern. -/
  handle : Handle
  /-- The match of the patterns before; none for a match of one pattern. -/
  parent : Option TupleId
  /-- The number of patterns matched. -/
  size : Nat
  /-- The node that stores the tuple. -/
  sink : NodeId
  /-- The join that made the tuple. -/
  origin : Option NodeId
  /-- Where the sink stores the tuple. -/
  location : Option Location
deriving DecidableEq, Repr

/-- The live tuples, in the order of their creation. -/
abbrev Arena := SlotMap Tuple

namespace Arena

/-- The size of an extension of the given tuple; of a tuple without live parent it is one. -/
def childSize (a : Arena) (parent : Option TupleId) : Nat :=
  match parent.bind a.get? with
  | some t => t.size + 1
  | none => 1

/-- Creates a tuple; it gets the reference `a.next`. -/
def alloc (a : Arena) (handle : Handle) (parent : Option TupleId) (sink : NodeId)
    (origin : Option NodeId) : Arena :=
  a.add ⟨handle, parent, a.childSize parent, sink, origin, none⟩

/-- Notes where the sink stores the tuple. -/
def setLocation (a : Arena) (t : TupleId) (l : Location) : Arena :=
  a.modify t fun tuple => { tuple with location := some l }

/-- The tuples that extend the given live tuple by one pattern, the newest first. -/
def children (a : Arena) (t : TupleId) : List TupleId :=
  if a.contains t then ((a.live.filter fun e => e.2.parent = some t).map Prod.fst).reverse else []

/-- The facts of a tuple from the last to the first, found by going through the tuples from the
newest to the oldest: a parent is older than its children. -/
def ancestry : List (TupleId × Tuple) → TupleId → List Handle
  | [], _ => []
  | (r, tuple) :: older, t =>
    if r = t then
      tuple.handle :: (match tuple.parent with
        | some p => ancestry older p
        | none => [])
    else ancestry older t

/-- The facts of a tuple in the order of the patterns. -/
def handles (a : Arena) (t : TupleId) : List Handle := (ancestry a.live.reverse t).reverse

end Arena

end RuleMatching
