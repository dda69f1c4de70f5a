import RuleMatching.Error
import RuleMatching.FiniteMap

set_option autoImplicit false

/-! # The facts of a session

A `FactStore` holds the live facts by handle. A handle is accepted only if it is greater than every
handle accepted before, so that no handle ever names two facts, and the order of insertion is the
order of handles. That there is a greater handle after every handle is an assumption: handles are
numbers without bound here, and a caller who may choose handles in a machine word can use up the
last one with one call. -/

namespace RuleMatching

structure FactStore where
  facts : FiniteMap Handle Fact
  /-- The greatest handle accepted so far; zero before the first. -/
  lastIssued : Handle

namespace FactStore

def empty : FactStore := ⟨.empty, 0⟩

def size (s : FactStore) : Nat := s.facts.size

def isEmpty (s : FactStore) : Bool := s.facts.isEmpty

def get? (s : FactStore) (h : Handle) : Option Fact := s.facts.get? h

def contains (s : FactStore) (h : Handle) : Bool := s.facts.contains h

/-- The live handles, in increasing order. -/
def handles (s : FactStore) : List Handle := s.facts.keys.mergeSort

/-- The handle that a fact without one gets. -/
def nextHandle (s : FactStore) : Handle := s.lastIssued + 1

/-- Adds a fact under a new handle. -/
def insert (s : FactStore) (h : Handle) (f : Fact) : Except ConsistencyError FactStore :=
  if s.contains h then .error (.duplicateHandle h)
  else if h ≤ s.lastIssued then .error (.staleHandle h s.lastIssued)
  else .ok ⟨s.facts.insert h f, h⟩

/-- Puts a new version in place of a live fact and answers the old one. -/
def replace (s : FactStore) (h : Handle) (f : Fact) : Except ConsistencyError (Fact × FactStore) :=
  match s.get? h with
  | some old => .ok (old, { s with facts := s.facts.insert h f })
  | none => .error (.unknownHandle h)

/-- Removes a live fact and answers it. -/
def remove (s : FactStore) (h : Handle) : Except ConsistencyError (Fact × FactStore) :=
  match s.get? h with
  | some old => .ok (old, { s with facts := s.facts.erase h })
  | none => .error (.unknownHandle h)

end FactStore

end RuleMatching
