import RuleMatching.Binary64.Rounding
import RuleMatching.Constraint.FieldTest
import RuleMatching.FiniteMap
import RuleMatching.Json.Basic

set_option autoImplicit false

/-! # Sharing of test nodes

A `SharingIndex` knows which node below a given parent evaluates the test of a given signature, and
counts how many nodes were created and how often one could be used again. -/

namespace RuleMatching

/-- How many test nodes were created and how many more would have been without sharing. -/
structure SharingCounts where
  created : Nat
  shared : Nat
deriving DecidableEq, Repr

namespace SharingCounts

/-- The part of all tests that use a node again. -/
def ratio (c : SharingCounts) : Binary64 :=
  if c.created + c.shared = 0 then ⟨0⟩ else Binary64.ofRatio c.shared (c.created + c.shared)

/-- The ratio in percent with one decimal place; a half goes to the even neighbour. -/
def percentText (c : SharingCounts) : String :=
  let percent := c.ratio.mul (Binary64.ofNat 100)
  let tenths := roundHalfEven (percent.magnitude * 10) Binary64.unitsPerOne
  toString (tenths / 10) ++ "." ++ toString (tenths % 10)

def toJson (c : SharingCounts) : Json :=
  .object [("alpha_nodes_created", .nat c.created), ("alpha_shares_found", .nat c.shared)]

end SharingCounts

/-- The nodes that can be shared, by their parent and the signature of their test. -/
structure SharingIndex where
  nodes : FiniteMap (NodeId × TestSignature) NodeId
  counts : SharingCounts

namespace SharingIndex

def empty : SharingIndex := ⟨.empty, ⟨0, 0⟩⟩

/-- The node below `parent` for the signature, if there is one; a find is counted. -/
def find (s : SharingIndex) (parent : NodeId) (signature : TestSignature) :
    Option NodeId × SharingIndex :=
  match s.nodes.get? (parent, signature) with
  | some n => (some n, { s with counts := { s.counts with shared := s.counts.shared + 1 } })
  | none => (none, s)

/-- Counts a node that is not to be shared. -/
def recordUnshared (s : SharingIndex) : SharingIndex :=
  { s with counts := { s.counts with created := s.counts.created + 1 } }

/-- Files a new node below `parent` under the signature of its test. -/
def register (s : SharingIndex) (parent : NodeId) (signature : TestSignature) (node : NodeId) :
    SharingIndex :=
  recordUnshared { s with nodes := s.nodes.insert (parent, signature) node }

end SharingIndex

end RuleMatching
