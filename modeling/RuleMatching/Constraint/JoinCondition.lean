import RuleMatching.Constraint.JoinTest
import RuleMatching.Memory.IndexKey

set_option autoImplicit false

/-! # Conditions of a join

A `JoinCondition` is the list of tests of one pattern against the facts bound before it. A leading
run of equalities, at most `depth` of them, is decided by an index: the facts bound so far and a
candidate have a key each, and a pair passes these tests iff the keys are equal. The tests after the
run filter the pairs that the index yields. -/

namespace RuleMatching

/-- The tests of a join, the first `keyCount` of which the index decides. -/
structure JoinCondition where
  tests : List JoinTest
  keyCount : Nat

namespace JoinCondition

/-- The condition with as many tests in the index as its depth allows. -/
def ofTests (tests : List JoinTest) (depth : Nat) : JoinCondition :=
  ⟨tests, ((tests.takeWhile JoinTest.isIndexable).take depth).length⟩

/-- The condition without tests. -/
def empty : JoinCondition := ofTests [] 0

/-- The tests that the index decides. -/
def keyed (c : JoinCondition) : List JoinTest := c.tests.take c.keyCount

/-- The tests that remain for the pairs from the index. -/
def filters (c : JoinCondition) : List JoinTest := c.tests.drop c.keyCount

def isIndexed (c : JoinCondition) : Bool := c.keyCount != 0

/-- The key of the facts bound so far; none without an index. -/
def leftKey (c : JoinCondition) (bound : List Fact) : Except ReadError (Option IndexKey) :=
  if c.isIndexed then do
    let atoms ← c.keyed.mapM fun t => do return (← t.declaration.read bound).key
    return some atoms
  else return none

/-- The key of a candidate; none without an index. -/
def rightKey (c : JoinCondition) (candidate : Fact) : Except ReadError (Option IndexKey) :=
  if c.isIndexed then do
    let atoms ← c.keyed.mapM fun t => do return (← t.accessor.read candidate).key
    return some atoms
  else return none

/-- Whether the pair passes the tests; they are tried in order, up to the first that
does not hold. -/
def allAllowed (bound : List Fact) (candidate : Fact) : List JoinTest → Except ReadError Bool
  | [] => .ok true
  | t :: rest => do
    if ← t.isAllowed bound candidate then allAllowed bound candidate rest else return false

/-- Whether a pair of equal keys passes the remaining tests. -/
def isAllowed (c : JoinCondition) (bound : List Fact) (candidate : Fact) : Except ReadError Bool :=
  allAllowed bound candidate c.filters

/-- The tests in order, with a mark before those that the index decides. -/
def display (c : JoinCondition) : String :=
  "[" ++ ", ".intercalate (c.keyed.map ("#" ++ ·.display) ++ c.filters.map JoinTest.display) ++ "]"

end JoinCondition

end RuleMatching
