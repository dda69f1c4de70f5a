import RuleMatching.Accessor
import RuleMatching.Rule.Basic

set_option autoImplicit false

/-! # Tests that join facts

A `JoinTest` compares a field of a candidate fact with a field of a fact that is already part of the
match. -/

namespace RuleMatching

/-- A resolved clause between a candidate fact and the facts bound before it. -/
inductive JoinTest where
  | compare (accessor : Accessor) (operator : Operator) (declaration : Declaration)
  | related (accessor : Accessor) (declaration : Declaration) (relation : ValueRelation)

namespace JoinTest

/-- The field of the candidate that the test reads. -/
def accessor : JoinTest → Accessor
  | compare accessor .. | related accessor .. => accessor

/-- The field of a bound fact that the test reads. -/
def declaration : JoinTest → Declaration
  | compare _ _ declaration | related _ declaration _ => declaration

/-- Whether equal keys decide the test. -/
def isIndexable : JoinTest → Bool
  | compare _ .equal _ => true
  | _ => false

/-- Whether the candidate joins the facts bound before it. The candidate is read first. -/
def isAllowed (t : JoinTest) (bound : List Fact) (candidate : Fact) : Except ReadError Bool := do
  let a ← t.accessor.read candidate
  let b ← t.declaration.read bound
  return match t with
    | compare _ operator _ => operator.holds a b
    | related _ _ relation => relation.holds a b

def display : JoinTest → String
  | compare accessor operator declaration =>
    accessor.field ++ " " ++ operator.symbol ++ " " ++ declaration.display
  | related accessor declaration relation =>
    relation.name ++ "(" ++ accessor.field ++ ", " ++ declaration.display ++ ")"

end JoinTest

end RuleMatching
