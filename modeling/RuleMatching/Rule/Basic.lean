import RuleMatching.Operator

set_option autoImplicit false

/-! # Rules

A rule is a list of patterns. Each pattern asks for a fact of one type; its clauses test the fact
alone or compare it with a fact that an earlier pattern has bound to a name. Besides the operators a
clause may use a named test of its own. -/

namespace RuleMatching

/-- A named test of one value. -/
structure ValueTest where
  name : String
  holds : Value → Bool

/-- A named test of the value of a candidate fact against the value of a bound one. -/
structure ValueRelation where
  name : String
  holds : Value → Value → Bool

/-- A condition on the fact of a pattern. -/
inductive Clause where
  /-- The field compares with a literal. -/
  | literal (field : String) (operator : Operator) (value : Value)
  /-- The field compares with a field of the fact bound to `declaration`. -/
  | join (field : String) (operator : Operator) (declaration declarationField : String)
  /-- The field passes a named test. -/
  | valueTest (field : String) (test : ValueTest)
  /-- The field and one of the fact bound to `declaration` are related. -/
  | relation (field declaration declarationField : String) (relation : ValueRelation)

/-- The field of the pattern's own fact that the clause reads. -/
def Clause.field : Clause → String
  | literal field .. | join field .. | valueTest field _ | relation field .. => field

/-- What one fact of a match has to satisfy, and the name that it is bound to. -/
structure Pattern where
  factType : String
  binding : Option String
  clauses : List Clause

/-- A named conjunction of patterns. -/
structure Rule where
  name : String
  patterns : List Pattern

end RuleMatching
