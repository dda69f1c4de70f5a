import RuleMatching.Accessor
import RuleMatching.Rule.Basic

set_option autoImplicit false

/-! # Tests of a single fact

A `FieldTest` is a clause on one fact with its field resolved. Two tests against literals that are
equal as keys have the same `FieldTest.signature?` and can be evaluated as one. -/

namespace RuleMatching

/-- A resolved clause on the fact of one pattern. -/
inductive FieldTest where
  | literal (accessor : Accessor) (operator : Operator) (value : Value)
  | named (accessor : Accessor) (test : ValueTest)

/-- What tests have in common that may share a node: the field, the operator and the key of the
literal. -/
structure TestSignature where
  accessor : Accessor
  operator : Operator
  value : Key
deriving DecidableEq, Repr

namespace FieldTest

def accessor : FieldTest → Accessor
  | literal accessor .. | named accessor _ => accessor

/-- Whether the fact passes the test. -/
def isAllowed (t : FieldTest) (f : Fact) : Except ReadError Bool := do
  let v ← t.accessor.read f
  return match t with
    | literal _ operator value => operator.holds v value
    | named _ test => test.holds v

/-- The signature of a comparison with a literal; named tests have none. -/
def signature? : FieldTest → Option TestSignature
  | literal accessor operator value => some ⟨accessor, operator, value.key⟩
  | named .. => none

def display : FieldTest → String
  | literal accessor operator value =>
    accessor.field ++ " " ++ operator.symbol ++ " " ++ value.display
  | named accessor test => test.name ++ "(" ++ accessor.field ++ ")"

end FieldTest

end RuleMatching
