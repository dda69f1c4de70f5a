import RuleMatching.Value.Basic

set_option autoImplicit false

/-! # Comparison operators

Comparisons are null-safe: null equals null, differs from everything else, and satisfies no ordering
operator. -/

namespace RuleMatching

inductive Operator where
  | equal
  | notEqual
  | greater
  | greaterOrEqual
  | less
  | lessOrEqual
deriving DecidableEq, Repr

namespace Operator

def all : List Operator := [.equal, .notEqual, .greater, .greaterOrEqual, .less, .lessOrEqual]

def symbol : Operator → String
  | .equal => "=="
  | .notEqual => "!="
  | .greater => ">"
  | .greaterOrEqual => ">="
  | .less => "<"
  | .lessOrEqual => "<="

/-- The operator in words, an alternative spelling in documents. -/
def word : Operator → String
  | .equal => "equal"
  | .notEqual => "not_equal"
  | .greater => "greater"
  | .greaterOrEqual => "greater_or_equal"
  | .less => "less"
  | .lessOrEqual => "less_or_equal"

def ofSymbol? (text : String) : Option Operator := all.find? (·.symbol == text)

/-- The operator that a document names by its symbol or in words. -/
def ofName? (text : String) : Option Operator :=
  all.find? fun op => op.symbol == text || op.word == text

/-- Whether the operator asks for an order rather than for equality. -/
def isOrdering : Operator → Bool
  | .equal | .notEqual => false
  | _ => true

/-- Whether the operator holds between the two values. -/
def holds (op : Operator) (a b : Value) : Bool :=
  match op with
  | .equal => a.nullSafeEq b
  | .notEqual => !a.nullSafeEq b
  | .greater => a.compare? b == some .gt
  | .greaterOrEqual => a.compare? b == some .gt || a.compare? b == some .eq
  | .less => a.compare? b == some .lt
  | .lessOrEqual => a.compare? b == some .lt || a.compare? b == some .eq

end Operator

end RuleMatching
