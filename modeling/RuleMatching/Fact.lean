import RuleMatching.NameMap
import RuleMatching.Value.Text

set_option autoImplicit false

/-! # Facts

A `Fact` is a typed record of field values. A field that it lacks reads as null;
`Fact.changedFields` lists the fields in which two versions differ under that reading. -/

namespace RuleMatching

/-- A number that identifies a fact within a session. Handles are issued in increasing order. -/
abbrev Handle := Nat

/-- The written form of a handle. -/
def Handle.display (h : Handle) : String := "#" ++ toString h

/-- Inserts a name before the first that is not smaller. -/
def insertName (name : String) : List String → List String
  | [] => [name]
  | n :: rest => if name ≤ n then name :: n :: rest else n :: insertName name rest

/-- The names in order. -/
def sortNames (names : List String) : List String := names.foldr insertName []

/-- A typed record of named values. -/
structure Fact where
  factType : String
  fields : NameMap Value
deriving DecidableEq, Repr

namespace Fact

/-- The fact of the given type without fields. -/
def ofType (factType : String) : Fact := ⟨factType, .empty⟩

def get? (f : Fact) (field : String) : Option Value := f.fields.get? field

def set (f : Fact) (field : String) (v : Value) : Fact :=
  { f with fields := f.fields.insert field v }

/-- The value of a field; null if the fact lacks it. -/
def value (f : Fact) (field : String) : Value := (f.get? field).getD .null

/-- The names of the fields of the first fact that are not identical in the second. A change of kind
counts even if the values compare equal. -/
def differing (a b : Fact) : List String :=
  (a.fields.entries.filter fun e => !e.2.isIdentical (b.value e.1)).map Prod.fst

/-- The names of the fields that the second fact has beside those of the first, unless
they are null. -/
def added (a b : Fact) : List String :=
  (b.fields.entries.filter fun e => !a.fields.contains e.1 && !e.2.isNull).map Prod.fst

/-- The names of the fields in which the two facts are not identical, in order. -/
def changedFields (a b : Fact) : List String := sortNames (a.differing b ++ a.added b)

/-- Equality field by field; a fact that holds a NaN is not even equal to itself. -/
def structurallyEqual (a b : Fact) : Bool :=
  a.factType == b.factType && a.fields.names == b.fields.names &&
    a.fields.names.all fun field => (a.value field).structurallyEqual (b.value field)

/-- The written form: the type, then the fields in order. -/
def display (f : Fact) : String :=
  f.factType ++ " \x7b" ++ ",".intercalate (f.fields.entries.map fun (name, v) =>
    " " ++ name ++ ": " ++ v.display) ++ " \x7d"

end Fact

end RuleMatching
