import RuleMatching.Error
import RuleMatching.Schema

set_option autoImplicit false

/-! # Access to fields

An `Accessor` is a field of a type of facts together with its declared kind; reading through it
checks the type of the fact and the kind of the value. A `Declaration` reads a field of a fact that
an earlier pattern of the rule has bound. -/

namespace RuleMatching

/-- A declared field of a type of facts. -/
structure Accessor where
  factType : String
  field : String
  kind : Kind
deriving DecidableEq, Repr

namespace Accessor

/-- The accessor of a field that the schema declares. -/
def resolve (s : Schema) (field : String) : Except BuildError Accessor :=
  match s.kind? field with
  | some kind => .ok ⟨s.name, field, kind⟩
  | none => .error (.unknownField s.name field)

/-- The value of the field in the fact. A field that the fact lacks reads as null. -/
def read (a : Accessor) (f : Fact) : Except ReadError Value :=
  if f.factType ≠ a.factType then .error (.wrongFactType a.field a.factType f.factType)
  else
    let v := f.value a.field
    if a.kind.accepts v then .ok v
    else .error (.fieldTypeMismatch a.factType a.field a.kind v.typeName)

def display (a : Accessor) : String := a.factType ++ "." ++ a.field

end Accessor

/-- A field of the fact that the pattern at a given position has bound to a name. -/
structure Declaration where
  identifier : String
  pattern : Nat
  accessor : Accessor
deriving DecidableEq, Repr

namespace Declaration

/-- The value of the field in the match, given as the facts of its patterns in order. -/
def read (d : Declaration) (bound : List Fact) : Except ReadError Value :=
  match bound[d.pattern]? with
  | some f => d.accessor.read f
  | none => .ok .null

def display (d : Declaration) : String := d.identifier ++ "." ++ d.accessor.field

end Declaration

end RuleMatching
