import RuleMatching.Binary64.Truncation
import RuleMatching.Instant.Basic

set_option autoImplicit false

/-! # Values of fact fields

A field of a fact holds a `Value`; a schema declares the `Kind` of values that it may hold. Two
values are the same for matching if their `Value.key`s are equal: integral floats share the key of
the integer, both zeros share one and all NaNs share one. -/

namespace RuleMatching

/-- The declared kind of a field. Null is a value of every kind. -/
inductive Kind where
  | string
  | integer
  | float
  | boolean
  | date
deriving DecidableEq, Repr

namespace Kind

def all : List Kind := [.string, .integer, .float, .boolean, .date]

def name : Kind → String
  | .string => "string"
  | .integer => "integer"
  | .float => "float"
  | .boolean => "boolean"
  | .date => "date"

def ofName? (text : String) : Option Kind := all.find? (·.name == text)

def isNumeric : Kind → Bool
  | .integer | .float => true
  | _ => false

/-- Whether the ordering operators are meaningful for the kind. -/
def isOrdered : Kind → Bool
  | .boolean => false
  | _ => true

/-- Whether values of the two kinds can be compared with each other. -/
def isComparableWith (a b : Kind) : Bool := a == b || (a.isNumeric && b.isNumeric)

end Kind

/-- The value of a field. -/
inductive Value where
  | null
  | boolean (b : Bool)
  | integer (n : Int64)
  | float (x : Binary64)
  | string (s : String)
  | date (t : Instant)
deriving DecidableEq, Repr

/-- What of a value counts for equality in a match. -/
inductive Key where
  | null
  | boolean (b : Bool)
  | integer (n : Int64)
  | float (bits : UInt64)
  | string (s : String)
  | date (t : Instant)
deriving DecidableEq, Repr

namespace Value

def kind? : Value → Option Kind
  | null => none
  | boolean _ => some .boolean
  | integer _ => some .integer
  | float _ => some .float
  | string _ => some .string
  | date _ => some .date

/-- The name of the kind, or `null`. -/
def typeName (v : Value) : String := (v.kind?.map Kind.name).getD "null"

def isNull : Value → Bool
  | null => true
  | _ => false

/-- The form of the value under which equal values coincide. -/
def key : Value → Key
  | null => .null
  | boolean b => .boolean b
  | integer n => .integer n
  | float x =>
    if x.isNaN then .float Binary64.canonicalNaN.bits
    else
      match x.toInt64? with
      | some n => .integer n
      | none => .float x.bits
  | string s => .string s
  | date t => .date t

/-! ## Comparison -/

/-- Equality as the operator `==` sees it: null equals null only, and other values are equal by
their keys, so numbers by exact value and a NaN to a NaN. -/
def nullSafeEq : Value → Value → Bool
  | null, null => true
  | null, _ | _, null => false
  | integer a, integer b => a == b
  | string a, string b => a == b
  | a, b => a.key == b.key

/-- Sameness of kind and key, so that `7` and `7.0` differ. -/
def isIdentical (a b : Value) : Bool := a.kind? == b.kind? && a.key == b.key

/-- Structural equality: like equality of values of one kind, except that a NaN equals nothing. -/
def structurallyEqual : Value → Value → Bool
  | float x, float y => x.equals y
  | a, b => a == b

/-- The order that the ordering operators see. Null, booleans, NaNs and values of unrelated kinds
have no place in it. -/
def compare? : Value → Value → Option Ordering
  | integer a, integer b => some (compare a.toInt b.toInt)
  | float x, float y => x.compare? y
  | integer n, float x => Binary64.compareInteger? n x
  | float x, integer n => (Binary64.compareInteger? n x).map Ordering.swap
  | string a, string b => some (compare a b)
  | date a, date b => some (a.compare b)
  | _, _ => none

end Value

namespace Kind

/-- Whether a field of this kind may hold the value. Fields for floats take integers too. -/
def accepts : Kind → Value → Bool
  | _, .null => true
  | .string, .string _ => true
  | .integer, .integer _ => true
  | .float, .float _ => true
  | .float, .integer _ => true
  | .boolean, .boolean _ => true
  | .date, .date _ => true
  | _, _ => false

end Kind

end RuleMatching
