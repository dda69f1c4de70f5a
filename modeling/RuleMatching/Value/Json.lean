import RuleMatching.Binary64.Rounding
import RuleMatching.Fact
import RuleMatching.Json.Print

set_option autoImplicit false

/-! # Values and JSON documents

`Value.toJson` writes a value as a document, `Value.ofJson` reads one. Dates become the
text of their timestamp and are read back as strings; `Value.coerce?` turns that text into
the date again. -/

namespace RuleMatching

/-- Why a document is no value or no record of values. -/
inductive ContentError where
  /-- A field holds an array or an object. -/
  | nested (doc : Json)
  /-- The fields of a fact are not an object. -/
  | notAnObject (doc : Json)
deriving Repr

namespace ContentError

def message : ContentError → String
  | nested doc => "Nested values are not supported as fact fields: " ++ doc.canonical.compact
  | notAnObject doc => "Fact fields must be a JSON object, got " ++ doc.canonical.compact

end ContentError

namespace Value

/-- The integers that fit in 64 bits with sign. -/
def fitsInt64 (n : Int) : Bool := -0x8000000000000000 ≤ n && n < 0x8000000000000000

/-- The value of a number: an integer if it fits, else the nearest float. -/
def ofNumber : Json.Number → Value
  | .integer n => if fitsInt64 n then integer (Int64.ofInt n) else float (Binary64.ofInt n)
  | .float x => float x

/-- Reads a document as a value. -/
def ofJson : Json → Except ContentError Value
  | .null => .ok null
  | .boolean b => .ok (boolean b)
  | .number n => .ok (ofNumber n)
  | .string s => .ok (string s)
  | doc => .error (.nested doc)

/-- The document of a scalar value, given the text of dates. -/
def toJsonWith (dateText : Instant → String) : Value → Json
  | null => .null
  | boolean b => .boolean b
  | integer n => .integer n.toInt
  | float x => .ofFloat x
  | string s => .string s
  | date t => .string (dateText t)

/-- The document of a value. Floats that are not finite become null. -/
def toJson : Value → Json := toJsonWith Instant.timestamp

/-- The document of a literal inside a rule; its dates end in `Z`. -/
def toLiteralJson : Value → Json := toJsonWith Instant.timestampZulu

end Value

namespace Fact

/-- Reads an object as a fact of the given type. The fields are read in order of their names. -/
def ofJson (factType : String) (doc : Json) : Except ContentError Fact :=
  match doc.canonical with
  | .object members => do
    let fields ← members.mapM fun (name, raw) => do return (name, ← Value.ofJson raw)
    return ⟨factType, .ofList fields⟩
  | doc => .error (.notAnObject doc)

end Fact

end RuleMatching
