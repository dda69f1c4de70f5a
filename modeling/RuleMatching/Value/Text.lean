import RuleMatching.Decimal.Notation
import RuleMatching.Instant.Timestamp
import RuleMatching.Value.Basic

set_option autoImplicit false

/-! # Values as text

`Value.display` is the written form of a value in descriptions. `Value.coerce?` reads a literal as a
value of a given kind: the text of a timestamp stands for a date where a date is expected. -/

namespace RuleMatching

namespace Value

/-- The written form: strings stand between quotes as they are, floats have no exponent. -/
def display : Value → String
  | null => "null"
  | boolean b => if b then "true" else "false"
  | integer n => toString n.toInt
  | float x => x.positional
  | string s => "\"" ++ s ++ "\""
  | date t => t.timestamp

/-- The value that the literal stands for in a field of the given kind. -/
def coerce? (v : Value) (kind : Kind) : Option Value :=
  if kind.accepts v then some v
  else
    match kind, v with
    | .date, string s => (Instant.ofTimestamp? s).map date
    | _, _ => none

end Value

namespace Key

/-- The position of the kinds of keys in their order. -/
def rank : Key → Nat
  | null => 0
  | boolean _ => 1
  | integer _ => 2
  | float _ => 3
  | string _ => 4
  | date _ => 5

/-- A total order of keys: by kind first, floats by their bits. -/
def compare : Key → Key → Ordering
  | boolean a, boolean b => Ord.compare a.toNat b.toNat
  | integer a, integer b => Ord.compare a.toInt b.toInt
  | float a, float b => Ord.compare a.toNat b.toNat
  | string a, string b => Ord.compare a b
  | date a, date b => a.compare b
  | a, b => Ord.compare a.rank b.rank

end Key

end RuleMatching
