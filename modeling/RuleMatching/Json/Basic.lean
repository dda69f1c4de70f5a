import RuleMatching.Binary64.Basic
import RuleMatching.NameMap

set_option autoImplicit false

/-! # JSON documents

A `Json` document keeps the members of its objects as they were written, repetitions included.
`Json.canonical` is the document in which every object has its last member of each name, in the
order of names. -/

namespace RuleMatching

/-- A number of a document: an integer that fits in 64 bits, with or without sign, or a float. -/
inductive Json.Number where
  | integer (n : Int)
  | float (x : Binary64)
deriving DecidableEq, Repr

/-- A document. -/
inductive Json where
  | null
  | boolean (b : Bool)
  | number (n : Json.Number)
  | string (s : String)
  | array (items : List Json)
  | object (members : List (String × Json))
deriving Repr, Inhabited

namespace Json

def integer (n : Int) : Json := number (.integer n)

/-- A natural number of a document. -/
def nat (n : Nat) : Json := integer n

/-- The number of a float; floats that are not finite have none and become null. -/
def ofFloat (x : Binary64) : Json := if x.isFinite then number (.float x) else null

/-- The document of a map. -/
def ofNameMap (m : NameMap Json) : Json := object m.entries

mutual

/-- The document with every object reduced to the last member of each name, in the
order of names. -/
def canonical : Json → Json
  | array items => array (canonicalItems items)
  | object members => ofNameMap (canonicalMembers .empty members)
  | null => null
  | boolean b => boolean b
  | number n => number n
  | string s => string s

/-- Each item in its canonical form. -/
def canonicalItems : List Json → List Json
  | [] => []
  | item :: rest => canonical item :: canonicalItems rest

/-- The members in their canonical form, bound one after the other. -/
def canonicalMembers (seen : NameMap Json) : List (String × Json) → NameMap Json
  | [] => seen
  | (name, v) :: rest => canonicalMembers (seen.insert name (canonical v)) rest

end

/-- The last member of the given name. -/
def member? (doc : Json) (name : String) : Option Json :=
  match doc with
  | object members => (members.reverse).lookup name
  | _ => none

/-- The items of an array; none for any other document. -/
def items : Json → List Json
  | array items => items
  | _ => []

end Json

end RuleMatching
