import RuleMatching.Binary64.Rounding
import RuleMatching.Json.Basic

set_option autoImplicit false

/-! # Documents

A `Document` is what a JSON or a YAML text holds. A plain scalar of a YAML text has no kind of its
own: a reader that expects a string takes it as one, a reader that takes anything resolves it by its
form (`Document.resolve?`). A document without plain scalars is settled.

A text may also hold parts that are well formed and yet stand for nothing, such as a number that is
too large. They are `unreadable`: a reader that needs them gives up, one that has no use for them
passes over them. -/

namespace RuleMatching

inductive Document where
  | null
  | boolean (b : Bool)
  /-- An integer without a minus sign. -/
  | natural (n : Nat)
  /-- An integer with a minus sign, of the magnitude `n`. -/
  | negative (n : Nat)
  | float (x : Binary64)
  | string (s : String)
  /-- A scalar whose kind depends on where it is read. -/
  | plain (text : String)
  | sequence (items : List Document)
  | mapping (members : List (Document × Document))
  /-- A part of a text that a reader may only pass over. -/
  | unreadable
deriving Repr, Inhabited

namespace Document

/-- The document of a number. -/
def ofNumber : Json.Number → Document
  | .integer n => if n < 0 then negative n.natAbs else natural n.natAbs
  | .float x => float x

/-- A collection at the given depth, which must be below `limit` for the collection to be read. -/
def nested (limit depth : Nat) (collection : Document) : Document :=
  if depth < limit then collection else unreadable

mutual

/-- The document of a JSON document. -/
def ofJson : Json → Document
  | .null => null
  | .boolean b => boolean b
  | .number n => ofNumber n
  | .string s => string s
  | .array items => sequence (ofItems items)
  | .object members => mapping (ofMembers members)

/-- The documents of the items of an array. -/
def ofItems : List Json → List Document
  | [] => []
  | item :: rest => ofJson item :: ofItems rest

/-- The documents of the members of an object. -/
def ofMembers : List (String × Json) → List (Document × Document)
  | [] => []
  | (name, v) :: rest => (string name, ofJson v) :: ofMembers rest

end

/-! ## The forms of plain scalars -/

/-- Whether the text stands for null; nothing at all does. -/
def isNullText (text : String) : Bool := ["", "~", "null", "Null", "NULL"].contains text

/-- The truth value that the text stands for. -/
def booleanText? (text : String) : Option Bool :=
  if ["true", "True", "TRUE"].contains text then some true
  else if ["false", "False", "FALSE"].contains text then some false
  else none

/-- The value of a digit in bases up to sixteen. -/
def digitValue? (base : Nat) (c : Char) : Option Nat :=
  let n :=
    if c.isDigit then some (c.toNat - 48)
    else if 'a' ≤ c ∧ c ≤ 'f' then some (c.toNat - 87)
    else if 'A' ≤ c ∧ c ≤ 'F' then some (c.toNat - 55)
    else none
  n.filter (· < base)

/-- The number written by one digit or more. -/
def digits? (base : Nat) (cs : List Char) : Option Nat :=
  if cs.isEmpty then none else cs.foldlM (fun n c => (digitValue? base c).map (base * n + ·)) 0

/-- The magnitude of an integer without sign: decimal, or with one of the marks `0x`,
`0o` and `0b`. -/
def magnitude? : List Char → Option Nat
  | '0' :: 'x' :: rest => digits? 16 rest
  | '0' :: 'o' :: rest => digits? 8 rest
  | '0' :: 'b' :: rest => digits? 2 rest
  | cs => digits? 10 cs

/-- Whether the text is a run of digits that starts with a superfluous zero; such a
text is a string. -/
def hasLeadingZero (cs : List Char) : Bool :=
  let digits := match cs with
    | '+' :: rest | '-' :: rest => rest
    | _ => cs
  match digits with
  | '0' :: c :: rest => (c :: rest).all Char.isDigit
  | _ => false

/-- Whether the integer that the text stands for has a minus sign, and its magnitude, of
whatever size. -/
def integerText? (cs : List Char) : Option (Bool × Nat) :=
  if hasLeadingZero cs then none
  else
    match cs with
    | '+' :: rest => (magnitude? rest).map fun n => (false, n)
    | '-' :: rest => (magnitude? rest).map fun n => (true, n)
    | _ => (magnitude? cs).map fun n => (false, n)

/-- Reads an exponent up to the end of the text. -/
def exponentText? : List Char → Option Int
  | [] => some 0
  | 'e' :: '-' :: rest | 'E' :: '-' :: rest => (digits? 10 rest).map fun n => -(n : Int)
  | 'e' :: '+' :: rest | 'E' :: '+' :: rest => (digits? 10 rest).map Int.ofNat
  | 'e' :: rest | 'E' :: rest => (digits? 10 rest).map Int.ofNat
  | _ => none

/-- The magnitude of a decimal: digits with an optional point and an optional exponent. -/
def decimalText? (cs : List Char) : Option Binary64 := do
  let (whole, rest) := cs.span Char.isDigit
  let (fraction, rest) := match rest with
    | '.' :: rest => rest.span Char.isDigit
    | _ => ([], rest)
  let digits ← digits? 10 (whole ++ fraction)
  let exponent ← exponentText? rest
  let x := Binary64.ofDecimal digits (exponent - fraction.length)
  if x.isFinite then some x else none

/-- The float that the text stands for. -/
def floatText? (cs : List Char) : Option Binary64 :=
  let infinite := [".inf", ".Inf", ".INF"].map String.toList
  if [".nan", ".NaN", ".NAN"].contains (String.ofList cs) then some Binary64.canonicalNaN
  else
    match cs with
    | '-' :: rest =>
      if infinite.contains rest then some Binary64.infinity.negate
      else (decimalText? rest).map Binary64.negate
    | '+' :: rest => if infinite.contains rest then some Binary64.infinity else decimalText? rest
    | _ => if infinite.contains cs then some Binary64.infinity else decimalText? cs

/-- Whether an integer fits in a word with a sign if it is negative, and without one if it is not;
`half` is the number of negative integers of the word. -/
def fitsWord (half : Nat) (isNegative : Bool) (n : Nat) : Bool :=
  if isNegative then n ≤ half else n < 2 * half

/-- The document that a plain scalar stands for by its form. Integers that fit in 128 bits but not
in 64 have none; still greater ones are floats. -/
def resolveText? (text : String) : Option Document :=
  let cs := text.toList
  let float? : Option Document := if hasLeadingZero cs then none else (floatText? cs).map float
  if isNullText text then some null
  else
    match booleanText? text, integerText? cs with
    | some b, _ => some (boolean b)
    | none, some (isNegative, n) =>
      if fitsWord 0x8000000000000000 isNegative n then
        some (if isNegative then negative n else natural n)
      else if fitsWord 0x80000000000000000000000000000000 isNegative n then none
      else some (float?.getD (string text))
    | none, none => some (float?.getD (string text))

mutual

/-- The settled document in which every plain scalar is resolved by its form. -/
def resolve? : Document → Option Document
  | plain text => resolveText? text
  | sequence items => (resolveItems? items).map sequence
  | mapping members => (resolveMembers? members).map mapping
  | null => some null
  | boolean b => some (boolean b)
  | natural n => some (natural n)
  | negative n => some (negative n)
  | float x => some (float x)
  | string s => some (string s)
  | unreadable => none

/-- The items, each resolved. -/
def resolveItems? : List Document → Option (List Document)
  | [] => some []
  | item :: rest => do return (← resolve? item) :: (← resolveItems? rest)

/-- The members, names and values resolved. -/
def resolveMembers? : List (Document × Document) → Option (List (Document × Document))
  | [] => some []
  | (name, v) :: rest => do return (← resolve? name, ← resolve? v) :: (← resolveMembers? rest)

end

end Document

end RuleMatching
