import RuleMatching.Document.Reader
import RuleMatching.Json.Number

set_option autoImplicit false

/-! # Reading JSON texts

`Document.ofJsonText?` reads a text that holds one document and nothing else. What is well formed
but stands for nothing is unreadable there: a number that overflows, a string with half a pair of
surrogates, and arrays and objects nested deeper than `Json.maxNesting`. `Json.parse?` accepts only
texts without such parts. -/

namespace RuleMatching

namespace Json

/-- How deep arrays and objects may be nested to be read. -/
def maxNesting : Nat := 127

/-- The character is a blank between tokens. -/
def isBlank (c : Char) : Bool := c == ' ' || c == '\n' || c == '\t' || c == '\r'

/-- The rest of the text from its first token on. -/
def skipBlanks (cs : List Char) : List Char := cs.dropWhile isBlank

/-! ## Strings -/

/-- The value of a hexadecimal digit. -/
def hexDigit? (c : Char) : Option Nat :=
  if c.isDigit then some (c.toNat - 48)
  else if 'a' ≤ c ∧ c ≤ 'f' then some (c.toNat - 87)
  else if 'A' ≤ c ∧ c ≤ 'F' then some (c.toNat - 55)
  else none

/-- The number written by hexadecimal digits. -/
def hexValue? (cs : List Char) : Option Nat :=
  cs.foldlM (fun n c => (hexDigit? c).map (16 * n + ·)) 0

/-- The character that the escape stands for. -/
def simpleEscape? : Char → Option Char
  | '"' => some '"'
  | '\\' => some '\\'
  | '/' => some '/'
  | 'b' => some '\x08'
  | 'f' => some '\x0c'
  | 'n' => some '\n'
  | 'r' => some '\r'
  | 't' => some '\t'
  | _ => none

def isHighSurrogate (n : Nat) : Bool := 0xD800 ≤ n && n < 0xDC00

def isLowSurrogate (n : Nat) : Bool := 0xDC00 ≤ n && n < 0xE000

/-- The code point of a pair of surrogates. -/
def surrogatePair (high low : Nat) : Nat := 0x10000 + (high - 0xD800) * 0x400 + (low - 0xDC00)

/-- Reads the code units of a string up to the closing quote. `acc` holds those so
far, last first. -/
def readUnits? (acc : List Nat) : List Char → Option (List Nat × List Char)
  | [] => none
  | '"' :: rest => some (acc.reverse, rest)
  | '\\' :: 'u' :: a :: b :: c :: d :: rest =>
    match hexValue? [a, b, c, d] with
    | none => none
    | some n => readUnits? (n :: acc) rest
  | '\\' :: c :: rest =>
    match simpleEscape? c with
    | none => none
    | some e => readUnits? (e.toNat :: acc) rest
  | c :: rest => if c.toNat < 0x20 || c == '\\' then none else readUnits? (c.toNat :: acc) rest

/-- The text of some code units. A surrogate counts only as half of a pair. -/
def textOfUnits? (acc : List Char) : List Nat → Option String
  | [] => some (String.ofList acc.reverse)
  | [n] =>
    if isHighSurrogate n || isLowSurrogate n then none
    else some (String.ofList (Char.ofNat n :: acc).reverse)
  | n :: m :: rest =>
    if isHighSurrogate n then
      if isLowSurrogate m then textOfUnits? (Char.ofNat (surrogatePair n m) :: acc) rest else none
    else if isLowSurrogate n then none
    else textOfUnits? (Char.ofNat n :: acc) (m :: rest)

/-- Reads a string up to the closing quote. -/
def readString? (cs : List Char) : Option (Document × List Char) := do
  let (units, rest) ← readUnits? [] cs
  return (((textOfUnits? [] units).map Document.string).getD .unreadable, rest)

/-! ## Numbers -/

/-- Splits off the leading digits. -/
def spanDigits (cs : List Char) : List Char × List Char := cs.span Char.isDigit

/-- Reads the integer part: one digit, or several of which the first is not zero. -/
def readWhole? (cs : List Char) : Option (List Char × List Char) :=
  match spanDigits cs with
  | ([], _) => none
  | ('0' :: _ :: _, _) => none
  | found => some found

/-- Reads an optional fraction; the point needs a digit after it. -/
def readFraction? : List Char → Option (List Char × List Char)
  | '.' :: rest =>
    match spanDigits rest with
    | ([], _) => none
    | found => some found
  | cs => some ([], cs)

/-- Reads the digits of an exponent with its sign. -/
def readSignedDigits? (cs : List Char) : Option (Int × List Char) :=
  let (negative, cs) := match cs with
    | '-' :: rest => (true, rest)
    | '+' :: rest => (false, rest)
    | _ => (false, cs)
  match spanDigits cs with
  | ([], _) => none
  | (digits, rest) =>
    let n : Int := digits.foldl (fun n c => 10 * n + (c.toNat - 48)) 0
    some (if negative then -n else n, rest)

/-- Reads an optional exponent. -/
def readExponent? : List Char → Option (Option Int × List Char)
  | 'e' :: rest | 'E' :: rest => (readSignedDigits? rest).map fun (n, rest) => (some n, rest)
  | cs => some (none, cs)

/-- Reads a number from its first character on. -/
def readNumber? (cs : List Char) : Option (Document × List Char) := do
  let (negative, cs) := match cs with
    | '-' :: rest => (true, rest)
    | _ => (false, cs)
  let (whole, cs) ← readWhole? cs
  let (fraction, cs) ← readFraction? cs
  let (exponent, cs) ← readExponent? cs
  -- Only a literal of digits alone can be an integer, even if the value of another one is whole.
  let n? := if fraction.isEmpty && exponent.isNone then Number.ofDigits? negative whole
    else Number.ofParts? negative whole fraction (exponent.getD 0)
  some ((n?.map Document.ofNumber).getD .unreadable, cs)

/-! ## Documents -/

/-- The rest of the text after the given word. -/
def readWord? (word : String) (cs : List Char) : Option (List Char) :=
  if word.toList.isPrefixOf cs then some (cs.drop word.length) else none

mutual

/-- Reads a document at the given depth. Every step consumes a character, so that the length of the
text is fuel enough. -/
def readValue? (fuel depth : Nat) (cs : List Char) : Option (Document × List Char) :=
  match fuel, skipBlanks cs with
  | 0, _ | _, [] => none
  | fuel + 1, '[' :: rest => do
    let (items, rest) ← match skipBlanks rest with
      | ']' :: rest => some ([], rest)
      | rest => readItems? fuel (depth + 1) [] rest
    return ((Document.sequence items).nested maxNesting depth, rest)
  | fuel + 1, '\x7b' :: rest => do
    let (members, rest) ← match skipBlanks rest with
      | '\x7d' :: rest => some ([], rest)
      | rest => readMembers? fuel (depth + 1) [] rest
    return ((Document.mapping members).nested maxNesting depth, rest)
  | _, '"' :: rest => readString? rest
  | _, 'n' :: rest => (readWord? "ull" rest).map fun rest => (.null, rest)
  | _, 't' :: rest => (readWord? "rue" rest).map fun rest => (.boolean true, rest)
  | _, 'f' :: rest => (readWord? "alse" rest).map fun rest => (.boolean false, rest)
  | _, rest => readNumber? rest

/-- Reads the items of an array up to the closing bracket. -/
def readItems? (fuel depth : Nat) (acc : List Document) (cs : List Char) :
    Option (List Document × List Char) :=
  match fuel with
  | 0 => none
  | fuel + 1 =>
    match readValue? fuel depth cs with
    | none => none
    | some (item, rest) =>
      match skipBlanks rest with
      | ',' :: rest => readItems? fuel depth (item :: acc) rest
      | ']' :: rest => some ((item :: acc).reverse, rest)
      | _ => none

/-- Reads the members of an object up to the closing brace. -/
def readMembers? (fuel depth : Nat) (acc : List (Document × Document)) (cs : List Char) :
    Option (List (Document × Document) × List Char) :=
  match fuel, skipBlanks cs with
  | fuel + 1, '"' :: rest =>
    match readString? rest with
    | none => none
    | some (name, rest) =>
      match skipBlanks rest with
      | ':' :: rest =>
        match readValue? fuel depth rest with
        | none => none
        | some (v, rest) =>
          match skipBlanks rest with
          | ',' :: rest => readMembers? fuel depth ((name, v) :: acc) rest
          | '\x7d' :: rest => some (((name, v) :: acc).reverse, rest)
          | _ => none
      | _ => none
  | _, _ => none

end

end Json

/-- The document of a JSON text. -/
def Document.ofJsonText? (text : String) : Option Document :=
  let cs := text.toList
  match Json.readValue? (cs.length + 1) 0 cs with
  | some (doc, rest) => if (Json.skipBlanks rest).isEmpty then some doc else none
  | none => none

/-- Reads a text that holds one document of which every part can be read. -/
def Json.parse? (text : String) : Option Json := do (← Document.ofJsonText? text).json?

end RuleMatching
