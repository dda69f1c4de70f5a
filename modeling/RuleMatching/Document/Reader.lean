import RuleMatching.Document.Basic
import RuleMatching.Instant.Timestamp
import RuleMatching.Value.Json

set_option autoImplicit false

/-! # Reading documents

Readers for the building blocks of documents: scalars, lists, records and tagged unions. A reader
gives nothing if the document is not of its shape. In a settled document a record may also stand as
the list of its fields in order, and a word as a mapping of the word to null; in a text whose plain
scalars are open they may not. The parts of a document that no reader asks for may be anything. -/

namespace RuleMatching

namespace Document

/-! ## Scalars and lists -/

/-- Reads a string; a plain scalar is one whatever its form. -/
def string? : Document → Option String
  | string s | plain s => some s
  | _ => none

/-- Reads a truth value. -/
def boolean? : Document → Option Bool
  | boolean b => some b
  | plain text => booleanText? text
  | _ => none

/-- Reads a natural number below `2 ^ 64`. A plain scalar must not have a minus sign, not
even before zero. -/
def nat? (doc : Document) : Option Nat :=
  let n? := match doc with
    | natural n => some n
    | plain text =>
      match integerText? text.toList with
      | some (false, n) => some n
      | _ => none
    | _ => none
  n?.filter (· < 0x10000000000000000)

/-- Reads something that may be null. -/
def optional? {α : Type} (read : Document → Option α) (doc : Document) : Option (Option α) :=
  let isNull := match doc with
    | null => true
    | plain text => isNullText text
    | _ => false
  if isNull then some none else (read doc).map some

/-- The items of a sequence; an empty plain scalar is an empty one. -/
def items? : Document → Option (List Document)
  | sequence items => some items
  | plain "" => some []
  | _ => none

/-- The members of a mapping; an empty plain scalar is an empty one. -/
def members? : Document → Option (List (Document × Document))
  | mapping members => some members
  | plain "" => some []
  | _ => none

/-- Reads a list. -/
def list? {α : Type} (read : Document → Option α) (doc : Document) : Option (List α) := do
  (← items? doc).mapM read

/-- Reads a map from names; of two members of one name the later counts. -/
def nameMap? {α : Type} (read : Document → Option α) (doc : Document) : Option (NameMap α) := do
  let entries ← (← members? doc).mapM fun (name, v) => do return (← string? name, ← read v)
  return .ofList entries

/-- Reads a word, in a settled document also as a mapping of the word to null. -/
def word? (settled : Bool) (doc : Document) : Option String :=
  match doc with
  | mapping [(name, null)] => if settled then string? name else none
  | _ => string? doc

/-! ## Records -/

/-- The documents of the fields of a record that are present, by field. -/
abbrev Fields := List (String × Document)

/-- Which of the fields a member stands for: a field by its name or its number, or none of them. A
number with a minus sign, even before zero, cannot be the name of a member. -/
def fieldName? (fields : List String) : Document → Option (Option String)
  | string s | plain s => some (if fields.contains s then some s else none)
  | natural n => some fields[n]?
  | _ => none

/-- Collects the fields of a record from the members of a mapping. A field may be there once, and
members that are no field are passed over. -/
def recordMembers? (fields : List String) (seen : Fields) :
    List (Document × Document) → Option Fields
  | [] => some seen
  | (name, v) :: rest => do
    match ← fieldName? fields name with
    | none => recordMembers? fields seen rest
    | some field =>
      if (seen.lookup field).isSome then none else recordMembers? fields ((field, v) :: seen) rest

/-- The fields of a record. -/
def record? (settled : Bool) (fields : List String) (doc : Document) : Option Fields :=
  match doc with
  | sequence items =>
    if settled && items.length ≤ fields.length then some (fields.zip items) else none
  | _ => do recordMembers? fields [] (← members? doc)

/-- Reads a field that must be there. -/
def Fields.required {α : Type} (fs : Fields) (name : String) (read : Document → Option α) :
    Option α :=
  (fs.lookup name).bind read

/-- Reads a field that may be missing. -/
def Fields.withDefault {α : Type} (fs : Fields) (name : String) (read : Document → Option α)
    (default_ : α) : Option α :=
  match fs.lookup name with
  | some doc => read doc
  | none => some default_

/-! ## Tagged unions -/

/-- The tag of a settled mapping or sequence and the rest of it, still a mapping or a sequence. -/
def tagged? (tag : String) : Document → Option (String × Document)
  | sequence (string s :: rest) => some (s, sequence rest)
  | mapping members =>
    let isTag : Document × Document → Bool := fun (name, _) =>
      match name with
      | string s => s == tag
      | _ => false
    match members.filter isTag with
    | [(_, string s)] => some (s, mapping (members.filter fun m => !isTag m))
    | _ => none
  | _ => none

/-! ## Values

A value has no tag. It is read as the first of its variants that takes the document. -/

/-- The integer of a number without a fraction. -/
def integer? : Document → Option Int
  | natural n => some n
  | negative n => some (-n)
  | _ => none

def nullValue? : Document → Option Value
  | null => some .null
  | _ => none

def booleanValue? : Document → Option Value
  | boolean b => some (.boolean b)
  | _ => none

def integerValue? (doc : Document) : Option Value := do
  let n ← doc.integer?
  if Value.fitsInt64 n then some (.integer (Int64.ofInt n)) else none

/-- An integer is taken as the nearest float. -/
def floatValue? : Document → Option Value
  | float x => some (.float x)
  | doc => doc.integer?.map fun n => .float (Binary64.ofInt n)

def stringValue? : Document → Option Value
  | string s => some (.string s)
  | _ => none

def dateValue? (readDate? : String → Option Instant) : Document → Option Value
  | string s => (readDate? s).map .date
  | _ => none

/-- The variants of a value in the order in which they are tried, given a reader of dates. -/
def valueVariants (readDate? : String → Option Instant) : List (Document → Option Value) :=
  [nullValue?, booleanValue?, integerValue?, floatValue?, stringValue?, dateValue? readDate?]

/-- Reads a scalar of a settled document as a value, given a reader of dates. -/
def valueWith? (readDate? : String → Option Instant) (doc : Document) : Option Value :=
  (valueVariants readDate?).findSome? fun variant => variant doc

/-- Reads a scalar of a settled document as a value. Strings are tried before dates, so a timestamp
stays a string. -/
def value? : Document → Option Value := valueWith? Instant.ofTimestamp?

/-! ## JSON documents -/

mutual

/-- The JSON document of a settled document whose mappings have strings for names. -/
def json? : Document → Option Json
  | null => some .null
  | boolean b => some (.boolean b)
  | natural n => some (.integer n)
  | negative n => some (.integer (-n))
  | float x => some (.ofFloat x)
  | string s => some (.string s)
  | plain _ | unreadable => none
  | sequence items => (jsonItems? items).map Json.array
  | mapping members => (jsonMembers? members).map Json.object

/-- The JSON documents of the items. -/
def jsonItems? : List Document → Option (List Json)
  | [] => some []
  | item :: rest => do return (← json? item) :: (← jsonItems? rest)

/-- The JSON documents of the members. -/
def jsonMembers? : List (Document × Document) → Option (List (String × Json))
  | [] => some []
  | (string name, v) :: rest => do return (name, ← json? v) :: (← jsonMembers? rest)
  | _ => none

end

end Document

end RuleMatching
