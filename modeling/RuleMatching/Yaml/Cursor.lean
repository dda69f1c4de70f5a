set_option autoImplicit false

/-! # Places in a YAML text

The characters that YAML tells apart, and the `Cursor`, a place in a text: what comes after it, and
its line and column, which indentation is about. -/

namespace RuleMatching

namespace Yaml

/-! ## Characters -/

/-- A blank within a line. -/
def isBlank (c : Char) : Bool := c == ' ' || c == '\t'

/-- A character that ends a line. -/
def isBreak (c : Char) : Bool :=
  c == '\n' || c == '\r' || c == '\u0085' || c == '\u2028' || c == '\u2029'

def isSpace (c : Char) : Bool := isBlank c || isBreak c

/-- Whether the text ends here or goes on with a blank or a line break. -/
def startsWithSpace : List Char → Bool
  | [] => true
  | c :: _ => isSpace c

/-- Whether a text may hold the character at all. -/
def isAllowed (c : Char) : Bool :=
  let n := c.toNat
  n == 0x09 || n == 0x0a || n == 0x0d || (0x20 ≤ n && n ≤ 0x7e) || n == 0x85
    || (0xa0 ≤ n && n ≤ 0xd7ff) || (0xe000 ≤ n && n ≤ 0xfffd) || 0x10000 ≤ n

/-- The mark of the byte order, which may stand at the start of a line. -/
def byteOrderMark : Char := '\ufeff'

/-- Whether a line that starts here starts or ends a document. -/
def isDocumentMark : List Char → Bool
  | '-' :: '-' :: '-' :: rest | '.' :: '.' :: '.' :: rest => startsWithSpace rest
  | _ => false

/-! ## Folding -/

/-- The line breaks among the given spaces; those that ASCII knows are all written as
one newline. -/
def breaks : List Char → List Char
  | [] => []
  | '\r' :: '\n' :: rest => '\n' :: breaks rest
  | c :: rest =>
    if c == '\u2028' || c == '\u2029' then c :: breaks rest
    else if isBreak c then '\n' :: breaks rest
    else breaks rest

/-- What the spaces between two words of a scalar stand for: blanks for themselves, one line break
for a blank, more of them for all but the first. -/
def fold (spaces : List Char) : List Char :=
  match breaks spaces with
  | [] => spaces
  | ['\n'] => [' ']
  | '\n' :: rest => rest
  | all => all

/-! ## Places -/

/-- A place in a text. -/
structure Cursor where
  rest : List Char
  /-- The number of characters before the place. -/
  index : Nat
  line : Nat
  /-- The number of characters before the place in its line. -/
  column : Nat
deriving Repr, Inhabited

namespace Cursor

def ofText (text : List Char) : Cursor := ⟨text, 0, 0, 0⟩

/-- The place after the next character. Only the last character of a line break of two
breaks the line. -/
def next (c : Cursor) : Cursor :=
  match c.rest with
  | [] => c
  | '\r' :: '\n' :: rest => ⟨'\n' :: rest, c.index + 1, c.line, c.column⟩
  | x :: rest =>
    if isBreak x then ⟨rest, c.index + 1, c.line + 1, 0⟩
    else ⟨rest, c.index + 1, c.line, c.column + 1⟩

/-- The place after the next `n` characters. -/
def skip (c : Cursor) : Nat → Cursor
  | 0 => c
  | n + 1 => c.next.skip n

/-- The place from which on the text is `rest`, an end of what comes after the given place. -/
def skipTo (c : Cursor) (rest : List Char) : Cursor := c.skip (c.rest.length - rest.length)

end Cursor

end Yaml

end RuleMatching
