import RuleMatching.Yaml.Scalar

set_option autoImplicit false

/-! # Tokens of a YAML text

`Token.ofText?` splits a text into scalars and marks of structure. Outside brackets the structure is
told by indentation: a collection that is indented more than the one around it is opened where its
first entry stands and closed by the first thing that is indented less.

That a scalar or a bracket is the key of a mapping shows only at the colon after it. Until then its
place in the list of tokens is kept as a `PendingKey`, and the tokens that it needs before it are
put there later. Anchors, aliases, tags, block scalars and directives are not read. -/

namespace RuleMatching

namespace Yaml

inductive Token where
  | documentStart
  | documentEnd
  /-- The start of a sequence told by indentation. -/
  | sequence
  /-- The start of a mapping told by indentation. -/
  | mapping
  /-- The end of a collection told by indentation. -/
  | dedent
  | openBracket
  | closeBracket
  | openBrace
  | closeBrace
  /-- The dash of an item. -/
  | item
  | comma
  /-- A key follows. -/
  | key
  /-- A value follows. -/
  | value
  | plain (text : String)
  | quoted (text : String)
deriving DecidableEq, Repr, Inhabited

/-- A token that may turn out to be the start of a key. -/
structure PendingKey where
  /-- The number of tokens before it. -/
  position : Nat
  index : Nat
  line : Nat
  column : Nat
  /-- Whether it can be nothing but a key. -/
  isRequired : Bool

/-- The state of the division of a text into tokens. -/
structure Lexer where
  cursor : Cursor
  /-- The columns of the open collections that indentation tells, the innermost first. -/
  indents : List Nat
  /-- The pending keys at every level of brackets, the innermost first; the last is
  outside of all. -/
  keys : List (Option PendingKey)
  /-- Whether a key may start here. -/
  isKeyAllowed : Bool
  /-- The tokens so far, the last first. -/
  tokens : List Token

namespace Lexer

def ofText (text : List Char) : Lexer := ⟨.ofText text, [], [none], true, []⟩

/-- Whether the place is between brackets. -/
def inFlow (l : Lexer) : Bool := 1 < l.keys.length

def emit (l : Lexer) (t : Token) : Lexer := { l with tokens := t :: l.tokens }

/-- Goes over the next `n` characters. -/
def skip (l : Lexer) (n : Nat) : Lexer := { l with cursor := l.cursor.skip n }

/-! ## Indentation -/

/-- Puts a token into a list of tokens, the last of which comes first, after the
first `position`. -/
def insertToken (position : Nat) (t : Token) (tokens : List Token) : List Token :=
  let later := tokens.length - position
  tokens.take later ++ t :: tokens.drop later

/-- Opens a collection at the given column, unless it is open already. -/
def indent (l : Lexer) (column position : Nat) (t : Token) : Lexer :=
  let isDeeper := match l.indents with
    | [] => true
    | i :: _ => i < column
  if !l.inFlow && isDeeper then
    { l with indents := column :: l.indents, tokens := insertToken position t l.tokens }
  else l

/-- Closes the collections that `isLeft` says are left here. -/
def dedent (l : Lexer) (isLeft : Nat → Bool) : Lexer :=
  if l.inFlow then l
  else
    let left := l.indents.takeWhile isLeft
    { l with
      indents := l.indents.dropWhile isLeft
      tokens := List.replicate left.length .dedent ++ l.tokens }

/-! ## Keys -/

/-- Gives the pending key up; a required one must not be. -/
def dropKey? (l : Lexer) : Option Lexer :=
  match l.keys with
  | some k :: outer => if k.isRequired then none else some { l with keys := none :: outer }
  | _ => some l

/-- Notes that what comes next may be a key. -/
def saveKey? (l : Lexer) : Option Lexer :=
  if l.isKeyAllowed then do
    let l ← l.dropKey?
    let c := l.cursor
    -- At the column of an open mapping nothing but its next key can stand.
    let isRequired := !l.inFlow && l.indents.head? == some c.column
    return { l with
      keys := some ⟨l.tokens.length, c.index, c.line, c.column, isRequired⟩ :: l.keys.tail }
  else some l

/-- The greatest length of a key with its colon. -/
def maxKeyLength : Nat := 1024

/-- Whether the pending key is on an earlier line or too far back. -/
def isStale (c : Cursor) (k : PendingKey) : Bool :=
  k.line < c.line || k.index + maxKeyLength < c.index

/-- Gives the pending keys up that are stale. -/
def dropStaleKeys? (l : Lexer) : Option Lexer := do
  let keys ← l.keys.mapM fun key =>
    match key with
    | some k =>
        if isStale l.cursor k then (if k.isRequired then none else some none) else some (some k)
    | none => some none
  return { l with keys }

/-! ## Marks -/

/-- An item of a sequence. Outside brackets it may stand only where a key may. -/
def item? (l : Lexer) : Option Lexer :=
  if l.inFlow || l.isKeyAllowed then do
    let l ← (l.indent l.cursor.column l.tokens.length .sequence).dropKey?
    return { l.emit .item with isKeyAllowed := true }.skip 1
  else none

/-- A mark before a key. -/
def key? (l : Lexer) : Option Lexer :=
  if l.inFlow || l.isKeyAllowed then do
    let l ← (l.indent l.cursor.column l.tokens.length .mapping).dropKey?
    return { l.emit .key with isKeyAllowed := !l.inFlow }.skip 1
  else none

/-- The colon before a value; a pending key becomes a key. -/
def value? (l : Lexer) : Option Lexer :=
  match l.keys with
  | some k :: outer =>
    -- The mark of the key goes before the pending token, and that of a new mapping before both.
    let l := { l with tokens := insertToken k.position .key l.tokens, keys := none :: outer }
    some ({ (l.indent k.column k.position .mapping).emit .value with isKeyAllowed := false }.skip 1)
  | _ =>
    if l.inFlow || l.isKeyAllowed then
      let l := l.indent l.cursor.column l.tokens.length .mapping
      some ({ l.emit .value with isKeyAllowed := !l.inFlow }.skip 1)
    else none

/-- A bracket or brace that opens. -/
def open? (l : Lexer) (t : Token) : Option Lexer := do
  let l ← l.saveKey?
  return { l.emit t with keys := none :: l.keys, isKeyAllowed := true }.skip 1

/-- A bracket or brace that closes. -/
def close? (l : Lexer) (t : Token) : Option Lexer := do
  let l ← l.dropKey?
  let keys := if l.inFlow then l.keys.tail else l.keys
  return { l.emit t with keys, isKeyAllowed := false }.skip 1

/-- A comma. -/
def comma? (l : Lexer) : Option Lexer := do
  let l ← l.dropKey?
  return { l.emit .comma with isKeyAllowed := true }.skip 1

/-- The start or the end of a document. -/
def documentMark? (l : Lexer) (t : Token) : Option Lexer := do
  let l ← (l.dedent fun _ => true).dropKey?
  return { l.emit t with isKeyAllowed := false }.skip 3

/-! ## Scalars -/

/-- A scalar that `read` reads. -/
def scalar? (l : Lexer) (read : List Char → Option Scalar) (t : String → Token) : Option Lexer := do
  let l ← l.saveKey?
  let s ← read l.cursor.rest
  return { l.emit (t s.text) with cursor := l.cursor.skipTo s.rest, isKeyAllowed := s.endsLine }

def plain? (l : Lexer) : Option Lexer :=
  let surroundings : Surroundings := ⟨l.inFlow, (l.indents.head?.map (· + 1)).getD 0⟩
  l.scalar? (readPlain? surroundings l.cursor.column [] []) .plain

/-! ## All tokens -/

/-- Goes over blanks, comments and line breaks, and says whether a key may start after them. Between
brackets, and where no key may start, tabs are blanks too. At the start of a line the mark of the
byte order is passed over, but it takes a column. -/
def skipSpaces (inFlow isKeyAllowed inComment atLineStart : Bool) : List Char → List Char × Bool
  | [] => ([], isKeyAllowed)
  | c :: rest =>
    if isBreak c then skipSpaces inFlow (isKeyAllowed || !inFlow) false true rest
    else if inComment || c == '#' then skipSpaces inFlow isKeyAllowed true false rest
    else if c == ' ' || (c == '\t' && (inFlow || !isKeyAllowed)) ||
      (atLineStart && c == byteOrderMark) then
      skipSpaces inFlow isKeyAllowed false false rest
    else (c :: rest, isKeyAllowed)

/-- Goes on to the next token and closes the collections that end before it. -/
def toNextToken? (l : Lexer) : Option Lexer := do
  let (rest, isKeyAllowed) :=
    skipSpaces l.inFlow l.isKeyAllowed false (l.cursor.column == 0) l.cursor.rest
  let l ← { l with cursor := l.cursor.skipTo rest, isKeyAllowed }.dropStaleKeys?
  return l.dedent (l.cursor.column < ·)

/-- The other marks that start no plain scalar. -/
def isReserved (c : Char) : Bool :=
  ['#', '&', '*', '!', '|', '>', '\'', '"', '%', '@', '`'].contains c

/-- Whether a plain scalar can start with the character. -/
def startsPlain (inFlow : Bool) (c : Char) (rest : List Char) : Bool :=
  if c == '-' then !startsWithSpace rest
  else if c == '?' || c == ':' then !inFlow && !startsWithSpace rest
  else !isSpace c && !isFlowMark c
    && !isReserved c

/-- Reads the token that starts with the character `c`. -/
def readToken? (l : Lexer) (c : Char) (rest : List Char) : Option Lexer :=
  if l.cursor.column == 0 && isDocumentMark (c :: rest) then
    l.documentMark? (if c == '-' then .documentStart else .documentEnd)
  else if c == '[' then l.open? .openBracket
  else if c == '{' then l.open? .openBrace
  else if c == ']' then l.close? .closeBracket
  else if c == '}' then l.close? .closeBrace
  else if c == ',' then l.comma?
  else if c == '-' && startsWithSpace rest then l.item?
  else if c == '?' && (l.inFlow || startsWithSpace rest) then l.key?
  else if c == ':' && (l.inFlow || startsWithSpace rest) then l.value?
  else if c == '\'' then l.scalar? (fun cs => readSingleQuoted? [] .none cs.tail) .quoted
  else if c == '"' then l.scalar? (fun cs => readDoubleQuoted? [] .none cs.tail) .quoted
  else if startsPlain l.inFlow c rest then l.plain?
  else none

/-- Reads all tokens. Every token takes a character, so that there are no more tokens
than characters. -/
def readAll? : Nat → Lexer → Option (List Token)
  | 0, _ => none
  | fuel + 1, l => do
    let l ← l.toNextToken?
    match l.cursor.rest with
    | [] => return (← (l.dedent fun _ => true).dropKey?).tokens.reverse
    | c :: rest => readAll? fuel (← l.readToken? c rest)

end Lexer

/-- The tokens of a text. -/
def Token.ofText? (text : List Char) : Option (List Token) :=
  if text.all isAllowed then (Lexer.ofText text).readAll? (text.length + 1) else none

end Yaml

end RuleMatching
