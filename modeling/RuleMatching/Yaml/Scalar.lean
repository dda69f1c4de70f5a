import RuleMatching.Yaml.Cursor

set_option autoImplicit false

/-! # Scalars of a YAML text

A scalar is a run of words. In the spaces between two words a single line break counts as a
blank (`fold`). A plain scalar ends where the text can no longer belong to it, a quoted one
at its quote. -/

namespace RuleMatching

namespace Yaml

/-! ## Plain scalars -/

/-- Where a plain scalar stands. -/
structure Surroundings where
  /-- Whether it stands between brackets. -/
  inFlow : Bool
  /-- The least column of its further lines, outside brackets. -/
  indent : Nat

/-- A scalar that has been read. -/
structure Scalar where
  text : String
  /-- Whether a line break follows that belongs to no word. -/
  endsLine : Bool
  rest : List Char

/-- The marks of flow collections. -/
def isFlowMark (c : Char) : Bool := [',', '[', ']', '{', '}'].contains c

/-- Whether the text that starts with `c` is the end of a plain scalar even without a
space before it. -/
def endsWord (inFlow : Bool) (c : Char) (rest : List Char) : Bool :=
  (c == ':' && startsWithSpace rest) || (inFlow && isFlowMark c)

/-- Whether a colon stands before a mark with which it cannot be told from the end of a key. -/
def isStrayColon (inFlow : Bool) (c : Char) (rest : List Char) : Bool :=
  match rest with
  | d :: _ => inFlow && c == ':' && (isFlowMark d || d == '?')
  | [] => false

/-- Reads on in a plain scalar. `word` is what was read, and `spaces` the spaces after it, both
backwards. -/
def readPlain? (s : Surroundings) (column : Nat) (word spaces : List Char) :
    List Char → Option Scalar
  | [] => some ⟨String.ofList word.reverse, spaces.any isBreak, []⟩
  | c :: rest =>
    if isSpace c then
      -- A tab must not indent a further line.
      if c == '\t' && spaces.any isBreak && column < s.indent then none
      else readPlain? s (if isBreak c then 0 else column + 1) word (c :: spaces) rest
    else
      -- Only after a space: a comment, a line that is indented too little, or the mark
      -- of a document.
      let isOver := !spaces.isEmpty
        && (c == '#' || (!s.inFlow && column < s.indent) ||
          (column == 0 && isDocumentMark (c :: rest)))
      if isOver then some ⟨String.ofList word.reverse, spaces.any isBreak, c :: rest⟩
      else if isStrayColon s.inFlow c rest then none
      else if endsWord s.inFlow c rest then
        some ⟨String.ofList word.reverse, spaces.any isBreak, c :: rest⟩
      else
        readPlain? s (column + 1) (c :: ((fold spaces.reverse).reverse ++ word)) [] rest

/-! ## Quoted scalars -/

/-- The spaces read after a word of a quoted scalar, backwards. -/
structure Gap where
  /-- Whether it starts with a line break that an escape has taken away. -/
  escaped : Bool
  spaces : List Char

namespace Gap

def none : Gap := ⟨false, []⟩

/-- What the gap stands for. -/
def text (g : Gap) : List Char :=
  if g.escaped then breaks g.spaces.reverse else fold g.spaces.reverse

/-- Whether the gap ends at the start of a line. -/
def endsAtLineStart (g : Gap) : Bool :=
  match g.spaces with
  | [] => g.escaped
  | c :: _ => isBreak c

end Gap

/-- Reads on in a scalar between single quotes; a quote in it is written twice. -/
def readSingleQuoted? (word : List Char) (gap : Gap) : List Char → Option Scalar
  | [] => none
  | '\'' :: '\'' :: rest => readSingleQuoted? ('\'' :: (gap.text.reverse ++ word)) .none rest
  | '\'' :: rest => some ⟨String.ofList (gap.text.reverse ++ word).reverse, false, rest⟩
  | c :: rest =>
    if isSpace c then readSingleQuoted? word { gap with spaces := c :: gap.spaces } rest
    else if gap.endsAtLineStart && isDocumentMark (c :: rest) then none
    else readSingleQuoted? (c :: (gap.text.reverse ++ word)) .none rest

/-- The character that an escape of one letter stands for. -/
def simpleEscape? : Char → Option Char
  | '0' => some '\x00'
  | 'a' => some '\x07'
  | 'b' => some '\x08'
  | 't' | '\t' => some '\t'
  | 'n' => some '\n'
  | 'v' => some '\x0b'
  | 'f' => some '\x0c'
  | 'r' => some '\r'
  | 'e' => some '\x1b'
  | ' ' => some ' '
  | '"' => some '"'
  | '/' => some '/'
  | '\\' => some '\\'
  | 'N' => some '\u0085'
  | '_' => some '\u00a0'
  | 'L' => some '\u2028'
  | 'P' => some '\u2029'
  | _ => none

/-- The value of a hexadecimal digit. -/
def hexDigit? (c : Char) : Option Nat :=
  if c.isDigit then some (c.toNat - 48)
  else if 'a' ≤ c ∧ c ≤ 'f' then some (c.toNat - 87)
  else if 'A' ≤ c ∧ c ≤ 'F' then some (c.toNat - 55)
  else none

/-- The character with the number that the hexadecimal digits write. -/
def hexCharacter? (digits : List Char) : Option Char := do
  let n ← digits.foldlM (fun n c => (hexDigit? c).map (16 * n + ·)) 0
  if h : n.isValidChar then some (Char.ofNatAux n h) else none

/-- Reads on in a scalar between double quotes. -/
def readDoubleQuoted? (word : List Char) (gap : Gap) : List Char → Option Scalar
  | [] => none
  | '"' :: rest => some ⟨String.ofList (gap.text.reverse ++ word).reverse, false, rest⟩
  | '\\' :: '\r' :: '\n' :: rest => readDoubleQuoted? (gap.text.reverse ++ word) ⟨true, []⟩ rest
  | '\\' :: 'x' :: a :: b :: rest => do
    readDoubleQuoted? ((← hexCharacter? [a, b]) :: (gap.text.reverse ++ word)) .none rest
  | '\\' :: 'u' :: a :: b :: c :: d :: rest => do
    readDoubleQuoted? ((← hexCharacter? [a, b, c, d]) :: (gap.text.reverse ++ word)) .none rest
  | '\\' :: 'U' :: a :: b :: c :: d :: e :: f :: g :: h :: rest => do
    readDoubleQuoted? ((← hexCharacter? [a, b, c, d, e, f, g, h]) :: (gap.text.reverse ++ word))
      .none rest
  | '\\' :: c :: rest =>
    if isBreak c then readDoubleQuoted? (gap.text.reverse ++ word) ⟨true, []⟩ rest
    else do readDoubleQuoted? ((← simpleEscape? c) :: (gap.text.reverse ++ word)) .none rest
  | c :: rest =>
    if isSpace c then readDoubleQuoted? word { gap with spaces := c :: gap.spaces } rest
    else if gap.endsAtLineStart && isDocumentMark (c :: rest) then none
    else readDoubleQuoted? (c :: (gap.text.reverse ++ word)) .none rest

end Yaml

end RuleMatching
