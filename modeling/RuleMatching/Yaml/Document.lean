import RuleMatching.Document.Basic
import RuleMatching.Yaml.Token

set_option autoImplicit false

/-! # The document of a YAML text

`Document.ofYaml?` reads a text that holds at most one document. Brackets and indentation make
sequences and mappings; where nothing stands for a node there is an empty plain scalar. -/

namespace RuleMatching

namespace Yaml

/-- How deep collections may be nested to be read. -/
def maxNesting : Nat := 128

@[inherit_doc Document.nested]
def nested (depth : Nat) (collection : Document) : Document := collection.nested maxNesting depth

/-- The scalar where there is none. -/
def emptyScalar : Document := .plain ""

/-- Whether one of the tokens `ends` comes next. -/
def isNext (ends : List Token) : List Token → Bool
  | [] => false
  | t :: _ => ends.contains t

/-- Goes over the comma before an entry that is not the first. -/
def afterComma? (isFirst : Bool) (tokens : List Token) : Option (List Token) :=
  match isFirst, tokens with
  | true, tokens => some tokens
  | false, .comma :: rest => some rest
  | false, _ => none

/-! ## Nodes

Each function reads a part of the tokens and gives what is left of them. Every call takes a token or
is followed by one that does, which bounds the fuel that is needed. -/

mutual

/-- Reads a node. Outside brackets (`inBlock`) it may be a collection told by indentation;
as the content of a mapping (`inMapping`) it may be a sequence that is not indented more
than the mapping. -/
def readNode? (fuel depth : Nat) (inBlock inMapping : Bool) :
    List Token → Option (Document × List Token)
  | .plain text :: rest => some (.plain text, rest)
  | .quoted text :: rest => some (.string text, rest)
  | tokens =>
    match fuel, tokens with
    | fuel + 1, .openBracket :: rest => do
      let (items, rest) ← readFlowItems? fuel (depth + 1) true rest
      return (nested depth (.sequence items), rest)
    | fuel + 1, .openBrace :: rest => do
      let (members, rest) ← readFlowMembers? fuel (depth + 1) true rest
      return (nested depth (.mapping members), rest)
    | fuel + 1, .sequence :: rest =>
      if inBlock then do
        let (items, rest) ← readItems? fuel (depth + 1) rest
        match rest with
        | .dedent :: rest => return (nested depth (.sequence items), rest)
        | _ => none
      else none
    | fuel + 1, .mapping :: rest =>
      if inBlock then do
        let (members, rest) ← readMembers? fuel (depth + 1) rest
        return (nested depth (.mapping members), rest)
      else none
    -- These items stand at the column of the mapping, and so no token opens or closes
    -- their sequence.
    | fuel + 1, .item :: rest =>
      if inMapping then do
        let (items, rest) ← readItems? fuel (depth + 1) (.item :: rest)
        return (nested depth (.sequence items), rest)
      else none
    | _, _ => none

/-- Reads a node, or an empty one if one of the tokens `ends` comes next. -/
def readContent? (fuel depth : Nat) (inBlock inMapping : Bool) (ends tokens : List Token) :
    Option (Document × List Token) :=
  match fuel with
  | 0 => none
  | fuel + 1 =>
    if isNext ends tokens then some (emptyScalar, tokens)
    else readNode? fuel depth inBlock inMapping tokens

/-- Reads items with dashes, up to the first token that is no dash. -/
def readItems? (fuel depth : Nat) (tokens : List Token) : Option (List Document × List Token) :=
  match fuel, tokens with
  | fuel + 1, .item :: rest => do
    let (item, rest) ← readContent? fuel depth true false [.item, .key, .value, .dedent] rest
    let (items, rest) ← readItems? fuel depth rest
    return (item :: items, rest)
  | 0, _ => none
  | _, tokens => some ([], tokens)

/-- Reads the members of a mapping told by indentation, with its end. -/
def readMembers? (fuel depth : Nat) (tokens : List Token) :
    Option (List (Document × Document) × List Token) :=
  let ends := [Token.key, .value, .dedent]
  match fuel, tokens with
  | fuel + 1, .key :: rest => do
    let (name, rest) ← readContent? fuel depth true true ends rest
    let (v, rest) ← match rest with
      | .value :: rest => readContent? fuel depth true true ends rest
      | rest => some (emptyScalar, rest)
    let (members, rest) ← readMembers? fuel depth rest
    return ((name, v) :: members, rest)
  | _, .dedent :: rest => some ([], rest)
  | _, _ => none

/-- Reads the items between brackets, with the bracket that closes. A key and its value are a
mapping of their own; a key without content takes the token after it along. -/
def readFlowItems? (fuel depth : Nat) (isFirst : Bool) (tokens : List Token) :
    Option (List Document × List Token) :=
  match fuel, tokens with
  | _, .closeBracket :: rest => some ([], rest)
  | fuel + 1, tokens => do
    let tokens ← afterComma? isFirst tokens
    match tokens with
    | .closeBracket :: rest => return ([], rest)
    | .key :: rest =>
      let (name, rest) ←
        if isNext [.value, .comma, .closeBracket] rest then some (emptyScalar, rest.tail)
        else readNode? fuel (depth + 1) false false rest
      let (v, rest) ← match rest with
        | .value :: rest => readContent? fuel (depth + 1) false false [.comma, .closeBracket] rest
        | rest => some (emptyScalar, rest)
      let (items, rest) ← readFlowItems? fuel depth false rest
      return (nested depth (.mapping [(name, v)]) :: items, rest)
    | _ =>
      let (item, rest) ← readNode? fuel depth false false tokens
      let (items, rest) ← readFlowItems? fuel depth false rest
      return (item :: items, rest)
  | 0, _ => none

/-- Reads the members between braces, with the brace that closes. -/
def readFlowMembers? (fuel depth : Nat) (isFirst : Bool) (tokens : List Token) :
    Option (List (Document × Document) × List Token) :=
  match fuel, tokens with
  | _, .closeBrace :: rest => some ([], rest)
  | fuel + 1, tokens => do
    let tokens ← afterComma? isFirst tokens
    match tokens with
    | .closeBrace :: rest => return ([], rest)
    | .key :: rest =>
      let (name, rest) ← readContent? fuel depth false false [.value, .comma, .closeBrace] rest
      let (v, rest) ← match rest with
        | .value :: rest => readContent? fuel depth false false [.comma, .closeBrace] rest
        | rest => some (emptyScalar, rest)
      let (members, rest) ← readFlowMembers? fuel depth false rest
      return ((name, v) :: members, rest)
    | _ =>
      let (name, rest) ← readNode? fuel depth false false tokens
      let (members, rest) ← readFlowMembers? fuel depth false rest
      return ((name, emptyScalar) :: members, rest)
  | 0, _ => none

end

/-! ## Documents -/

/-- Reads the content of a document that has been started by a mark. -/
def readMarked? (fuel : Nat) (tokens : List Token) : Option (Document × List Token) :=
  if tokens.isEmpty || isNext [.documentStart, .documentEnd] tokens then some (emptyScalar, tokens)
  else readNode? fuel 0 true false tokens

/-- Reads the only document of the tokens. Without any token it is empty. -/
def readDocument? (fuel : Nat) (tokens : List Token) : Option Document := do
  let (doc, rest) ← match tokens with
    | [] => some (emptyScalar, [])
    | .documentStart :: rest => readMarked? fuel rest
    | tokens => readNode? fuel 0 true false tokens
  if rest.all (· == .documentEnd) then some doc else none

end Yaml

/-- The document of a YAML text. -/
def Document.ofYaml? (text : String) : Option Document := do
  let tokens ← Yaml.Token.ofText? text.toList
  Yaml.readDocument? (3 * tokens.length + 3) tokens

end RuleMatching
