import RuleMatching.Document.Reader
import RuleMatching.Rule.Basic
import RuleMatching.Schema

set_option autoImplicit false

/-! # Schemas and rules as documents

Schemas and rules are read from documents; rules are written as documents, unless they hold a test
of their own, which has no written form. -/

namespace RuleMatching

namespace Kind

def ofDocument? (settled : Bool) (doc : Document) : Option Kind := do
  ofName? (← doc.word? settled)

end Kind

namespace Operator

/-- Whether the document stands for nothing: null or an empty mapping. -/
def isNothing : Document → Bool
  | .null | .mapping [] => true
  | _ => false

/-- Reads an operator of a settled document: a name, or a mapping of a name or of the number of the
operator to nothing. -/
def ofDocument? : Document → Option Operator
  | .string name => ofName? name
  | .mapping [(.string name, content)] => if isNothing content then ofName? name else none
  | .mapping [(.natural n, content)] => if isNothing content then all[n]? else none
  | _ => none

end Operator

namespace Schema

def ofDocument? (settled : Bool) (doc : Document) : Option Schema := do
  let fs ← doc.record? settled ["name", "fields"]
  let name ← fs.required "name" Document.string?
  let fields ← fs.withDefault "fields" (Document.nameMap? (Kind.ofDocument? settled)) .empty
  return ⟨name, fields⟩

def toJson (s : Schema) : Json :=
  .object [("name", .string s.name),
    ("fields", .object (s.fields.entries.map fun (name, kind) => (name, .string kind.name)))]

end Schema

/-- Reads a registry as a map from tags to schemas. -/
def SchemaRegistry.ofDocument? (settled : Bool) (doc : Document) : Option SchemaRegistry :=
  doc.nameMap? (Schema.ofDocument? settled)

namespace Clause

/-- Reads a clause. Its kind is told by a tag, so the whole of it is settled first. -/
def ofDocument? (doc : Document) : Option Clause := do
  let (kind, rest) ← (← doc.resolve?).tagged? "kind"
  match kind with
  | "literal" =>
    let fs ← rest.record? true ["field", "operator", "value"]
    return .literal (← fs.required "field" Document.string?)
      (← fs.required "operator" Operator.ofDocument?) (← fs.required "value" Document.value?)
  | "join" =>
    let fs ← rest.record? true ["field", "operator", "declaration", "declaration_field"]
    return .join (← fs.required "field" Document.string?)
      (← fs.required "operator" Operator.ofDocument?)
      (← fs.required "declaration" Document.string?)
      (← fs.required "declaration_field" Document.string?)
  | _ => none

/-- The document of a clause that compares by an operator. -/
def toJson? : Clause → Option Json
  | literal field operator value =>
    some (.object [("kind", .string "literal"), ("field", .string field),
      ("operator", .string operator.symbol), ("value", value.toLiteralJson)])
  | join field operator declaration declarationField =>
    some (.object [("kind", .string "join"), ("field", .string field),
      ("operator", .string operator.symbol), ("declaration", .string declaration),
      ("declaration_field", .string declarationField)])
  | _ => none

end Clause

namespace Pattern

def ofDocument? (settled : Bool) (doc : Document) : Option Pattern := do
  let fs ← doc.record? settled ["fact_type", "binding", "constraints"]
  let factType ← fs.required "fact_type" Document.string?
  let binding ← fs.withDefault "binding" (Document.optional? Document.string?) none
  let clauses ← fs.withDefault "constraints" (Document.list? Clause.ofDocument?) []
  return ⟨factType, binding, clauses⟩

def toJson? (p : Pattern) : Option Json := do
  let clauses ← p.clauses.mapM Clause.toJson?
  let binding := match p.binding with
    | some name => [("binding", Json.string name)]
    | none => []
  return .object ([("fact_type", .string p.factType)] ++ binding ++
    [("constraints", .array clauses)])

end Pattern

namespace Rule

def ofDocument? (settled : Bool) (doc : Document) : Option Rule := do
  let fs ← doc.record? settled ["name", "patterns"]
  let name ← fs.required "name" Document.string?
  let patterns ← fs.withDefault "patterns" (Document.list? (Pattern.ofDocument? settled)) []
  return ⟨name, patterns⟩

def toJson? (r : Rule) : Option Json := do
  let patterns ← r.patterns.mapM Pattern.toJson?
  return .object [("name", .string r.name), ("patterns", .array patterns)]

end Rule

end RuleMatching
