import RuleMatching.NameMap
import RuleMatching.Value.Basic

set_option autoImplicit false

/-! # Schemas

A `Schema` declares the fields of a type of facts. A registry files schemas under tags; registering
a schema files it under its own name, but a registry may also hold a schema under another tag. -/

namespace RuleMatching

/-- The declared fields of a type of facts. -/
structure Schema where
  name : String
  fields : NameMap Kind
deriving DecidableEq, Repr

def Schema.kind? (s : Schema) (field : String) : Option Kind := s.fields.get? field

/-- The schemas known to a network, by tag. -/
abbrev SchemaRegistry := NameMap Schema

namespace SchemaRegistry

/-- Files the schema under its own name, in place of one filed there before. -/
def register (r : SchemaRegistry) (s : Schema) : SchemaRegistry := r.insert s.name s

def ofSchemas (l : List Schema) : SchemaRegistry := l.foldl register .empty

/-- The kind of a field of the schema with the given tag. -/
def kind? (r : SchemaRegistry) (tag field : String) : Option Kind :=
  (r.get? tag).bind (·.kind? field)

end SchemaRegistry

end RuleMatching
