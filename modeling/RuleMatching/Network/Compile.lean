import RuleMatching.Network.Basic

set_option autoImplicit false

/-! # Compilation of rules

`Network.build` checks a list of rules against the schemas and makes their network. The clauses of a
pattern are resolved in order, and the first that cannot be is reported. Nodes are numbered as they
come: the entries of a rule, its terminal, and then what is new on the routes to its entries. -/

namespace RuleMatching

/-! ## Patterns -/

/-- A pattern with its clauses resolved: the tests of its fact alone and those that join it. -/
structure CompiledPattern where
  factType : String
  fieldTests : List FieldTest
  joinTests : List JoinTest

/-- A pattern bound to a name: its position and the schema of its facts. -/
structure Binding where
  name : String
  position : Nat
  schema : Schema

namespace Compile

/-- Refuses an ordering operator on a kind without order. -/
def checkOperator (a : Accessor) (op : Operator) : Except BuildError Unit :=
  if op.isOrdering && !a.kind.isOrdered then .error (.unsupportedOperator a.display op a.kind)
  else .ok ()

/-- Refuses to compare fields of unrelated kinds. -/
def checkOperands (a b : Accessor) : Except BuildError Unit :=
  if a.kind.isComparableWith b.kind then .ok ()
  else .error (.operandTypeMismatch a.display a.kind b.display b.kind)

/-- Resolves a field of the fact that an earlier pattern has bound. -/
def resolveDeclaration (rule : String) (position : Nat) (bindings : List Binding)
    (name field : String) : Except BuildError Declaration :=
  match bindings.find? (·.name == name) with
  | some b => do return ⟨name, b.position, ← Accessor.resolve b.schema field⟩
  | none => .error (.unboundDeclaration rule position name)

/-- The pattern with one more clause, which is resolved against the schema of the pattern and the
bindings of earlier patterns. -/
def addClause (rule : String) (position : Nat) (schema : Schema) (bindings : List Binding)
    (p : CompiledPattern) (clause : Clause) : Except BuildError CompiledPattern := do
  let accessor ← Accessor.resolve schema clause.field
  match clause with
  | .literal _ op value =>
    checkOperator accessor op
    match value.coerce? accessor.kind with
    | some v => return { p with fieldTests := p.fieldTests ++ [.literal accessor op v] }
    | none => throw (.literalTypeMismatch accessor.display value accessor.kind)
  | .valueTest _ test => return { p with fieldTests := p.fieldTests ++ [.named accessor test] }
  | .join _ op name field =>
    let declaration ← resolveDeclaration rule position bindings name field
    checkOperator accessor op
    checkOperands accessor declaration.accessor
    return { p with joinTests := p.joinTests ++ [.compare accessor op declaration] }
  | .relation _ name field relation =>
    let declaration ← resolveDeclaration rule position bindings name field
    return { p with joinTests := p.joinTests ++ [.related accessor declaration relation] }

/-- The bindings with that of the pattern at the given position, if it has one. -/
def addBinding (rule : String) (position : Nat) (schema : Schema) (bindings : List Binding)
    (name : Option String) : Except BuildError (List Binding) :=
  match name with
  | none => .ok bindings
  | some name =>
    if bindings.any (·.name == name) then .error (.duplicateDeclaration rule name)
    else .ok (⟨name, position, schema⟩ :: bindings)

/-- Resolves the patterns from the given position on. -/
def compilePatterns (schemas : SchemaRegistry) (rule : String) (position : Nat)
    (bindings : List Binding) : List Pattern → Except BuildError (List CompiledPattern)
  | [] => .ok []
  | p :: rest => do
    match schemas.get? p.factType with
    | none => throw (.unknownFactType rule p.factType)
    | some schema =>
      let compiled ← p.clauses.foldlM (addClause rule position schema bindings) ⟨p.factType, [], []⟩
      -- A pattern cannot refer to itself, so its name is bound after its clauses are resolved.
      let bindings ← addBinding rule position schema bindings p.binding
      return compiled :: (← compilePatterns schemas rule (position + 1) bindings rest)

end Compile

/-! ## Nodes -/

/-- A network under construction. -/
structure Builder where
  nextNode : NodeId
  objectTypes : FiniteMap String ObjectType
  rules : List CompiledRule
  sharing : SharingIndex

namespace Builder

def empty : Builder := ⟨0, .empty, [], .empty⟩

/-- The reads that the tests of the join at `node` and `position` make: for each test a read of the
candidate and one of a bound fact, with the position of the pattern that is read. -/
def readsOf (node : NodeId) (position : Nat) (tests : List JoinTest) : List (Nat × FieldRead) :=
  tests.flatMap fun t =>
    [(position, ⟨node, t.accessor⟩), (t.declaration.pattern, ⟨node, t.declaration.accessor⟩)]

/-- All reads that the joins of a rule make, in order; its entries are numbered from `node` on. -/
def readsFrom (node : NodeId) (position : Nat) : List CompiledPattern → List (Nat × FieldRead)
  | [] => []
  | p :: rest => readsOf node position p.joinTests ++ readsFrom (node + 1) (position + 1) rest

/-- The reads of one pattern's fact, each once. -/
def readsAt (reads : List (Nat × FieldRead)) (position : Nat) : List FieldRead :=
  ((reads.filter (·.1 == position)).map Prod.snd).eraseDups

/-- The joins of the patterns from the given position on. -/
def joinsFrom (depth : Nat) (reads : List (Nat × FieldRead)) (node : NodeId) (position : Nat) :
    List CompiledPattern → List Entry
  | [] => []
  | p :: rest =>
    ⟨node, position, p.factType, .ofTests p.joinTests depth, readsAt reads position⟩
      :: joinsFrom depth reads (node + 1) (position + 1) rest

/-- The node below `parent` that already evaluates the test, if tests are shared. -/
def findShared (share : Bool) (b : Builder) (parent : NodeId) (t : FieldTest) :
    Option NodeId × Builder :=
  match share, t.signature? with
  | true, some s =>
    let (found, sharing) := b.sharing.find parent s
    (found, { b with sharing })
  | _, _ => (none, b)

/-- A new node below `parent` for the test. -/
def newTest (share : Bool) (b : Builder) (parent : NodeId) (t : FieldTest) : NodeId × Builder :=
  let node := b.nextNode
  let sharing := match share, t.signature? with
    | true, some s => b.sharing.register parent s node
    | _, _ => b.sharing.recordUnshared
  (node, { b with nextNode := node + 1, sharing })

/-- Leads the facts that pass the tests from the level below `parent` to the entry. -/
def addRoute (share : Bool) (entry parent : NodeId) (b : Builder) (level : Routes) :
    List FieldTest → Builder × Routes
  | [] => (b, level.append (.entry entry .nil))
  | t :: rest =>
    match findShared share b parent t with
    | (some node, b) =>
      let (b, below) := addRoute share entry node b (level.under node) rest
      (b, level.setUnder node below)
    | (none, b) =>
      let (node, b) := newTest share b parent t
      let (b, below) := addRoute share entry node b .nil rest
      (b, level.append (.test node t below .nil))

/-- The node of a type of facts, made if it is not there yet. -/
def objectType (b : Builder) (factType : String) : ObjectType × Builder :=
  match b.objectTypes.get? factType with
  | some o => (o, b)
  | none => (⟨b.nextNode, .nil⟩, { b with nextNode := b.nextNode + 1 })

/-- Leads the facts of the pattern to the entry. -/
def addPattern (share : Bool) (b : Builder) (entry : NodeId) (p : CompiledPattern) : Builder :=
  let (o, b) := b.objectType p.factType
  let (b, routes) := addRoute share entry o.node b o.routes p.fieldTests
  { b with objectTypes := b.objectTypes.insert p.factType { o with routes } }

/-- Leads the facts of the patterns to entries numbered from `node` on. -/
def addPatterns (share : Bool) (b : Builder) (node : NodeId) : List CompiledPattern → Builder
  | [] => b
  | p :: rest => addPatterns share (addPattern share b node p) (node + 1) rest

/-- Adds the nodes of a rule with at least one pattern. -/
def addCompiled (config : Config) (b : Builder) (name : String) (first : CompiledPattern)
    (rest : List CompiledPattern) : Builder :=
  let node := b.nextNode
  let patterns := first :: rest
  let reads := readsFrom node 0 patterns
  let adapter : Entry := ⟨node, 0, first.factType, .empty, readsAt reads 0⟩
  let rule : CompiledRule :=
    ⟨b.rules.length, name, adapter, joinsFrom config.keyDepth reads (node + 1) 1 rest,
      node + patterns.length⟩
  -- The entries and the terminal are numbered before the tests on the routes to the entries.
  let b := { b with nextNode := node + patterns.length + 1, rules := b.rules ++ [rule] }
  addPatterns config.shareTests b node patterns

/-- Adds a rule. -/
def addRule (schemas : SchemaRegistry) (config : Config) (b : Builder) (rule : Rule) :
    Except BuildError Builder :=
  if b.rules.any (·.name == rule.name) then .error (.duplicateRule rule.name)
  else if rule.patterns.isEmpty then .error (.emptyRule rule.name)
  else do
    match ← Compile.compilePatterns schemas rule.name 0 [] rule.patterns with
    | [] => throw (.emptyRule rule.name)
    | first :: rest => return addCompiled config b rule.name first rest

end Builder

namespace Network

/-- Compiles the rules, in order. -/
def build (rules : List Rule) (schemas : SchemaRegistry) (config : Config) :
    Except BuildError Network := do
  config.validate
  let b ← rules.foldlM (Builder.addRule schemas config) .empty
  return ⟨b.objectTypes, b.rules, config, schemas, b.sharing.counts, b.nextNode⟩

end Network

end RuleMatching
