import RuleMatching.Config.Document
import RuleMatching.Network.Compile
import RuleMatching.Rule.Document

set_option autoImplicit false

/-! # Scenarios

A `Scenario` holds types of facts, rules, perhaps a configuration, and events to be replayed. Events
name facts by identifiers of their own. -/

namespace RuleMatching

/-- What happens to a fact. Fields are raw documents that become values when the
event is replayed. -/
inductive Scenario.Event where
  | insert (id factType : String) (fields : NameMap Json)
  /-- Without a type the fact keeps the one that it has. -/
  | update (id : String) (factType : Option String) (fields : NameMap Json)
  | delete (id : String)

structure Scenario where
  config : Option Config
  schemas : List Schema
  rules : List Rule
  events : List Scenario.Event

namespace Scenario

namespace Event

/-- The name of what happens. -/
def operation : Event → String
  | insert .. => "insert"
  | update .. => "update"
  | delete .. => "delete"

/-- The identifier of the fact that it happens to. -/
def id : Event → String
  | insert id .. | update id .. | delete id => id

/-- Reads the fields of a fact. -/
def fields? (doc : Document) : Option (NameMap Json) := do
  match (← doc.json?).canonical with
  | .object members => return .ofList members
  | _ => none

/-- Reads an event. What happens is told by a tag, so the whole of it is settled first. -/
def ofDocument? (doc : Document) : Option Event := do
  let (operation, rest) ← (← doc.resolve?).tagged? "op"
  match operation with
  | "insert" =>
    let fs ← rest.record? true ["id", "fact_type", "fields"]
    return insert (← fs.required "id" Document.string?) (← fs.required "fact_type" Document.string?)
      (← fs.withDefault "fields" fields? .empty)
  | "update" =>
    let fs ← rest.record? true ["id", "fact_type", "fields"]
    return update (← fs.required "id" Document.string?)
      (← fs.withDefault "fact_type" (Document.optional? Document.string?) none)
      (← fs.withDefault "fields" fields? .empty)
  | "delete" =>
    let fs ← rest.record? true ["id"]
    return delete (← fs.required "id" Document.string?)
  | _ => none

end Event

/-- Reads a scenario; what is missing is empty. -/
def ofDocument? (settled : Bool) (doc : Document) : Option Scenario := do
  let fs ← doc.record? settled ["config", "types", "rules", "events"]
  let config ← fs.withDefault "config" (Document.optional? (Config.ofDocument? settled)) none
  let schemas ← fs.withDefault "types" (Document.list? (Schema.ofDocument? settled)) []
  let rules ← fs.withDefault "rules" (Document.list? (Rule.ofDocument? settled)) []
  let events ← fs.withDefault "events" (Document.list? Event.ofDocument?) []
  return ⟨config, schemas, rules, events⟩

/-- The scenario of a YAML text. -/
def ofYaml (text : String) : Except Failure Scenario :=
  match (Document.ofYaml? text).bind (ofDocument? false) with
  | some s => .ok s
  | none => .error ⟨[.parseScenario], .malformed⟩

/-- The network of the scenario's rules, compiled with the given configuration. -/
def network (s : Scenario) (config : Config) : Except Failure Network :=
  match Network.build s.rules (.ofSchemas s.schemas) config with
  | .ok net => .ok net
  | .error e => .error ⟨[.compileRules], .build e⟩

end Scenario

end RuleMatching
