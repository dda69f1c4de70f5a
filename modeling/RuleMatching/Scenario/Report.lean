import RuleMatching.Scenario.Replay

set_option autoImplicit false

/-! # Reports on replays -/

namespace RuleMatching

namespace StepOutcome

def toJson (o : StepOutcome) : Json :=
  .object ([("step", .nat o.step), ("op", .string o.operation), ("id", .string o.id),
    ("handle", .nat o.handle), ("activated", .array (o.activated.map Activation.toJson)),
    ("deactivated", .array (o.deactivated.map Activation.toJson))]
    ++ match o.error with
      | some e => [("error", .string e.message)]
      | none => [])

/-- What the step has changed: the matches that ended, then those that came into being. -/
def changes (o : StepOutcome) : String :=
  if o.activated.isEmpty && o.deactivated.isEmpty then " no change"
  else
    String.join (o.deactivated.map fun a => " -" ++ a.display)
      ++ String.join (o.activated.map fun a => " +" ++ a.display)

/-- The line of the step in a report. -/
def line (o : StepOutcome) : String :=
  "[" ++ toString o.step ++ "] " ++ o.operation ++ " " ++ o.id ++ " (" ++
    Handle.display o.handle ++ "):"
    ++ match o.error with
      | some e => " error: " ++ e.message
      | none => o.changes

end StepOutcome

namespace ReplayReport

/-- The number of steps that an error has stopped. -/
def errorCount (r : ReplayReport) : Nat := (r.steps.filter (·.error.isSome)).length

def toJson (r : ReplayReport) : Json :=
  .object [("steps", .array (r.steps.map StepOutcome.toJson)),
    ("active", .array (r.active.map Activation.toJson)), ("stats", r.statistics.toJson)]

/-- The report as a text: the steps, the matches at the end and the statistics. -/
def text (r : ReplayReport) : String :=
  String.join (r.steps.map fun o => o.line ++ "\n") ++ "\nActive matches: " ++
    toString r.active.length ++ "\n" ++
    String.join (r.active.map fun a => "  " ++ a.display ++ "\n") ++ "\n" ++ r.statistics.report

end ReplayReport

end RuleMatching
