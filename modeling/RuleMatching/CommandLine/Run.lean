import RuleMatching.CommandLine.Arguments
import RuleMatching.Scenario.Report

set_option autoImplicit false

/-! # Carrying out the command line

`CommandLine.run` gives the text that the program prints. What it needs from outside comes as two
functions: one reads the text of a file or gives the reason why it cannot be read, the other looks
up a variable of the environment. -/

namespace RuleMatching

namespace CommandLine

/-- Reads a scenario from a file. -/
def loadScenario (read : String → Except String String) (path : String) : Except Failure Scenario :=
  match read path with
  | .error reason => .error ⟨[.readScenario path], .unreadable reason⟩
  | .ok text => (Scenario.ofYaml text).mapError (·.during (.loadScenario path))

/-- Reads a configuration from a file. -/
def loadConfig (read : String → Except String String) (path : String) : Except Failure Config :=
  match read path with
  | .error reason => .error ⟨[.readConfig path], .unreadable reason⟩
  | .ok text => Config.ofYaml text

/-- The configuration that counts: that of the file, else that of the scenario, else the standard
one, with the settings of the environment in place of its own. -/
def chooseConfig (read : String → Except String String) (lookup : String → Option String)
    (s : Scenario) (file : Option String) : Except Failure Config := do
  let base ← match file with
    | some path => loadConfig read path
    | none => .ok (s.config.getD .standard)
  (base.withOverrides lookup).checked

/-- What the program prints. -/
def run (read : String → Except String String) (lookup : String → Option String) (c : CommandLine) :
    Except Failure String := do
  let s ← loadScenario read c.scenario
  let net ← s.network (← chooseConfig read lookup s c.config)
  match c.command with
  | .replay =>
    let report ← net.replay s.events
    return match c.format with
      | .json => report.toJson.pretty
      | .text => report.text
  | .inspect =>
    return match c.format with
      | .json => (Json.array (net.summaries.map NodeSummary.toJson)).pretty
      | .text => NodeSummary.layout net.summaries

end CommandLine

end RuleMatching
