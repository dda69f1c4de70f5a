import RuleMatching.Error
import RuleMatching.Value.Json

set_option autoImplicit false

/-! # Failures

A `Failure` ends what the program was asked to do. Its cause stands in the contexts in which it
arose, the outermost first, and its message names them all. -/

namespace RuleMatching

/-- What was being done. -/
inductive Activity where
  | readScenario (path : String)
  | loadScenario (path : String)
  | parseScenario
  | readConfig (path : String)
  | parseConfig
  | compileRules
  | replayEvent (step : Nat) (operation : String)
  | convertField (factType field : String)
deriving DecidableEq, Repr

def Activity.message : Activity → String
  | readScenario path => "Failed to read scenario '" ++ path ++ "'"
  | loadScenario path => "Invalid scenario '" ++ path ++ "'"
  | parseScenario => "Failed to parse scenario"
  | readConfig path => "Failed to read configuration file '" ++ path ++ "'"
  | parseConfig => "Failed to parse network configuration"
  | compileRules => "Failed to compile scenario rules"
  | replayEvent step operation => "Event " ++ toString step ++ " (" ++ operation ++ ")"
  | convertField factType field => "Field '" ++ factType ++ "." ++ field ++ "'"

/-- What went wrong. -/
inductive Cause where
  /-- A text is not a document of the form that is expected. -/
  | malformed
  /-- A file cannot be read, for the given reason. -/
  | unreadable (reason : String)
  | build (error : BuildError)
  | content (error : ContentError)
  /-- An event introduces an identifier that names a fact already. -/
  | identifierInUse (id : String)
  /-- An event refers to an identifier that names no fact. -/
  | unknownIdentifier (id : String)
  /-- An identifier names a handle without a fact. -/
  | missingFact (id : String)
deriving Repr

def Cause.message : Cause → String
  | malformed => "malformed document"
  | unreadable reason => reason
  | build error => error.message
  | content error => error.message
  | identifierInUse id => "Fact id '" ++ id ++ "' is already in use"
  | unknownIdentifier id => "Unknown fact id '" ++ id ++ "'"
  | missingFact id => "Fact '" ++ id ++ "' is not in working memory"

/-- A cause in its contexts, the outermost first. -/
structure Failure where
  contexts : List Activity
  cause : Cause
deriving Repr

namespace Failure

/-- The failure with one more context around it. -/
def during (activity : Activity) (f : Failure) : Failure :=
  { f with contexts := activity :: f.contexts }

/-- The contexts and, last, a text for the cause. -/
def messageWith (causeText : Cause → String) (f : Failure) : String :=
  ": ".intercalate (f.contexts.map Activity.message ++ [causeText f.cause])

def message (f : Failure) : String := f.messageWith Cause.message

end Failure

end RuleMatching
