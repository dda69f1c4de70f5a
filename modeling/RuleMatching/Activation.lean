import RuleMatching.Arena
import RuleMatching.Json.Basic

set_option autoImplicit false

/-! # Activations

A full match of a rule that comes into being is an activation, one that ends a deactivation. An
`ActivationLog` keeps which activations are in force. -/

namespace RuleMatching

/-- A full match of a rule. -/
structure Activation where
  rule : RuleId
  ruleName : String
  tuple : TupleId
  facts : List Handle
deriving DecidableEq, Repr

inductive ActivationEvent where
  | activated (a : Activation)
  | deactivated (a : Activation)
deriving DecidableEq, Repr

namespace Activation

/-- The name of the rule and the matched facts. -/
def display (a : Activation) : String :=
  a.ruleName ++ "[" ++ ", ".intercalate (a.facts.map Handle.display) ++ "]"

def toJson (a : Activation) : Json :=
  .object [("rule", .nat a.rule), ("rule_name", .string a.ruleName),
    ("tuple", .object [("index", .nat a.tuple.index), ("generation", .nat a.tuple.generation)]),
    ("facts", .array (a.facts.map Json.nat))]

/-- Puts an activation into a list in the order of tuples, in place of one of the same tuple. -/
def insertByTuple (a : Activation) : List Activation → List Activation
  | [] => [a]
  | b :: rest =>
    match a.tuple.compare b.tuple with
    | .lt => a :: b :: rest
    | .eq => a :: rest
    | .gt => b :: insertByTuple a rest

end Activation

/-- The activations in force, in the order of their tuples, and how many have come and gone. -/
structure ActivationLog where
  active : List Activation
  activations : Nat
  deactivations : Nat
deriving Repr

namespace ActivationLog

def empty : ActivationLog := ⟨[], 0, 0⟩

/-- Takes note of an event. -/
def record (log : ActivationLog) : ActivationEvent → ActivationLog
  | .activated a =>
    { log with active := a.insertByTuple log.active, activations := log.activations + 1 }
  | .deactivated a =>
    { log with
      active := log.active.filter (·.tuple ≠ a.tuple), deactivations := log.deactivations + 1 }

/-- Takes note of the events, in order. -/
def recordAll (log : ActivationLog) (events : List ActivationEvent) : ActivationLog :=
  events.foldl record log

/-- The activations of one rule. -/
def activeFor (log : ActivationLog) (rule : String) : List Activation :=
  log.active.filter (·.ruleName == rule)

end ActivationLog

end RuleMatching
