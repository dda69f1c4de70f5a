import RuleMatching.Fact
import RuleMatching.Operator

set_option autoImplicit false

/-! # Errors

What can go wrong when rules are compiled (`BuildError`), when a field is read (`ReadError`) and
when a session is addressed (`ConsistencyError`); `EngineError` is any of these with its place. Each
kind has its wording in one function `message`. -/

namespace RuleMatching

/-- The number of a node of the network. -/
abbrev NodeId := Nat

/-- The number of a rule of the network. -/
abbrev RuleId := Nat

/-- The written form of a node's number. -/
def NodeId.display (n : NodeId) : String := "n" ++ toString n

/-- The written form of a rule's number. -/
def RuleId.display (r : RuleId) : String := "r" ++ toString r

/-- Why rules do not compile. -/
inductive BuildError where
  | emptyRule (rule : String)
  | duplicateRule (rule : String)
  | unknownFactType (rule factType : String)
  | unknownField (factType field : String)
  | unboundDeclaration (rule : String) (pattern : Nat) (declaration : String)
  | duplicateDeclaration (rule declaration : String)
  | unsupportedOperator (field : String) (operator : Operator) (kind : Kind)
  | literalTypeMismatch (field : String) (literal : Value) (kind : Kind)
  | operandTypeMismatch (left : String) (leftKind : Kind) (right : String) (rightKind : Kind)
  | invalidConfig (setting reason : String)
deriving DecidableEq, Repr

namespace BuildError

/-- The text between single quotes. -/
def quoted (s : String) : String := "'" ++ s ++ "'"

def message : BuildError → String
  | emptyRule rule => "rule " ++ quoted rule ++ " has no patterns"
  | duplicateRule rule => "rule name " ++ quoted rule ++ " is used more than once"
  | unknownFactType rule factType =>
    "rule " ++ quoted rule ++ " refers to unknown fact type " ++ quoted factType
  | unknownField factType field =>
    "fact type " ++ quoted factType ++ " has no field " ++ quoted field
  | unboundDeclaration rule pattern declaration =>
    "rule " ++ quoted rule ++ " pattern " ++ toString pattern ++ " refers to declaration "
      ++ quoted declaration ++ " which is not bound by an earlier pattern"
  | duplicateDeclaration rule declaration =>
    "rule " ++ quoted rule ++ " binds declaration " ++ quoted declaration ++ " more than once"
  | unsupportedOperator field operator kind =>
    "operator " ++ quoted operator.symbol ++ " is not supported for " ++ kind.name ++ " field "
      ++ quoted field
  | literalTypeMismatch field literal kind =>
    "literal " ++ literal.display ++ " cannot be compared with " ++ kind.name ++ " field "
      ++ quoted field
  | operandTypeMismatch left leftKind right rightKind =>
    leftKind.name ++ " field " ++ quoted left ++ " cannot be compared with " ++ rightKind.name
      ++ " field " ++ quoted right
  | invalidConfig setting reason =>
    "invalid configuration for " ++ quoted setting ++ ": " ++ reason

end BuildError

/-- Why a field of a fact cannot be read. -/
inductive ReadError where
  /-- The field holds a value that its declared kind does not accept. -/
  | fieldTypeMismatch (factType field : String) (expected : Kind) (actual : String)
  /-- The fact is of another type than the field belongs to. -/
  | wrongFactType (field expected actual : String)
deriving DecidableEq, Repr

def ReadError.message : ReadError → String
  | fieldTypeMismatch factType field expected actual =>
    "field '" ++ field ++ "' of " ++ factType ++ " holds a " ++ actual ++ " value, declared "
      ++ expected.name
  | wrongFactType field expected actual =>
    "accessor for " ++ expected ++ "." ++ field ++ " applied to a " ++ actual ++ " fact"

/-- A read error with the node that reads the field. -/
structure NodeFailure where
  node : NodeId
  cause : ReadError
deriving DecidableEq, Repr

/-- A call that does not fit the state of the session, or a state that does not fit itself. -/
inductive ConsistencyError where
  | unknownHandle (handle : Handle)
  | duplicateHandle (handle : Handle)
  | staleHandle (handle last : Handle)
  | missingMemoryEntry (node : NodeId) (handle : Handle)
  | missingIndexKey (node : NodeId) (handle : Handle)
deriving DecidableEq, Repr

namespace ConsistencyError

def message : ConsistencyError → String
  | unknownHandle h => "fact handle " ++ Handle.display h ++ " is not present in working memory"
  | duplicateHandle h => "fact handle " ++ Handle.display h ++ " is already live in working memory"
  | staleHandle h last =>
    "fact handle " ++ Handle.display h ++ " is not greater than the last issued handle "
      ++ Handle.display last
  | missingMemoryEntry n h =>
    "node " ++ NodeId.display n ++ " has no memory entry for fact " ++ Handle.display h
  | missingIndexKey n h =>
    "hashed memory of node " ++ NodeId.display n ++ " was given no key while propagating fact "
      ++ Handle.display h

def handle : ConsistencyError → Handle
  | unknownHandle h | duplicateHandle h | staleHandle h _ | missingMemoryEntry _ h
  | missingIndexKey _ h => h

/-- Whether the error shows that the memories of the session contradict each other. -/
def isInternal : ConsistencyError → Bool
  | missingMemoryEntry .. | missingIndexKey .. => true
  | _ => false

end ConsistencyError

inductive Severity where
  | low
  | medium
  | high
  | critical
deriving DecidableEq, Repr

def Severity.name : Severity → String
  | low => "LOW"
  | medium => "MEDIUM"
  | high => "HIGH"
  | critical => "CRITICAL"

/-- Any error of the engine. -/
inductive EngineError where
  | build (cause : BuildError)
  | propagation (handle : Handle) (failure : NodeFailure)
  | consistency (cause : ConsistencyError)
deriving DecidableEq, Repr

namespace EngineError

def message : EngineError → String
  | build cause => "Build error: " ++ cause.message
  | propagation handle failure =>
    "Propagation error at node " ++ NodeId.display failure.node ++ " for fact " ++
      Handle.display handle ++ ": " ++ failure.cause.message
  | consistency cause => "Consistency error: " ++ cause.message

def category : EngineError → String
  | build _ => "build"
  | propagation .. => "propagation"
  | consistency _ => "consistency"

def severity : EngineError → Severity
  | build (.invalidConfig ..) => .critical
  | build _ => .high
  | propagation .. => .medium
  | consistency cause => if cause.isInternal then .critical else .low

/-- Whether the session can go on after the error. -/
def isRecoverable : EngineError → Bool
  | build _ => false
  | propagation .. => true
  | consistency cause => !cause.isInternal

/-- The fact that the error is about. -/
def handle? : EngineError → Option Handle
  | build _ => none
  | propagation handle _ => some handle
  | consistency cause => some cause.handle

end EngineError

end RuleMatching
