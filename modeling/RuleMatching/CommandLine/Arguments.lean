set_option autoImplicit false

/-! # Arguments

`CommandLine.ofArguments` reads the arguments of the program: options, a command, and the options
of the command. Arguments are read from left to right, and the first thing that is wrong is
reported; the value of an option is looked at only when the next option comes or the arguments of
its level end. -/

namespace RuleMatching

inductive Format where
  | text
  | json
deriving DecidableEq, Repr

def Format.ofName? (name : String) : Option Format :=
  if name = "text" then some .text else if name = "json" then some .json else none

inductive Command where
  | replay
  | inspect
deriving DecidableEq, Repr

def Command.ofName? (name : String) : Option Command :=
  if name = "replay" then some .replay else if name = "inspect" then some .inspect else none

/-- Why arguments are not carried out. Being asked for help or for the version counts as well. -/
inductive UsageError where
  | help
  | version
  /-- There is no argument at all. -/
  | nothingAsked
  | missingCommand
  | unknownCommand
  | unknownArgument
  /-- A required option is missing. -/
  | missingOption
  /-- An option has no value or a wrong one. -/
  | invalidValue
  /-- An option that takes no value has one. -/
  | unexpectedValue
  /-- An option is given twice. -/
  | repeatedOption
deriving DecidableEq, Repr

/-- The options. -/
inductive Setting where
  | scenario
  | config
  | format
  | verbose
  | jsonLogs
  | help
  | version
deriving DecidableEq, Repr

/-- Where an option may stand: before the command or after it. -/
inductive Level where
  | program
  | command
deriving DecidableEq, Repr

namespace Setting

def takesValue : Setting → Bool
  | scenario | config | format => true
  | _ => false

def isAllowed (level : Level) : Setting → Bool
  | scenario | config => level = .command
  | version => level = .program
  | _ => true

def all : List Setting := [scenario, config, format, verbose, jsonLogs, help, version]

/-- The option after two dashes. -/
def name : Setting → String
  | scenario => "scenario"
  | config => "config"
  | format => "format"
  | verbose => "verbose"
  | jsonLogs => "json-logs"
  | help => "help"
  | version => "version"

/-- The letter of the option after one dash. -/
def letter? : Setting → Option Char
  | scenario => some 's'
  | config => some 'c'
  | format => some 'f'
  | verbose => some 'v'
  | jsonLogs => none
  | help => some 'h'
  | version => some 'V'

def ofName? (level : Level) (name : String) : Option Setting :=
  all.find? fun o => o.isAllowed level && o.name == name

def ofLetter? (level : Level) (c : Char) : Option Setting :=
  all.find? fun o => o.isAllowed level && o.letter? == some c

end Setting

/-- The options given on one level. -/
structure Given where
  scenario : Option String := none
  config : Option String := none
  format : Option Format := none
  verbose : Bool := false
  jsonLogs : Bool := false

/-- The reading of one level of arguments: what has been accepted, and the last option that takes a
value with the value, if it came already. -/
structure Reading where
  given : Given := {}
  pending : Option (Setting × Option String) := none

namespace Reading

/-- A path; an empty one is none. -/
def path? (value : String) : Except UsageError String :=
  if value.isEmpty then .error .invalidValue else .ok value

/-- Accepts an option with its value. -/
def accept (g : Given) (o : Setting) (value : String) : Except UsageError Given :=
  match o with
  | .scenario =>
    if g.scenario.isSome then .error .repeatedOption
    else (path? value).map fun path => { g with scenario := some path }
  | .config =>
    if g.config.isSome then .error .repeatedOption
    else (path? value).map fun path => { g with config := some path }
  | .format =>
    if g.format.isSome then .error .repeatedOption
    else
      match Format.ofName? value with
      | some f => .ok { g with format := some f }
      | none => .error .invalidValue
  | _ => .error .unexpectedValue

/-- Accepts the pending option. -/
def settle (r : Reading) : Except UsageError Reading :=
  match r.pending with
  | none => .ok r
  | some (_, none) => .error .invalidValue
  | some (o, some value) => (accept r.given o value).map fun g => ⟨g, none⟩

/-- Reads an option that takes no value. -/
def switch (r : Reading) (o : Setting) : Except UsageError Reading := do
  let r ← r.settle
  let g := r.given
  match o with
  | .help => .error .help
  | .version => .error .version
  | .verbose =>
    if g.verbose then .error .repeatedOption
    else return { r with given := { g with verbose := true } }
  | .jsonLogs =>
    if g.jsonLogs then .error .repeatedOption
    else return { r with given := { g with jsonLogs := true } }
  | _ => .error .invalidValue

/-- Reads an option with the value that is attached to it. -/
def attach (r : Reading) (o : Setting) (value : String) : Except UsageError Reading := do
  let r ← r.settle
  return ⟨← accept r.given o value, none⟩

/-- Reads an option whose value is the next argument. -/
def await (r : Reading) (o : Setting) : Except UsageError Reading := do
  return { ← r.settle with pending := some (o, none) }

/-- Reads an option by its name, with the text after the sign of equality, if there is one. -/
def long (level : Level) (r : Reading) (name : String) (value : Option String) :
    Except UsageError Reading :=
  match Setting.ofName? level name, value with
  | none, _ => .error .unknownArgument
  | some o, some value => if o.takesValue then r.attach o value else .error .unexpectedValue
  | some o, none => if o.takesValue then r.await o else r.switch o

/-- Reads options by their letters. After one that takes a value the rest is the value. -/
def letters (level : Level) (r : Reading) : List Char → Except UsageError Reading
  | [] => .ok r
  | c :: rest =>
    match Setting.ofLetter? level c with
    | none => .error .unknownArgument
    | some o =>
      if o.takesValue then
        match rest with
        | [] => r.await o
        | '=' :: value => r.attach o (String.ofList value)
        | value => r.attach o (String.ofList value)
      else do letters level (← r.switch o) rest

/-- Splits the text after two dashes at its first sign of equality. -/
def splitName (cs : List Char) : String × Option String :=
  let (name, rest) := cs.span (· != '=')
  (String.ofList name, match rest with
    | _ :: value => some (String.ofList value)
    | [] => none)

/-- The error for an argument that is neither an option nor the value of one. -/
def misplaced (level : Level) (afterDashes : Bool) (argument : String) : UsageError :=
  match level with
  | .command => .unknownArgument
  | .program =>
    if afterDashes && ((Command.ofName? argument).isSome || argument == "help")
      then .unknownArgument
    else .unknownCommand

/-- The answer to a request for help on a command: at most one may be named. -/
def helpOn (arguments : List String) : UsageError :=
  match arguments with
  | [] => .help
  | [name] => if (Command.ofName? name).isSome || name == "help" then .help else .unknownCommand
  | _ => .unknownCommand

/-- Whether the option that came last still needs a value. -/
def isAwaiting (r : Reading) : Bool :=
  match r.pending with
  | some (_, none) => true
  | _ => false

/-- Takes a value for the option that came last. -/
def take (r : Reading) (value : String) : Reading :=
  { r with pending := r.pending.map fun (o, _) => (o, some value) }

/-- Reads the arguments of one level, up to a command and what comes after it. Two dashes alone
end the options. -/
def arguments (level : Level) (r : Reading) :
    List String → Except UsageError (Reading × Option (Command × List String))
  | [] => .ok (r, none)
  | a :: rest =>
    let command? := if level = .program && !r.isAwaiting then Command.ofName? a else none
    match command? with
    | some command => .ok (r, some (command, rest))
    | none =>
      if level = .program && !r.isAwaiting && a == "help" then .error (helpOn rest)
      else
        match a.toList with
        | ['-', '-'] =>
          match rest with
          | [] => .ok (r, none)
          | b :: _ => .error (misplaced level true b)
        | '-' :: '-' :: cs => do
          let (name, value) := splitName cs
          arguments level (← r.long level name value) rest
        | '-' :: c :: cs => do arguments level (← r.letters level (c :: cs)) rest
        | _ =>
          if r.isAwaiting then arguments level (r.take a) rest
          else .error (misplaced level false a)

end Reading

/-- What the program is asked to do. -/
structure CommandLine where
  command : Command
  scenario : String
  config : Option String
  format : Format
  verbose : Bool
  jsonLogs : Bool
deriving DecidableEq, Repr

namespace CommandLine

/-- The error for arguments that name no command. -/
def withoutCommand (g : Given) : UsageError :=
  if g.format.isNone && !g.verbose && !g.jsonLogs then .nothingAsked else .missingCommand

/-- Reads the arguments. An option that may stand on both levels counts from the deeper one. -/
def ofArguments (arguments : List String) : Except UsageError CommandLine := do
  let (outer, found) ← Reading.arguments .program {} arguments
  match found with
  | none => throw (withoutCommand (← outer.settle).given)
  | some (command, rest) =>
    let (inner, _) ← Reading.arguments .command {} rest
    let inner := (← inner.settle).given
    match inner.scenario with
    | none => throw .missingOption
    | some scenario =>
      let outer := (← outer.settle).given
      return {
        command
        scenario
        config := inner.config
        format := ((inner.format <|> outer.format).getD .text)
        verbose := outer.verbose || inner.verbose
        jsonLogs := outer.jsonLogs || inner.jsonLogs }

end CommandLine

end RuleMatching
