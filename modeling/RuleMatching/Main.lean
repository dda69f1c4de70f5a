import RuleMatching.CommandLine.Folder
import RuleMatching.CommandLine.Run

set_option autoImplicit false

/-! # The program

Reads the files and variables that the command line asks for, and prints the answer. -/

namespace RuleMatching

namespace Program

/-- The text of a file, or the reason why it cannot be read. -/
def readFile (path : String) : IO (Except String String) := do
  try
    return .ok (← IO.FS.readFile path)
  catch e =>
    return .error (match e with
      | .noFileOrDirectory .. => FileError.missing.message
      | e => toString e)

/-- How the program is called. -/
def usage : String :=
  "Usage: [OPTIONS] replay|inspect --scenario FILE [--config FILE]\n\n"
    ++ "Options: -v, --verbose; --json-logs; -f, --format text|json; -h, --help; -V, --version"

/-- The answer to arguments that are not carried out: a text, and the code of the exit. -/
def usageAnswer : UsageError → String × UInt32
  | .help => (usage, 0)
  | .version => ("0.1.0", 0)
  | _ => (usage, 2)

/-- Carries out a command line. -/
def execute (c : CommandLine) : IO (Except Failure String) := do
  let texts ← (c.scenario :: c.config.toList).mapM fun path => do return (path, ← readFile path)
  let names := [Config.keyDepthName, Config.skipUnaffectedName, Config.shareTestsName]
  let values ← names.mapM fun name => do return (name, ← IO.getEnv name)
  let read (path : String) : Except String String :=
    (texts.lookup path).getD (.error FileError.missing.message)
  return c.run read fun name => (values.lookup name).join

end Program

end RuleMatching

open RuleMatching in
def main (arguments : List String) : IO UInt32 := do
  match CommandLine.ofArguments arguments with
  | .error e =>
    let (text, code) := Program.usageAnswer e
    if code = 0 then IO.println text else IO.eprintln text
    return code
  | .ok c =>
    match ← Program.execute c with
    | .ok text =>
      IO.println text
      return 0
    | .error e =>
      IO.eprintln ("Error: " ++ e.message)
      return 1
