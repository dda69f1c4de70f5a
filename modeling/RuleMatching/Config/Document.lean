import RuleMatching.Config
import RuleMatching.Document.Reader
import RuleMatching.Failure
import RuleMatching.Yaml.Document

set_option autoImplicit false

/-! # Configurations as documents -/

namespace RuleMatching

namespace Config

/-- Reads a configuration; a setting that is missing has its standard value. -/
def ofDocument? (settled : Bool) (doc : Document) : Option Config := do
  let fs ← doc.record? settled ["composite_key_depth", "skip_unaffected_updates",
    "share_alpha_nodes"]
  let keyDepth ← fs.withDefault "composite_key_depth" Document.nat? standard.keyDepth
  let skipUnaffected ←
    fs.withDefault "skip_unaffected_updates" Document.boolean? standard.skipUnaffected
  let shareTests ← fs.withDefault "share_alpha_nodes" Document.boolean? standard.shareTests
  return ⟨keyDepth, skipUnaffected, shareTests⟩

/-- Checks a configuration on its own. -/
def checked (c : Config) : Except Failure Config :=
  match c.validate with
  | .ok () => .ok c
  | .error e => .error ⟨[], .build e⟩

/-- The configuration of a YAML text. -/
def ofYaml (text : String) : Except Failure Config :=
  match (Document.ofYaml? text).bind (ofDocument? false) with
  | some c => c.checked
  | none => .error ⟨[.parseConfig], .malformed⟩

end Config

end RuleMatching
