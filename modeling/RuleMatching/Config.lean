import RuleMatching.Error
import RuleMatching.Json.Basic

set_option autoImplicit false

/-! # Configuration

A network is compiled with a limit on the length of index keys and two switches. Settings come
from a document and can be overridden one by one by named texts; a text that is no value of its
setting is ignored. -/

namespace RuleMatching

structure Config where
  /-- How many tests of a join its index may decide. -/
  keyDepth : Nat
  /-- Whether an update passes by the entries that none of its changes concerns. -/
  skipUnaffected : Bool
  /-- Whether equal tests of facts share a node. -/
  shareTests : Bool
deriving DecidableEq, Repr

namespace Config

def standard : Config := ⟨3, true, true⟩

/-- The greatest allowed length of index keys. -/
def maxKeyDepth : Nat := 3

/-- Refuses a limit above the greatest allowed one. -/
def validate (c : Config) : Except BuildError Unit :=
  if maxKeyDepth < c.keyDepth then
    .error (.invalidConfig "composite_key_depth"
      (toString c.keyDepth ++ " exceeds the maximum of " ++ toString maxKeyDepth))
  else .ok ()

def toJson (c : Config) : Json :=
  .object [("composite_key_depth", .nat c.keyDepth),
    ("skip_unaffected_updates", .boolean c.skipUnaffected),
    ("share_alpha_nodes", .boolean c.shareTests)]

/-! ## Overrides -/

/-- The characters that may surround the text of a setting: the blanks of all scripts. -/
def isBlank (c : Char) : Bool :=
  let n := c.toNat
  (9 ≤ n && n ≤ 13) || n == 0x20 || n == 0x85 || n == 0xa0 || n == 0x1680
    || (0x2000 ≤ n && n ≤ 0x200a) || n == 0x2028 || n == 0x2029 || n == 0x202f || n == 0x205f
    || n == 0x3000

/-- The text without the blanks around it. -/
def trimmed (text : String) : List Char :=
  ((text.toList.dropWhile isBlank).reverse.dropWhile isBlank).reverse

/-- Reads a limit: decimal digits, with or without a plus sign, below `2 ^ 64`. -/
def readLimit? (text : String) : Option Nat :=
  let digits := match trimmed text with
    | '+' :: rest => rest
    | cs => cs
  let n := digits.foldl (fun n c => 10 * n + (c.toNat - 48)) 0
  if !digits.isEmpty && digits.all Char.isDigit && n < 0x10000000000000000 then some n else none

/-- Reads a switch, in letters of either case. -/
def readSwitch? (text : String) : Option Bool :=
  let word := String.ofList ((trimmed text).map Char.toLower)
  if ["1", "true", "yes", "on"].contains word then some true
  else if ["0", "false", "no", "off"].contains word then some false
  else none

/-- The name under which `keyDepth` is overridden. -/
def keyDepthName : String := "TRELLIS_COMPOSITE_KEY_DEPTH"

/-- The name under which `skipUnaffected` is overridden. -/
def skipUnaffectedName : String := "TRELLIS_SKIP_UNAFFECTED_UPDATES"

/-- The name under which `shareTests` is overridden. -/
def shareTestsName : String := "TRELLIS_SHARE_ALPHA_NODES"

/-- The configuration with the settings for which `lookup` gives a text that can be read. -/
def withOverrides (c : Config) (lookup : String → Option String) : Config where
  keyDepth := ((lookup keyDepthName).bind readLimit?).getD c.keyDepth
  skipUnaffected := ((lookup skipUnaffectedName).bind readSwitch?).getD c.skipUnaffected
  shareTests := ((lookup shareTestsName).bind readSwitch?).getD c.shareTests

end Config

end RuleMatching
