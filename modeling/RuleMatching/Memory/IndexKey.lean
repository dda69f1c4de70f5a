import RuleMatching.Text.Diagnostic
import RuleMatching.Value.Basic

set_option autoImplicit false

/-! # Keys of an index

An index key is the list of the keys of the indexed fields, in order. -/

namespace RuleMatching

/-- The keys of the indexed fields, in order. -/
abbrev IndexKey := List Key

/-- The written form of a key, with the name of its kind. -/
def Key.display : Key → String
  | .null => "Null"
  | .boolean b => "Boolean(" ++ (if b then "true" else "false") ++ ")"
  | .integer n => "Integer(" ++ toString n.toInt ++ ")"
  | .float bits => "Float(" ++ toString bits.toNat ++ ")"
  | .string s => "String(" ++ Text.diagnostic s ++ ")"
  | .date t => "Date(" ++ toString t.seconds ++ ", " ++ toString t.nanos ++ ")"

/-- The written form of an index key. -/
def IndexKey.display (k : IndexKey) : String := "(" ++ ", ".intercalate (k.map Key.display) ++ ")"

end RuleMatching
