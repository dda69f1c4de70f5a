import RuleMatching.Text.Printable

set_option autoImplicit false

/-! # Strings in diagnostic texts

`Text.diagnostic` writes a string between quotes such that every character can be seen: those that
do not show on their own are given by number. -/

namespace RuleMatching

namespace Text

/-- The character as it stands between the quotes. -/
def diagnosticChar (c : Char) : String :=
  match c with
  | '"' => "\\\""
  | '\\' => "\\\\"
  | '\n' => "\\n"
  | '\r' => "\\r"
  | '\t' => "\\t"
  | '\x00' => "\\0"
  | c =>
    if isPrintable c then c.toString
    else "\\u\x7b" ++ String.ofList (Nat.toDigits 16 c.toNat) ++ "\x7d"

/-- The string between quotes. -/
def diagnostic (s : String) : String :=
  "\"" ++ String.join (s.toList.map diagnosticChar) ++ "\""

end Text

end RuleMatching
