import RuleMatching.Decimal.Shortest

set_option autoImplicit false

/-! # Written forms of floating-point numbers

Two notations of the shortest decimal: `Binary64.positional`, the text of a value inside rules and
facts, which never uses an exponent; and `Binary64.scientific`, the text of a number inside a JSON
document, which uses one from `1e16` on and below `1e-5`. -/

namespace RuleMatching

namespace Decimal

/-- The same decimal without trailing zeros among its digits; at most `fuel` of them go. -/
def trimZeros (d : Decimal) : Nat → Decimal
  | 0 => d
  | fuel + 1 =>
    if d.digits ≠ 0 ∧ d.digits % 10 = 0 then trimZeros ⟨d.digits / 10, d.exponent + 1⟩ fuel else d

/-- The digits as text, without trailing zeros, and the number of them that stand before the point
(negative if zeros follow the point first). -/
def leading (d : Decimal) : List Char × Int :=
  let t := d.trimZeros 20
  let text := Nat.toDigits 10 t.digits
  (text, text.length + t.exponent)

/-- The digits with the point after the first `point` of them, padded with zeros on either side. -/
def placePoint (digits : List Char) (point : Int) : List Char × List Char :=
  if point ≤ 0 then (['0'], List.replicate (-point).toNat '0' ++ digits)
  else
    let n := point.toNat
    (digits.take n ++ List.replicate (n - digits.length) '0', digits.drop n)

end Decimal

namespace Binary64

/-- The sign as text. -/
def signText (x : Binary64) : String := if x.isNegative then "-" else ""

/-- The shortest digits that read back, without exponent, and without a point if nothing follows it.
Of two equally near decimals it is the greater one. -/
def positional (x : Binary64) : String :=
  if x.isNaN then "NaN"
  else if x.isInfinite then x.signText ++ "inf"
  else
    let (digits, point) := (Decimal.shortest .upper x).leading
    let (whole, fraction) := Decimal.placePoint digits point
    x.signText ++ String.ofList (if fraction.isEmpty then whole else whole ++ '.' :: fraction)

/-- The shortest digits that read back: with a point from `1e-5` to below `1e16`, else with an
exponent that always has a sign. Of two equally near decimals it is the one with an even last digit.
A finite number only. -/
def scientific (x : Binary64) : String :=
  let (digits, point) := (Decimal.shortest .even x).leading
  let text :=
    if -5 < point && point ≤ 16 then
      let (whole, fraction) := Decimal.placePoint digits point
      String.ofList (whole ++ '.' :: (if fraction.isEmpty then ['0'] else fraction))
    else
      let fraction := digits.drop 1
      String.ofList (digits.take 1 ++ (if fraction.isEmpty then [] else '.' :: fraction))
        ++ (if 0 < point then "e+" else "e") ++ toString (point - 1)
  x.signText ++ text

end Binary64

end RuleMatching
