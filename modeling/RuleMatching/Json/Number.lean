import RuleMatching.Binary64.Rounding
import RuleMatching.Json.Basic

set_option autoImplicit false

/-! # Numbers of JSON documents

A literal of digits alone is an integer if it fits in 64 bits. Any other literal is a float, read
with two roundings: the leading digits, as many as stay below `2 ^ 64`, make an integer that is
rounded, and then it is scaled by a power of ten with a second rounding (`Json.Number.scale?`). A
literal that overflows is refused. -/

namespace RuleMatching

namespace Json.Number

/-- The number written by the longest run of leading digits that stays below `2 ^ 64`, started from
`n`, and how many digits are left. -/
def absorb (n : Nat) : List Char → Nat × Nat
  | [] => (n, 0)
  | c :: rest =>
    let next := 10 * n + (c.toNat - 48)
    if next < 0x10000000000000000 then absorb next rest else (n, rest.length + 1)

/-- The rounded power of ten. -/
def powerOfTen (n : Nat) : Binary64 := Binary64.ofNat (Nat.pow 10 n)

/-- The largest exponent with a finite power of ten. -/
def maxExponent : Nat := 308

/-- The rounded `significand`, then multiplied or divided by a rounded power of ten. Powers that are
out of range divide in two steps; a third would leave nothing. -/
def scale? (significand : Nat) (exponent : Int) : Option Binary64 :=
  let x := Binary64.ofNat significand
  let size := exponent.natAbs
  if 0 ≤ exponent then
    if size ≤ maxExponent then
      let y := x.mul (powerOfTen size)
      if y.isFinite then some y else none
    else if significand = 0 then some x else none
  else if size ≤ maxExponent then some (x.div (powerOfTen size))
  else if size ≤ 2 * maxExponent then
    some ((x.div (powerOfTen maxExponent)).div (powerOfTen (size - maxExponent)))
  else some ⟨0⟩

/-- The float with the given sign. -/
def signed (negative : Bool) (x : Binary64) : Binary64 := if negative then x.negate else x

/-- The number of a literal without fraction and exponent. Minus zero is a float, since
no integer is. -/
def ofDigits? (negative : Bool) (digits : List Char) : Option Number :=
  let (n, left) := absorb 0 digits
  if left ≠ 0 then (scale? n left).map fun x => float (signed negative x)
  else if !negative then some (integer n)
  -- The least integer has no positive counterpart, so this bound is one more than that of the
  -- positive ones.
  else if n = 0 ∨ 0x8000000000000000 < n then some (float (signed true (Binary64.ofNat n)))
  else some (integer (-n))

/-- The number of a literal with a fraction or an exponent. -/
def ofParts? (negative : Bool) (whole fraction : List Char) (exponent : Int) : Option Number :=
  let (n, dropped) := absorb 0 whole
  let (n, left) := absorb n fraction
  -- Digits of the fraction that were absorbed count down, digits of the whole that were
  -- dropped count up.
  let point : Int := (dropped : Int) - ((fraction.length : Int) - left)
  (scale? n (point + exponent)).map fun x => float (signed negative x)

end Json.Number

end RuleMatching
