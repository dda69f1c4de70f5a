import RuleMatching.Binary64.Basic

set_option autoImplicit false

/-! # Rounding to the nearest floating-point number

`Binary64.ofRatio` rounds a non-negative ratio of integers to the nearest number of the format, ties
going to the even significand. Integers, decimals, products and quotients are read through it. -/

namespace RuleMatching

/-- The integer nearest to `num / den`; a tie goes to the even one. -/
def roundHalfEven (num den : Nat) : Nat :=
  let whole := num / den
  match compare (2 * (num % den)) den with
  | .lt => whole
  | .gt => whole + 1
  | .eq => whole + whole % 2

namespace Binary64

/-- The word `0x7ff0000000000000` of positive infinity. -/
def infinityWord : Nat := 2047 * 0x10000000000000

/-- The number nearest to `num / den`. With `k` bits cut off so that 53 are left, the rounded
significand `r` is encoded as `k * 2 ^ 52 + r`: the leading bit of `r` adds the one that the
exponent field is ahead of `k`, and a carry into a 54th bit moves to the next exponent. -/
def ofRatio (num den : Nat) : Binary64 :=
  let scaled := num * unitsPerOne
  let cut := (scaled / den).log2 - 52
  let word := cut * 0x10000000000000 + roundHalfEven scaled (den * Nat.pow 2 cut)
  -- A carry out of the last exponent and everything above it is infinity.
  ⟨.ofNat (min word infinityWord)⟩

/-- The number nearest to a natural number. -/
def ofNat (n : Nat) : Binary64 := ofRatio n 1

/-- The number nearest to an integer. -/
def ofInt (n : Int) : Binary64 :=
  if n < 0 then (ofNat n.natAbs).negate else ofNat n.natAbs

/-- The number nearest to `digits * 10 ^ exponent`. Exponents at which every value overflows or
vanishes are answered at once, so that no huge power is formed. -/
def ofDecimal (digits : Nat) (exponent : Int) : Binary64 :=
  let magnitude : Int := digits.log2 + 3 * exponent
  if digits = 0 then ⟨0⟩
  else if exponent > 0 && magnitude > 2000 then infinity
  else if exponent < 0 && (digits.log2 : Int) + 3 * exponent < -4000 then ⟨0⟩
  else if exponent < 0 then ofRatio digits (Nat.pow 10 exponent.natAbs)
  else ofRatio (digits * Nat.pow 10 exponent.natAbs) 1

/-- The rounded product of two non-negative finite numbers. -/
def mul (x y : Binary64) : Binary64 :=
  ofRatio (x.magnitude * y.magnitude) (unitsPerOne * unitsPerOne)

/-- The rounded quotient of two non-negative finite numbers. -/
def div (x y : Binary64) : Binary64 := ofRatio x.magnitude y.magnitude

end Binary64

end RuleMatching
