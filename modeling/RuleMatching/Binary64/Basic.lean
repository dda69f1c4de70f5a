set_option autoImplicit false

/-! # Binary floating-point numbers, exactly

A `Binary64` is a double-precision number given by its 64 bits. Every finite number of the
format is a whole multiple of `2 ^ (-1074)`, so its exact value is one integer, `Binary64.units`.
Comparison of two floats (`Binary64.compare?`) is comparison of integers; nothing is rounded. -/

namespace RuleMatching

/-- A double-precision floating-point number, given by its bits. -/
structure Binary64 where
  bits : UInt64
deriving DecidableEq, Repr, Inhabited

namespace Binary64

/-! ## The fields of the word -/

/-- Whether the sign bit is set. -/
def isNegative (x : Binary64) : Bool := 0x8000000000000000 ≤ x.bits.toNat

/-- The biased exponent, below `2 ^ 11`. -/
def exponentField (x : Binary64) : Nat := x.bits.toNat / 0x10000000000000 % 0x800

/-- The fraction, below `2 ^ 52`. -/
def fractionField (x : Binary64) : Nat := x.bits.toNat % 0x10000000000000

def isNaN (x : Binary64) : Bool := x.exponentField == 2047 && x.fractionField != 0

def isInfinite (x : Binary64) : Bool := x.exponentField == 2047 && x.fractionField == 0

def isFinite (x : Binary64) : Bool := x.exponentField != 2047

/-- The significand as an integer, with the leading bit that normal numbers leave out. -/
def significand (x : Binary64) : Nat :=
  if x.exponentField = 0 then x.fractionField else 0x10000000000000 + x.fractionField

/-- The position of the last bit of the significand, counted from `2 ^ (-1074)`. -/
def shift (x : Binary64) : Nat := x.exponentField - 1

/-! ## The exact value -/

/-- The number of units `2 ^ (-1074)` in one. -/
def unitsPerOne : Nat := Nat.pow 2 1074

/-- The magnitude in units of `2 ^ (-1074)`. An infinity counts as `2 ^ 1024`, which is beyond every
finite number of the format. -/
def magnitude (x : Binary64) : Nat := x.significand * Nat.pow 2 x.shift

/-- The exact value in units of `2 ^ (-1074)`; meaningless for a NaN. -/
def units (x : Binary64) : Int := if x.isNegative then -x.magnitude else x.magnitude

/-- The order of two numbers by exact value; a NaN has no place in it. -/
def compare? (x y : Binary64) : Option Ordering :=
  if x.isNaN || y.isNaN then none else some (compare x.units y.units)

/-- Numeric equality: `0.0` equals `-0.0`, and a NaN equals nothing. -/
def equals (x y : Binary64) : Bool := x.compare? y == some .eq

/-- Whether the first number is less; never so for a NaN. -/
def less (x y : Binary64) : Bool := x.compare? y == some .lt

/-- Whether the first number is at most the second; never so for a NaN. -/
def lessOrEqual (x y : Binary64) : Bool := x.compare? y == some .lt || x.compare? y == some .eq

/-! ## Distinguished numbers -/

/-- The quiet NaN that stands for all of them. -/
def canonicalNaN : Binary64 := ⟨0x7ff8000000000000⟩

def infinity : Binary64 := ⟨0x7ff0000000000000⟩

/-- Positive zero. -/
def zero : Binary64 := ⟨0⟩

/-- The number with the sign bit flipped. -/
def negate (x : Binary64) : Binary64 := ⟨x.bits ^^^ 0x8000000000000000⟩

end Binary64

end RuleMatching
