import RuleMatching.Binary64.Rounding

set_option autoImplicit false

/-! # Integers and fractions of floating-point numbers

A float against an integer is compared in two steps. The bits of the float below one are cleared,
which leaves the integral part; it fits in 64 bits unless the float is out of their range, so it is
compared as an integer. If the integers are equal, the sign of what was cleared decides. Whether a
float denotes an integer is found in the same way. -/

namespace RuleMatching.Binary64

/-- `2 ^ 63`, the least number beyond the 64-bit integers. -/
def int64Bound : Binary64 := ⟨0x43e0000000000000⟩

/-- The integral part: the bits that count for less than one are cleared. What is below one becomes
a zero of its sign; from `2 ^ 52` on, and for infinities and NaNs, there are no such bits. -/
def truncate (x : Binary64) : Binary64 :=
  let word := x.bits.toNat
  let cleared := if x.exponentField < 1023 then Nat.pow 2 63 else Nat.pow 2 (1075 - x.exponentField)
  ⟨.ofNat (word / cleared * cleared)⟩

/-- The number nearest to a whole number of units `2 ^ (-1074)`. -/
def ofUnits (n : Int) : Binary64 :=
  let x := ofRatio n.natAbs unitsPerOne
  if n < 0 then x.negate else x

/-- The number less its integral part; a NaN for an infinity, as the difference of two. -/
def fraction (x : Binary64) : Binary64 :=
  if x.isFinite then ofUnits (x.units - x.truncate.units) else canonicalNaN

/-- The conversion to an integer: towards zero, to the nearest in range, and zero for a NaN. -/
def toInt64 (x : Binary64) : Int64 :=
  if x.isNaN then 0
  else .ofInt (max (-0x8000000000000000) (min 0x7fffffffffffffff (x.units.tdiv unitsPerOne)))

/-- The integer that a float denotes, if it denotes one that fits in 64 bits. -/
def toInt64? (x : Binary64) : Option Int64 :=
  if x.fraction.equals zero && int64Bound.negate.lessOrEqual x && x.less int64Bound
    then some x.toInt64
  else none

/-- The order of an integer against a float. The integer is not rounded to a float for it. -/
def compareInteger? (n : Int64) (x : Binary64) : Option Ordering :=
  if x.isNaN then none
  else if int64Bound.lessOrEqual x then some .lt
  else if x.less int64Bound.negate then some .gt
  else
    match compare n.toInt x.truncate.toInt64.toInt with
    | .eq => zero.compare? x.fraction
    | order => some order

end RuleMatching.Binary64
