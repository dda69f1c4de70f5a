import RuleMatching.Binary64.Basic

set_option autoImplicit false

/-! # Shortest decimals

`Decimal.shortest` gives the decimal with the fewest digits among those that round to a given
floating-point number, and of these the nearest to it; of two that are equally near a `TieRule`
chooses one. It decides with exact integers: for one digit, two digits and so on it tries the two
neighbours of the value on that decimal grid. -/

namespace RuleMatching

/-- The non-negative decimal `digits * 10 ^ exponent`. -/
structure Decimal where
  digits : Nat
  exponent : Int
deriving DecidableEq, Repr

/-- Which of two decimals that are equally near to a number is taken. -/
inductive TieRule where
  /-- The greater one. -/
  | upper
  /-- The one with an even last digit. -/
  | even
deriving DecidableEq, Repr

/-- Whether a tie goes to `digits + 1` rather than to `digits`. -/
def TieRule.goesUp : TieRule → Nat → Bool
  | upper, _ => true
  | even, digits => digits % 2 == 1

namespace Decimal

/-- The number of decimal digits of `n`; zero has one. -/
def digitCount (n : Nat) : Nat := (Nat.toDigits 10 n).length

/-- The numbers that round to `x`, in quarters of `2 ^ (-1074)`: from half a step below to half a
step above. Below a power of two the step is half as wide. The ends belong to it if the
significand is even. -/
structure Basin where
  low : Nat
  value : Nat
  high : Nat
  closed : Bool

/-- The numbers that round to the magnitude of `x`. -/
def basin (x : Binary64) : Basin where
  low := 4 * x.magnitude -
    (if x.fractionField = 0 ∧ 1 < x.exponentField then Nat.pow 2 x.shift else 2 * Nat.pow 2 x.shift)
  value := 4 * x.magnitude
  high := 4 * x.magnitude + 2 * Nat.pow 2 x.shift
  closed := x.significand % 2 == 0

namespace Basin

/-- The decimal and the bound `q` on one scale: `d` in quarter units is `q` iff these are equal. -/
def scaled (d : Decimal) (q : Nat) : Nat × Nat :=
  (d.digits * Nat.pow 10 d.exponent.toNat * (4 * Binary64.unitsPerOne),
    q * Nat.pow 10 (-d.exponent).toNat)

/-- Whether the decimal rounds to the number. -/
def contains (b : Basin) (d : Decimal) : Bool :=
  let (atLow, low) := scaled d b.low
  let (atHigh, high) := scaled d b.high
  if b.closed then low ≤ atLow && atHigh ≤ high else low < atLow && atHigh < high

/-- The distance of the decimal from the number, on a scale that depends on the exponent only. -/
def distance (b : Basin) (d : Decimal) : Nat :=
  let (at_, value) := scaled d b.value
  (at_ - value) + (value - at_)

/-- The largest decimal with the given exponent that is not above the number. -/
def below (b : Basin) (exponent : Int) : Decimal :=
  let quarters := 4 * Binary64.unitsPerOne
  ⟨b.value * Nat.pow 10 (-exponent).toNat / (quarters * Nat.pow 10 exponent.toNat), exponent⟩

/-- The nearer of the two neighbours on the grid of the given exponent that lie in the basin. -/
def pick? (b : Basin) (tie : TieRule) (exponent : Int) : Option Decimal :=
  let down := b.below exponent
  let up : Decimal := ⟨down.digits + 1, exponent⟩
  match b.contains down, b.contains up with
  | true, true =>
    some (match compare (b.distance up) (b.distance down) with
      | .lt => up
      | .gt => down
      | .eq => if tie.goesUp down.digits then up else down)
  | true, false => some down
  | false, true => some up
  | false, false => none

end Basin

/-- The power of ten just above `n` quarter units: `n` lies from `10 ^ (p - 1)` up to `10 ^ p`. -/
def leadingExponent (n : Nat) : Int :=
  (digitCount (n * Nat.pow 10 400 / (4 * Binary64.unitsPerOne)) : Int) - 400

/-- The shortest decimal that rounds to the magnitude of the finite number `x`. Seventeen digits
always suffice. -/
def shortest (tie : TieRule) (x : Binary64) : Decimal :=
  if x.magnitude = 0 then ⟨0, 0⟩
  else
    -- With `n + 1` digits the last one counts `10 ^ (top - n - 1)`.
    let b := basin x
    let top := leadingExponent b.value
    ((List.range 17).findSome? fun (n : Nat) => b.pick? tie (top - ((n : Int) + 1))).getD
      (b.below (top - 17))

end Decimal

end RuleMatching
