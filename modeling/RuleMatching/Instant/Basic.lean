set_option autoImplicit false

/-! # Points in time -/

namespace RuleMatching

/-- A point in time: seconds since 1970-01-01T00:00:00Z and nanoseconds within the second. A leap
second is the last second of its minute with `10 ^ 9` nanoseconds or more. -/
structure Instant where
  seconds : Int
  nanos : Nat
deriving DecidableEq, Repr

namespace Instant

/-- Chronological order. -/
def compare (a b : Instant) : Ordering :=
  (Ord.compare a.seconds b.seconds).then (Ord.compare a.nanos b.nanos)

end Instant

end RuleMatching
