import RuleMatching.Calendar
import RuleMatching.Instant.Basic

set_option autoImplicit false

/-! # Timestamps in the form of RFC 3339

`Instant.timestamp` writes a point in time in UTC, with the shortest of no, three, six or nine
fraction digits. `Instant.ofTimestamp?` reads a timestamp with any offset. A leap second is written
as second 60 and read back as such. -/

namespace RuleMatching

namespace Instant

def nanosPerSecond : Nat := 1000000000

def secondsPerDay : Nat := 86400

/-- The decimal digits of `n`, padded with zeros on the left to `width` characters. -/
def padded (width n : Nat) : List Char :=
  let digits := Nat.toDigits 10 n
  List.replicate (width - digits.length) '0' ++ digits

/-! ## Writing -/

/-- The year: four digits from 0 to 9999, else with a sign and at least four digits. -/
def yearText (year : Int) : List Char :=
  if year < 0 then '-' :: padded 4 year.natAbs
  else if year ≤ 9999 then padded 4 year.natAbs
  else '+' :: padded 4 year.natAbs

/-- The fraction of a second with its point, as short as steps of three digits allow. -/
def fractionText (nanos : Nat) : List Char :=
  if nanos = 0 then []
  else if nanos % 1000000 = 0 then '.' :: padded 3 (nanos / 1000000)
  else if nanos % 1000 = 0 then '.' :: padded 6 (nanos / 1000)
  else '.' :: padded 9 nanos

/-- Date and time of day in UTC, without the offset. -/
def civilText (t : Instant) : List Char :=
  let date := CivilDate.ofDayNumber (t.seconds / secondsPerDay)
  let timeOfDay := (t.seconds % secondsPerDay).toNat
  let leap := t.nanos ≥ nanosPerSecond
  let second := timeOfDay % 60 + (if leap then 1 else 0)
  yearText date.year ++ '-' :: padded 2 date.month ++ '-' :: padded 2 date.day
    ++ 'T' :: padded 2 (timeOfDay / 3600) ++ ':' :: padded 2 (timeOfDay / 60 % 60)
    ++ ':' :: padded 2 second ++ fractionText (if leap then t.nanos - nanosPerSecond else t.nanos)

/-- The timestamp with a numeric offset, the form used in texts. -/
def timestamp (t : Instant) : String := String.ofList (t.civilText ++ "+00:00".toList)

/-- The timestamp with the offset `Z`, the form used in documents. -/
def timestampZulu (t : Instant) : String := String.ofList (t.civilText ++ ['Z'])

/-! ## Reading -/

/-- The number written by a list of decimal digits. -/
def digitsValue (cs : List Char) : Nat := cs.foldl (fun n c => 10 * n + (c.toNat - 48)) 0

/-- Reads exactly `width` digits. -/
def readDigits? (width : Nat) (cs : List Char) : Option (Nat × List Char) :=
  let digits := cs.take width
  if digits.length = width ∧ digits.all Char.isDigit then some (digitsValue digits, cs.drop width)
  else none

/-- Reads one of the given characters. -/
def readOneOf? (allowed : List Char) : List Char → Option (List Char)
  | c :: rest => if allowed.contains c then some rest else none
  | [] => none

/-- Reads an optional fraction as nanoseconds. Digits beyond the ninth are cut off. -/
def readFraction? : List Char → Option (Nat × List Char)
  | '.' :: rest =>
    let digits := rest.takeWhile Char.isDigit
    let kept := digits.take 9
    if digits.isEmpty then none
    else some (digitsValue kept * Nat.pow 10 (9 - kept.length), rest.drop digits.length)
  | cs => some (0, cs)

/-- Reads an offset from UTC up to the end of the text, in seconds. The minus sign may also be the
typographic one. -/
def readOffset? : List Char → Option Int
  | ['Z'] | ['z'] => some 0
  | sign :: rest => do
    let direction ← if sign = '+' then some (1 : Int)
      else if sign = '-' ∨ sign = '\u2212' then some (-1) else none
    let (hours, rest) ← readDigits? 2 rest
    let rest ← readOneOf? [':'] rest
    let (minutes, rest) ← readDigits? 2 rest
    if hours ≤ 23 ∧ minutes ≤ 59 ∧
      rest.isEmpty then some (direction * (hours * 3600 + minutes * 60))
    else none
  | [] => none

/-- The point in time of a date, a time of day and an offset; second 60 is the leap second. -/
def ofCivil? (date : CivilDate) (hour minute second nanos : Nat) (offset : Int) : Option Instant :=
  if date.isValid ∧ hour ≤ 23 ∧ minute ≤ 59 ∧ second ≤ 60 then
    -- Second 60 is second 59 with a further second in the nanoseconds.
    let whole : Int := date.dayNumber * secondsPerDay + hour * 3600 + minute * 60 + min second 59
    some ⟨whole - offset, if second = 60 then nanos + nanosPerSecond else nanos⟩
  else
    none

/-- Reads a timestamp: a date with a year of four digits, `T` or a space, a time with optional
fraction, and an offset. -/
def readTimestamp? (cs : List Char) : Option Instant := do
  let (year, cs) ← readDigits? 4 cs
  let cs ← readOneOf? ['-'] cs
  let (month, cs) ← readDigits? 2 cs
  let cs ← readOneOf? ['-'] cs
  let (day, cs) ← readDigits? 2 cs
  let cs ← readOneOf? ['T', 't', ' '] cs
  let (hour, cs) ← readDigits? 2 cs
  let cs ← readOneOf? [':'] cs
  let (minute, cs) ← readDigits? 2 cs
  let cs ← readOneOf? [':'] cs
  let (second, cs) ← readDigits? 2 cs
  let (nanos, cs) ← readFraction? cs
  let offset ← readOffset? cs
  ofCivil? ⟨year, month, day⟩ hour minute second nanos offset

@[inherit_doc readTimestamp?]
def ofTimestamp? (text : String) : Option Instant := readTimestamp? text.toList

end Instant

end RuleMatching
