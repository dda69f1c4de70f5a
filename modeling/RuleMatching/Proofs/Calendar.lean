import Mathlib.Tactic.IntervalCases
import RuleMatching.Calendar

set_option autoImplicit false

/-! # The numbers of days

A year is counted from the first of March, so that the leap day is its last
(`CivilDate.marchFirst`). **Dates are numbered one after the other** (`CivilDate.dayNumber_next`),
and every number is that of a date (`CivilDate.isValid_ofDayNumber`,
`CivilDate.dayNumber_ofDayNumber`). -/

namespace RuleMatching.CivilDate

theorem isLeapYear_iff (year : Int) :
    isLeapYear year = true ↔ year % 4 = 0 ∧ (year % 100 ≠ 0 ∨ year % 400 = 0) := by
  simp [isLeapYear]

/-! ## Years that begin in March -/

/-- The number of the first of March. -/
def marchFirst (year : Int) : Int :=
  let yearOfEra := (year % 400).toNat
  year / 400 * daysPerEra + (yearOfEra * 365 + yearOfEra / 4 - yearOfEra / 100 : Nat) - epochOffset

/-- A year from March to March has the leap day of the year in which it ends. -/
theorem marchFirst_succ (year : Int) :
    marchFirst (year + 1) = marchFirst year + (if isLeapYear (year + 1) then 366 else 365) := by
  simp only [marchFirst, daysPerEra, epochOffset]
  by_cases hleap : isLeapYear (year + 1) = true
  · rw [if_pos hleap]
    rw [isLeapYear_iff] at hleap
    omega
  · rw [if_neg hleap]
    rw [isLeapYear_iff] at hleap
    omega

/-- The number of a date: January and February belong to the year that began in March before. -/
theorem dayNumber_eq (d : CivilDate) :
    d.dayNumber = marchFirst (if d.month ≤ 2 then d.year - 1 else d.year) +
      ((153 * ((d.month + 9) % 12) + 2) / 5 + d.day - 1 : Nat) := by
  simp only [dayNumber, marchFirst]
  omega

/-! ## From one day to the next -/

/-- The day after a date. -/
def next (d : CivilDate) : CivilDate :=
  if d.day < daysInMonth d.year d.month then { d with day := d.day + 1 }
  else if d.month < 12 then ⟨d.year, d.month + 1, 1⟩
  else ⟨d.year + 1, 1, 1⟩

theorem month_of_isValid {d : CivilDate} (h : d.isValid = true) : 1 ≤ d.month ∧ d.month ≤ 12 := by
  simp only [isValid, Bool.and_eq_true, decide_eq_true_eq] at h
  by_contra hmonth
  have hnone : daysInMonth d.year d.month = 0 := by
    unfold daysInMonth
    split <;> omega
  omega

theorem daysInMonth_le (year : Int) (month : Nat) : daysInMonth year month ≤ 31 := by
  have hfebruary : (if isLeapYear year then 29 else 28) ≤ 31 := by split <;> decide
  unfold daysInMonth
  split <;> first | exact hfebruary | decide

theorem day_of_isValid {d : CivilDate} (h : d.isValid = true) : 1 ≤ d.day ∧ d.day ≤ 31 := by
  simp only [isValid, Bool.and_eq_true, decide_eq_true_eq] at h
  exact ⟨h.1, h.2.trans (daysInMonth_le d.year d.month)⟩

/-- **The day after a date has the next number.** -/
theorem dayNumber_next {d : CivilDate} (h : d.isValid = true) :
    d.next.dayNumber = d.dayNumber + 1 := by
  obtain ⟨hfirst, htwelfth⟩ := month_of_isValid h
  obtain ⟨year, month, day⟩ := d
  simp only [isValid, Bool.and_eq_true, decide_eq_true_eq] at h
  obtain ⟨hday, hlast⟩ := h
  dsimp only at hfirst htwelfth
  unfold next
  by_cases hwithin : day < daysInMonth year month
  · rw [if_pos hwithin, dayNumber_eq, dayNumber_eq]
    dsimp only
    omega
  · rw [if_neg hwithin]
    have hmonthEnd : day = daysInMonth year month := Nat.le_antisymm hlast (Nat.not_lt.mp hwithin)
    clear hlast hwithin
    -- The last day of each of the twelve months; only February asks for the year.
    by_cases hfebruary : month = 2
    · subst hfebruary
      have hsucc := marchFirst_succ (year - 1)
      rw [Int.sub_add_cancel] at hsucc
      simp only [daysInMonth] at hmonthEnd
      simp only [dayNumber_eq, Nat.reduceLT, Nat.reduceLeDiff, Nat.reduceAdd, Nat.reduceMod,
        Nat.reduceMul, Nat.reduceDiv, if_true, if_false, hsucc]
      by_cases hleap : isLeapYear year = true
      · rw [if_pos hleap] at hmonthEnd ⊢
        omega
      · rw [if_neg hleap] at hmonthEnd ⊢
        omega
    · interval_cases month <;> simp [daysInMonth, dayNumber] at hfebruary hmonthEnd ⊢ <;> omega

/-! ## The parts of an era -/

/-- An era of 400 years is cut into centuries, these into spans of four years, and these into
years. Only the last year of a span has a leap day at its end, and not that of a century that is
not the last. -/
structure EraParts (n c q y d : Nat) : Prop where
  sum : n = 36524 * c + 1461 * q + 365 * y + d
  century : c ≤ 3
  span : q ≤ 24
  year : y ≤ 3
  day : d ≤ 365
  leapDay : d = 365 → y = 3 ∧ (q = 24 → c = 3)

theorem exists_eraParts {n : Nat} (h : n < daysPerEra) : ∃ c q y d, EraParts n c q y d := by
  rw [daysPerEra] at h
  obtain ⟨c, r, hn, hc, hr, hlast⟩ : ∃ c r : Nat, n = 36524 * c + r ∧ c ≤ 3 ∧ r ≤ 36524 ∧
      (r = 36524 → c = 3) := ⟨min 3 (n / 36524), n - 36524 * min 3 (n / 36524), by omega⟩
  obtain ⟨q, s, hr', hs⟩ : ∃ q s : Nat, r = 1461 * q + s ∧ s ≤ 1460 :=
    ⟨r / 1461, r % 1461, by omega⟩
  obtain ⟨y, d, hs', hy, hd⟩ : ∃ y d : Nat, s = 365 * y + d ∧ y ≤ 3 ∧ d ≤ 365 ∧ (d = 365 → y = 3) :=
    ⟨min 3 (s / 365), s - 365 * min 3 (s / 365), by omega⟩
  exact ⟨c, q, y, d, by omega, hc, by omega, hy, by omega, by omega⟩

namespace EraParts

variable {n c q y d : Nat} (h : EraParts n c q y d)

include h

/-- With the leap days taken off the days of the era, the years are those of 365 days. -/
theorem yearOfEra_eq : (n - n / 1460 + n / 36524 - n / 146096) / 365 = 100 * c + 4 * q + y := by
  obtain ⟨hsum, hc, hq, hy, hd, hleap⟩ := h
  have hcenturies : n / 36524 = c + n / 146096 := by
    rcases (by omega : n < 36524 * (c + 1) ∨ n = 146096 ∧ c = 3) with hwithin | hlast
    · have hcentury : n / 36524 = c := by omega
      have hera : n / 146096 = 0 := by omega
      omega
    · omega
  -- A span may seem to be over one day too early, which is late in its last year.
  obtain ⟨e, hspans, he⟩ : ∃ e, n / 1460 = 25 * c + q + e ∧ (e = 0 ∨ e = 1 ∧ 1364 ≤ 365 * y + d) :=
    ⟨n / 1460 - (25 * c + q), by omega⟩
  omega

/-- The days of the years before and the day of the year. -/
theorem days_eq : n = 365 * (100 * c + 4 * q + y) + (100 * c + 4 * q + y) / 4 -
    (100 * c + 4 * q + y) / 100 + d := by
  obtain ⟨hsum, hc, hq, hy, hd, hleap⟩ := h
  omega

end EraParts

/-! ## The date of a day -/

/-- The date that lies some days after the first of March. -/
def afterMarchFirst (year : Int) (days : Nat) : CivilDate :=
  let monthFromMarch := (5 * days + 2) / 153
  let day := days - (153 * monthFromMarch + 2) / 5 + 1
  if monthFromMarch < 10 then ⟨year, monthFromMarch + 3, day⟩
  else ⟨year + 1, monthFromMarch - 9, day⟩

section AfterMarchFirst

variable {year : Int} {days : Nat} (hdays : days ≤ 365)

include hdays

theorem dayNumber_afterMarchFirst :
    (afterMarchFirst year days).dayNumber = marchFirst year + days := by
  unfold afterMarchFirst
  generalize hm : (5 * days + 2) / 153 = m
  have hbound : m ≤ 11 ∧ (153 * m + 2) / 5 ≤ days := by omega
  by_cases hmonth : m < 10
  · simp only [if_pos hmonth]
    rw [dayNumber_eq]
    dsimp only
    rw [if_neg (by omega), show (m + 3 + 9) % 12 = m by omega]
    omega
  · simp only [if_neg hmonth]
    rw [dayNumber_eq]
    dsimp only
    rw [if_pos (by omega), show (m - 9 + 9) % 12 = m by omega, Int.add_sub_cancel]
    omega

/-- The last day of 366 is the leap day of the year in which it lies. -/
theorem isValid_afterMarchFirst (hleap : days = 365 → isLeapYear (year + 1) = true) :
    (afterMarchFirst year days).isValid = true := by
  unfold afterMarchFirst
  generalize hm : (5 * days + 2) / 153 = m
  have hbound : m ≤ 11 := by omega
  by_cases hfebruary : m = 11
  · subst hfebruary
    by_cases h : isLeapYear (year + 1) = true
    · simp [isValid, daysInMonth, h]
      omega
    · have hne : days ≠ 365 := fun hd => h (hleap hd)
      simp [isValid, daysInMonth, h]
      omega
  · interval_cases m <;> simp [isValid, daysInMonth] <;> omega

end AfterMarchFirst

/-- The date of a number lies in the year that began in March before, on a day that the year has. -/
theorem ofDayNumber_eq (n : Int) : ∃ (year : Int) (days : Nat), days ≤ 365 ∧
    (days = 365 → isLeapYear (year + 1) = true) ∧ n = marchFirst year + days ∧
      ofDayNumber n = afterMarchFirst year days := by
  have hera : ((n + epochOffset) % daysPerEra).toNat < daysPerEra := by
    simp only [daysPerEra]
    omega
  obtain ⟨c, q, y, d, hparts⟩ := exists_eraParts hera
  refine ⟨(100 * c + 4 * q + y : Nat) + (n + epochOffset) / daysPerEra * 400, d, hparts.day,
    fun hd => ?_, ?_, ?_⟩
  · have hlast := hparts.leapDay hd
    have hspan := hparts.span
    rw [isLeapYear_iff]
    omega
  · have hdays := hparts.days_eq
    have hc := hparts.century
    have hq := hparts.span
    have hy := hparts.year
    have hyear : ((100 * c + 4 * q + y : Nat) + (n + epochOffset) / daysPerEra * 400 : Int) / 400 =
        (n + epochOffset) / daysPerEra := by omega
    have hyearOfEra :
        (((100 * c + 4 * q + y : Nat) + (n + epochOffset) / daysPerEra * 400 : Int) % 400).toNat =
        100 * c + 4 * q + y := by omega
    simp only [marchFirst, hyear, hyearOfEra]
    simp only [daysPerEra, epochOffset] at hdays ⊢
    omega
  · have hyear := hparts.yearOfEra_eq
    have hday : ((n + epochOffset) % daysPerEra).toNat - (365 * (100 * c + 4 * q + y) +
        (100 * c + 4 * q + y) / 4 - (100 * c + 4 * q + y) / 100) = d := by
      have hdays := hparts.days_eq
      omega
    unfold ofDayNumber afterMarchFirst
    simp only [hyear, hday]
    -- January and February belong to the next year of the calendar.
    by_cases hmonth : (5 * d + 2) / 153 < 10
    · rw [if_pos hmonth, if_pos hmonth, if_neg (by omega)]
    · have hbound := hparts.day
      rw [if_neg hmonth, if_neg hmonth, if_pos (by omega)]

/-- **Every number is that of a date of the calendar.** -/
theorem isValid_ofDayNumber (n : Int) : (ofDayNumber n).isValid = true := by
  obtain ⟨year, days, hdays, hleap, -, hdate⟩ := ofDayNumber_eq n
  rw [hdate]
  exact isValid_afterMarchFirst hdays hleap

theorem dayNumber_ofDayNumber (n : Int) : (ofDayNumber n).dayNumber = n := by
  obtain ⟨year, days, hdays, -, hn, hdate⟩ := ofDayNumber_eq n
  rw [hdate, dayNumber_afterMarchFirst hdays, hn]

end RuleMatching.CivilDate
