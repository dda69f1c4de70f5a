import Mathlib.Data.List.TakeWhile
import RuleMatching.Instant.Timestamp
import RuleMatching.Proofs.Calendar

set_option autoImplicit false

/-! # Timestamps are read back

The digits of a number, padded with zeros, are read back as the number, and so are the fraction of a
second and the date and time of day of an instant. What is read is always a proper instant: a leap
second comes at the end of a minute. **So the timestamp of an instant is read back as the instant
iff the instant is proper and its year has four digits** (`Instant.ofTimestamp?_timestamp_iff`). -/

namespace RuleMatching.Instant

/-! ## Digits -/

theorem digitsValue_eq (cs : List Char) : digitsValue cs = Nat.ofDigitChars 10 cs 0 := rfl

/-- Zeros on the left do not count. -/
theorem digitsValue_replicate (k : Nat) (cs : List Char) :
    digitsValue (List.replicate k '0' ++ cs) = digitsValue cs := by
  induction k with
  | zero => rfl
  | succ k ih => exact ih

theorem digitsValue_padded (width n : Nat) : digitsValue (padded width n) = n := by
  rw [padded, digitsValue_replicate, digitsValue_eq]
  exact Nat.ofDigitChars_toDigits (by decide) (by decide)

theorem isDigit_padded (width n : Nat) : ∀ c ∈ padded width n, c.isDigit = true := by
  intro c hc
  rcases List.mem_append.mp hc with hc | hc
  · rw [List.eq_of_mem_replicate hc]
    rfl
  · exact Nat.isDigit_of_mem_toDigits (by decide) (by decide) hc

theorem length_padded {width n : Nat} (hwidth : 0 < width) (hn : n < 10 ^ width) :
    (padded width n).length = width := by
  have hlength : (Nat.toDigits 10 n).length ≤ width :=
    (Nat.length_toDigits_le_iff (by decide) hwidth).mpr hn
  rw [padded, List.length_append, List.length_replicate]
  omega

/-- **A padded number is read back.** -/
theorem readDigits?_padded {width n : Nat} (hwidth : 0 < width) (hn : n < 10 ^ width)
    (rest : List Char) : readDigits? width (padded width n ++ rest) = some (n, rest) := by
  have hlength := length_padded hwidth hn
  have hall : (padded width n).all Char.isDigit = true :=
    List.all_eq_true.mpr (isDigit_padded width n)
  simp only [readDigits?, List.take_left' hlength, List.drop_left' hlength, hlength, hall,
    and_self, if_true, digitsValue_padded]

theorem readOneOf?_cons {allowed : List Char} {c : Char} (h : c ∈ allowed) (rest : List Char) :
    readOneOf? allowed (c :: rest) = some rest := by
  simp [readOneOf?, h]

/-! ## Fractions -/

/-- The text goes on with neither a fraction nor a digit. -/
def EndsNumber (rest : List Char) : Prop := ∀ c ∈ rest.head?, c ≠ '.' ∧ c.isDigit = false

/-- The digits of a fraction up to the end of the number, of which there are nine at most. -/
theorem readFraction?_padded {width n : Nat} (hwidth : 0 < width) (hnine : width ≤ 9)
    (hn : n < 10 ^ width) {rest : List Char} (hrest : EndsNumber rest) :
    readFraction? ('.' :: (padded width n ++ rest)) = some (n * 10 ^ (9 - width), rest) := by
  have hlength := length_padded hwidth hn
  have htake : (padded width n ++ rest).takeWhile Char.isDigit = padded width n := by
    rw [List.takeWhile_append_of_pos (isDigit_padded width n)]
    cases rest with
    | nil => exact List.append_nil _
    | cons c rest =>
        have hc : c.isDigit = false := (hrest c rfl).2
        rw [List.takeWhile_cons_of_neg (by simp [hc]), List.append_nil]
  have hne : (padded width n).isEmpty = false := by
    rw [List.isEmpty_eq_false_iff, ← List.length_pos_iff, hlength]
    exact hwidth
  simp only [readFraction?, htake, hne, List.take_of_length_le (hlength.trans_le hnine), hlength,
    digitsValue_padded, List.drop_left' hlength, Bool.false_eq_true, if_false]
  rfl

theorem readFraction?_of_endsNumber {rest : List Char} (hrest : EndsNumber rest) :
    readFraction? rest = some (0, rest) := by
  cases rest with
  | nil => rfl
  | cons c rest =>
      have hc : c ≠ '.' := (hrest c rfl).1
      simp [readFraction?, hc]

/-- **The fraction of a second is read back**, however many groups of three digits it takes. -/
theorem readFraction?_fractionText {nanos : Nat} (h : nanos < nanosPerSecond) {rest : List Char}
    (hrest : EndsNumber rest) :
    readFraction? (fractionText nanos ++ rest) = some (nanos, rest) := by
  rw [nanosPerSecond] at h
  unfold fractionText
  by_cases hzero : nanos = 0
  · rw [if_pos hzero, hzero]
    exact readFraction?_of_endsNumber hrest
  rw [if_neg hzero]
  by_cases hmillis : nanos % 1000000 = 0
  · rw [if_pos hmillis, List.cons_append,
      readFraction?_padded (by decide) (by decide) (by omega) hrest]
    congr 2
    omega
  rw [if_neg hmillis]
  by_cases hmicros : nanos % 1000 = 0
  · rw [if_pos hmicros, List.cons_append,
      readFraction?_padded (by decide) (by decide) (by omega) hrest]
    congr 2
    omega
  · rw [if_neg hmicros, List.cons_append,
      readFraction?_padded (by decide) (by decide) (by omega) hrest]
    congr 2
    omega

/-! ## Instants -/

/-- The calendar date in UTC. -/
def date (t : Instant) : CivilDate := CivilDate.ofDayNumber (t.seconds / secondsPerDay)

/-- The nanoseconds go beyond one second only at the end of a minute, and not beyond two. -/
def IsProper (t : Instant) : Prop :=
  t.nanos < 2 * nanosPerSecond ∧ (nanosPerSecond ≤ t.nanos → t.seconds % 60 = 59)

/-- The year in UTC lies from 0 to 9999. -/
def HasFourDigitYear (t : Instant) : Prop := 0 ≤ t.date.year ∧ t.date.year ≤ 9999

/-- The date and the time of day make up the instant; a leap second is second 60. -/
theorem ofCivil?_date {t : Instant} (ht : t.IsProper) :
    let timeOfDay := (t.seconds % secondsPerDay).toNat
    ofCivil? t.date (timeOfDay / 3600) (timeOfDay / 60 % 60)
      (timeOfDay % 60 + if t.nanos ≥ nanosPerSecond then 1 else 0)
      (if t.nanos ≥ nanosPerSecond then t.nanos - nanosPerSecond else t.nanos) 0 = some t := by
  intro timeOfDay
  obtain ⟨hnanos, hleap⟩ := ht
  have hvalid : t.date.isValid = true := CivilDate.isValid_ofDayNumber _
  have hday : t.date.dayNumber = t.seconds / 86400 := CivilDate.dayNumber_ofDayNumber _
  have hperDay : ((secondsPerDay : Nat) : Int) = 86400 := rfl
  have htime : (timeOfDay : Int) = t.seconds % 86400 :=
    Int.toNat_of_nonneg (Int.emod_nonneg _ (by decide))
  clear_value timeOfDay
  unfold ofCivil?
  by_cases h : t.nanos ≥ nanosPerSecond
  · have hlast := hleap h
    rw [if_pos h, if_pos h, if_pos ⟨hvalid, by omega, by omega, by omega⟩, if_pos (by omega),
      hday, hperDay]
    exact congrArg some (congrArg₂ mk (by omega) (by omega))
  · rw [if_neg h, if_neg h, if_pos ⟨hvalid, by omega, by omega, by omega⟩, if_neg (by omega),
      hday, hperDay]
    exact congrArg some (congrArg₂ mk (by omega) rfl)

/-- A text that stands for no offset from UTC. -/
structure IsUtc (rest : List Char) : Prop where
  endsNumber : EndsNumber rest
  readOffset?_eq : readOffset? rest = some 0

theorem civilText_eq (t : Instant) (rest : List Char) :
    let timeOfDay := (t.seconds % secondsPerDay).toNat
    t.civilText ++ rest = yearText t.date.year ++
      ('-' :: (padded 2 t.date.month ++ ('-' :: (padded 2 t.date.day ++
      ('T' :: (padded 2 (timeOfDay / 3600) ++ (':' :: (padded 2 (timeOfDay / 60 % 60) ++
      (':' :: (padded 2 (timeOfDay % 60 + if t.nanos ≥ nanosPerSecond then 1 else 0) ++
        (fractionText (if t.nanos ≥ nanosPerSecond then t.nanos - nanosPerSecond else t.nanos) ++
          rest))))))))))) := by
  simp only [civilText, date, List.append_assoc, List.cons_append]

theorem yearText_eq {year : Int} (h : 0 ≤ year ∧ year ≤ 9999) :
    yearText year = padded 4 year.natAbs := by
  rw [yearText, if_neg (by omega), if_pos h.2]

/-- **The text of an instant is read back.** -/
theorem readTimestamp?_civilText {t : Instant} (ht : t.IsProper) (hyear : t.HasFourDigitYear)
    {rest : List Char} (hrest : IsUtc rest) : readTimestamp? (t.civilText ++ rest) = some t := by
  have hcivil := ofCivil?_date ht
  rw [civilText_eq, yearText_eq hyear]
  have hvalid : t.date.isValid = true := CivilDate.isValid_ofDayNumber _
  have hmonth := CivilDate.month_of_isValid hvalid
  have hday := CivilDate.day_of_isValid hvalid
  have htime : (t.seconds % secondsPerDay).toNat < 86400 := by
    have hlt : t.seconds % 86400 < 86400 := Int.emod_lt_of_pos _ (by decide)
    exact (Int.toNat_lt (Int.emod_nonneg _ (by decide))).mpr hlt
  generalize (t.seconds % secondsPerDay).toNat = timeOfDay at hcivil htime ⊢
  have hfour : t.date.year.natAbs < 10000 := by
    have hle := hyear.2
    have hnonneg := hyear.1
    omega
  have hcast : (t.date.year.natAbs : Int) = t.date.year := Int.natAbs_of_nonneg hyear.1
  have hsecond : timeOfDay % 60 + (if t.nanos ≥ nanosPerSecond then 1 else 0) <
    100 := by split <;> omega
  have hnanos : (if t.nanos ≥ nanosPerSecond then t.nanos - nanosPerSecond else t.nanos) <
      nanosPerSecond := by
    have hlt := ht.1
    split <;> omega
  -- The numbers are read one after the other, each with the mark that comes after it.
  simp only [readTimestamp?, Option.bind_eq_bind]
  rw [readDigits?_padded (by decide) hfour, Option.bind_some]
  dsimp only
  rw [readOneOf?_cons (by decide), Option.bind_some, readDigits?_padded (by decide) (by omega),
    Option.bind_some]
  dsimp only
  rw [readOneOf?_cons (by decide), Option.bind_some, readDigits?_padded (by decide) (by omega),
    Option.bind_some]
  dsimp only
  rw [readOneOf?_cons (by decide), Option.bind_some, readDigits?_padded (by decide) (by omega),
    Option.bind_some]
  dsimp only
  rw [readOneOf?_cons (by decide), Option.bind_some, readDigits?_padded (by decide) (by omega),
    Option.bind_some]
  dsimp only
  rw [readOneOf?_cons (by decide), Option.bind_some, readDigits?_padded (by decide) hsecond,
    Option.bind_some]
  dsimp only
  rw [readFraction?_fractionText hnanos hrest.endsNumber, Option.bind_some]
  dsimp only
  rw [hrest.readOffset?_eq, Option.bind_some, hcast]
  exact hcivil

/-! ## What is read -/

/-- Digits write a number below the power of ten of their count. -/
theorem digitsValue_lt {cs : List Char} (h : ∀ c ∈ cs, c.isDigit = true) :
    digitsValue cs < 10 ^ cs.length := by
  suffices hstart : ∀ start, Nat.ofDigitChars 10 cs start < (start + 1) * 10 ^ cs.length by
    have hzero := hstart 0
    rwa [Nat.zero_add, Nat.one_mul] at hzero
  induction cs with
  | nil => intro start; simp
  | cons c cs ih =>
      intro start
      have hdigit : c.toNat - '0'.toNat ≤ 9 := by
        have hc := Char.isDigit_iff_toNat.mp (h c List.mem_cons_self)
        have hzero : '0'.toNat = 48 := rfl
        have hnine : '9'.toNat = 57 := rfl
        omega
      rw [Nat.ofDigitChars_cons, List.length_cons]
      calc Nat.ofDigitChars 10 cs (10 * start + (c.toNat - '0'.toNat))
          < (10 * start + (c.toNat - '0'.toNat) + 1) * 10 ^ cs.length :=
            ih (fun d hd => h d (List.mem_cons_of_mem c hd)) _
        _ ≤ ((start + 1) * 10) * 10 ^ cs.length := Nat.mul_le_mul_right _ (by omega)
        _ = (start + 1) * 10 ^ (cs.length + 1) := by
            rw [Nat.pow_succ, Nat.mul_assoc, Nat.mul_comm 10]

theorem readFraction?_lt {cs rest : List Char} {nanos : Nat}
    (h : readFraction? cs = some (nanos, rest)) : nanos < nanosPerSecond := by
  unfold readFraction? at h
  split at h
  · rename_i digits
    simp only [Option.ite_none_left_eq_some, Option.some.injEq, Prod.mk.injEq] at h
    rw [← h.2.1]
    have hdigits : ∀ c ∈ (digits.takeWhile Char.isDigit).take 9, c.isDigit = true :=
      fun c hc => List.mem_takeWhile_imp (List.mem_of_mem_take hc)
    have hnine : ((digits.takeWhile Char.isDigit).take 9).length ≤ 9 := List.length_take_le _ _
    generalize (digits.takeWhile Char.isDigit).take 9 = kept at hdigits hnine ⊢
    calc digitsValue kept * 10 ^ (9 - kept.length)
        < 10 ^ kept.length * 10 ^ (9 - kept.length) :=
          Nat.mul_lt_mul_of_pos_right (digitsValue_lt hdigits) (Nat.pow_pos (by decide))
      _ = nanosPerSecond := by rw [← Nat.pow_add, Nat.add_sub_cancel' hnine]; rfl
  · rw [← (Prod.mk.inj (Option.some.inj h)).1]
    decide

/-- Offsets are whole minutes. -/
theorem dvd_of_readOffset? {cs : List Char} {offset : Int} (h : readOffset? cs = some offset) :
    60 ∣ offset := by
  unfold readOffset? at h
  split at h
  · exact Option.some.inj h ▸ Int.dvd_zero 60
  · exact Option.some.inj h ▸ Int.dvd_zero 60
  · split_ifs at h
    all_goals
      simp only [Option.bind_eq_bind, Option.bind_eq_some_iff, Option.some.injEq,
        Option.ite_none_right_eq_some, reduceCtorEq, false_and, exists_false] at h
    all_goals
      obtain ⟨direction, -, hours, -, -, -, minutes, -, -, rfl⟩ := h
      exact Dvd.dvd.mul_left (by omega) direction
  · simp at h

theorem isProper_of_ofCivil? {date : CivilDate} {hour minute second nanos : Nat} {offset : Int}
    {t : Instant} (hnanos : nanos < nanosPerSecond) (hoffset : 60 ∣ offset)
    (h : ofCivil? date hour minute second nanos offset = some t) : t.IsProper := by
  simp only [ofCivil?, Option.ite_none_right_eq_some, Option.some.injEq] at h
  obtain ⟨⟨-, -, -, hsecond⟩, rfl⟩ := h
  have hperDay : ((secondsPerDay : Nat) : Int) = 86400 := rfl
  unfold IsProper
  dsimp only
  by_cases hleap : second = 60
  · rw [if_pos hleap, hperDay]
    omega
  · rw [if_neg hleap]
    omega

/-- **What is read is a proper instant.** -/
theorem isProper_of_readTimestamp? {cs : List Char} {t : Instant} (h : readTimestamp? cs = some t) :
    t.IsProper := by
  simp only [readTimestamp?, Option.bind_eq_bind, Option.bind_eq_some_iff, Prod.exists] at h
  obtain ⟨_, _, -, _, -, _, _, -, _, -, _, _, -, _, -, _, _, -, _, -, _, _, -, _, -, _, _, -,
    nanos, _, hnanos, offset, hoffset, h⟩ := h
  exact isProper_of_ofCivil? (readFraction?_lt hnanos) (dvd_of_readOffset? hoffset) h

/-- A year with a sign is not read. -/
theorem readTimestamp?_sign {sign : Char} (hsign : sign.isDigit = false) (cs : List Char) :
    readTimestamp? (sign :: cs) = none := by
  have hdigits : readDigits? 4 (sign :: cs) = none := by simp [readDigits?, hsign]
  simp [readTimestamp?, hdigits]

theorem hasFourDigitYear_of_readTimestamp? {t u : Instant} {rest : List Char}
    (h : readTimestamp? (t.civilText ++ rest) = some u) : t.HasFourDigitYear := by
  rw [civilText_eq, yearText] at h
  by_cases hneg : t.date.year < 0
  · rw [if_pos hneg, List.cons_append, readTimestamp?_sign (by decide)] at h
    exact absurd h (by simp)
  by_cases hle : t.date.year ≤ 9999
  · exact ⟨by omega, hle⟩
  · rw [if_neg hneg, if_neg hle, List.cons_append, readTimestamp?_sign (by decide)] at h
    exact absurd h (by simp)

/-! ## The round trip -/

theorem isUtc_numeric : IsUtc "+00:00".toList := ⟨by simp [EndsNumber], rfl⟩

/-- **The timestamp of an instant is read back as the instant iff the instant is proper and its year
has four digits.** Seconds before 1970, fractions of any length and leap seconds are all kept. -/
theorem ofTimestamp?_timestamp_iff (t : Instant) :
    ofTimestamp? t.timestamp = some t ↔ t.IsProper ∧ t.HasFourDigitYear := by
  rw [ofTimestamp?, timestamp, String.toList_ofList]
  constructor
  · intro h
    exact ⟨isProper_of_readTimestamp? h, hasFourDigitYear_of_readTimestamp? h⟩
  · intro ⟨hproper, hyear⟩
    exact readTimestamp?_civilText hproper hyear isUtc_numeric

/-- Half a second into a leap second. -/
example :
    (⟨1483228799, 1500000000⟩ : Instant).timestamp = "2016-12-31T23:59:60.500+00:00" := by decide

end RuleMatching.Instant
