import RuleMatching.Proofs.Instant.Timestamp
import RuleMatching.Value.Json
import RuleMatching.Value.Text

set_option autoImplicit false

/-! # Values are read back from their documents

A document has no dates and no floats beyond the finite ones. **Reading the document of a value and
taking what is read as of the kind of the value gives back the value iff the value is recordable**
(`Value.coerce?_ofJson_toJson_iff`): no value that a document can hold comes back changed, and every
other one does. -/

namespace RuleMatching

/-! ## Reading -/

/-- The document stands for no value. -/
def Json.IsNested : Json → Prop
  | .array _ | .object _ => True
  | _ => False

/-- A document that is not nested is read as a value. -/
theorem Value.ofJson_cases (raw : Json) :
    (∃ v, Value.ofJson raw = .ok v ∧ ¬ raw.IsNested) ∨
      (raw.IsNested ∧ Value.ofJson raw = .error (.nested raw)) := by
  cases raw with
  | null => exact Or.inl ⟨_, rfl, id⟩
  | boolean b => exact Or.inl ⟨_, rfl, id⟩
  | number n => exact Or.inl ⟨_, rfl, id⟩
  | string s => exact Or.inl ⟨_, rfl, id⟩
  | array items => exact Or.inr ⟨trivial, rfl⟩
  | object members => exact Or.inr ⟨trivial, rfl⟩

namespace Value

theorem fitsInt64_iff (n : Int) : fitsInt64 n = true ↔ ∃ k : Int64, k.toInt = n := by
  simp only [fitsInt64, Bool.and_eq_true, decide_eq_true_eq]
  constructor
  · rintro ⟨hlow, hhigh⟩
    exact ⟨Int64.ofInt n, Int64.toInt_ofInt_of_le (by omega) (by omega)⟩
  · rintro ⟨k, rfl⟩
    have hlow := k.le_toInt
    have hhigh := k.toInt_lt
    omega

/-- The integers of a document that fit in 64 bits come back as they are. -/
theorem ofNumber_toInt (n : Int64) : ofNumber (.integer n.toInt) = integer n := by
  rw [ofNumber, if_pos ((fitsInt64_iff n.toInt).mpr ⟨n, rfl⟩), Int64.ofInt_toInt]

/-- The floats that a document cannot hold come back as null. -/
theorem ofJson_toJson_float (x : Binary64) :
    ofJson (float x).toJson = .ok (if x.isFinite = true then float x else null) := by
  rw [toJson, toJsonWith, Json.ofFloat]
  by_cases hx : x.isFinite = true
  · rw [if_pos hx, if_pos hx]
    rfl
  · rw [if_neg hx, if_neg hx]
    rfl

/-! ## Reading back -/

/-- A value is of its own kind, and null is of every kind. -/
theorem accepts_of_kind? {v : Value} {kind : Kind} (h : v.kind? = none ∨ v.kind? = some kind) :
    kind.accepts v = true := by
  cases v with
  | null => cases kind <;> rfl
  | boolean _ | integer _ | float _ | string _ | date _ =>
      simp only [kind?, reduceCtorEq, Option.some.injEq, false_or] at h
      rw [← h]
      rfl

theorem coerce?_of_kind? {v : Value} {kind : Kind} (h : v.kind? = none ∨ v.kind? = some kind) :
    v.coerce? kind = some v := if_pos (accepts_of_kind? h)

/-- A null stays null whatever kind it is taken as. -/
theorem coerce?_null (kind : Kind) : null.coerce? kind = some null :=
  coerce?_of_kind? (Or.inl rfl)

/-- The values that a document can hold: the finite floats, the proper dates whose year has four
digits, and all values of the other kinds. -/
def IsRecordable : Value → Prop
  | float x => x.isFinite = true
  | date t => t.IsProper ∧ t.HasFourDigitYear
  | _ => True

/-- The timestamp of a date is taken as the date iff the date is recordable. -/
theorem coerce?_timestamp_iff (t : Instant) :
    (string t.timestamp).coerce? .date = some (date t) ↔ (date t).IsRecordable := by
  show (Instant.ofTimestamp? t.timestamp).map date = some (date t) ↔ t.IsProper ∧ t.HasFourDigitYear
  rw [← Instant.ofTimestamp?_timestamp_iff, Option.map_eq_some_iff]
  constructor
  · rintro ⟨u, hu, heq⟩
    obtain rfl : u = t := date.inj heq
    exact hu
  · intro h
    exact ⟨t, h, rfl⟩

/-- **The document of a value is read and taken as the value iff the value is recordable.** Floats
keep their bits, dates their leap seconds and nanoseconds, and an integral float does not come back
as an integer. -/
theorem coerce?_ofJson_toJson_iff (v : Value) :
    (∃ w, ofJson v.toJson = .ok w ∧ ∀ kind, v.kind? = none ∨ v.kind? = some kind →
      w.coerce? kind = some v) ↔
      v.IsRecordable := by
  -- A document of scalars has one reading, so what is asked is asked of that one.
  have hread : ∀ {w : Value}, ofJson v.toJson = .ok w →
      ((∃ w, ofJson v.toJson = .ok w ∧ ∀ kind, v.kind? = none ∨ v.kind? = some kind →
        w.coerce? kind = some v) ↔
        ∀ kind, v.kind? = none ∨ v.kind? = some kind → w.coerce? kind = some v) := by
    intro w hw
    simp only [hw, Except.ok.injEq, exists_eq_left']
  cases v with
  | null | boolean _ | string _ =>
      rw [hread rfl]
      exact ⟨fun _ => trivial, fun _ kind hkind => coerce?_of_kind? hkind⟩
  | integer n =>
      have hw : ofJson (integer n).toJson = .ok (integer n) := congrArg Except.ok (ofNumber_toInt n)
      rw [hread hw]
      exact ⟨fun _ => trivial, fun _ kind hkind => coerce?_of_kind? hkind⟩
  | float x =>
      have hw := ofJson_toJson_float x
      by_cases hx : x.isFinite = true
      · rw [if_pos hx] at hw
        rw [hread hw]
        exact ⟨fun _ => hx, fun _ kind hkind => coerce?_of_kind? hkind⟩
      · rw [if_neg hx] at hw
        rw [hread hw]
        constructor
        · intro h
          have hnull := h .float (Or.inr rfl)
          rw [coerce?_null] at hnull
          exact absurd hnull (by simp)
        · intro h
          exact absurd h hx
  | date t =>
      rw [hread (w := string t.timestamp) rfl]
      rw [← coerce?_timestamp_iff]
      constructor
      · intro h
        exact h .date (Or.inr rfl)
      · intro h kind hkind
        simp only [kind?, reduceCtorEq, Option.some.injEq, false_or] at hkind
        exact hkind ▸ h

/-- **A leap second that does not end its minute is not read back**, although its year has four
digits: it is written as the second after it, and the second after it is what is read. -/
theorem coerce?_ofJson_toJson_improper : ∃ t : Instant, t = ⟨1709294404, 1333333333⟩ ∧
    t.nanos < 2 * Instant.nanosPerSecond ∧ t.HasFourDigitYear ∧
    ofJson (date t).toJson = .ok (string "2024-03-01T12:00:05.333333333+00:00") ∧
    (string "2024-03-01T12:00:05.333333333+00:00").coerce? .date =
      some (date ⟨1709294405, 333333333⟩) ∧
    ¬ ∃ w, ofJson (date t).toJson = .ok w ∧ w.coerce? .date = some (date t) := by
  have hwritten : ofJson (date ⟨1709294404, 1333333333⟩).toJson =
      .ok (string "2024-03-01T12:00:05.333333333+00:00") :=
    congrArg (fun text => Except.ok (string text))
      (show Instant.timestamp ⟨1709294404, 1333333333⟩ = _ by decide)
  have hread : (string "2024-03-01T12:00:05.333333333+00:00").coerce? .date =
      some (date ⟨1709294405, 333333333⟩) := by decide
  refine ⟨_, rfl, by decide, ⟨by decide, by decide⟩, hwritten, hread, ?_⟩
  rintro ⟨w, hw, hback⟩
  obtain rfl : string "2024-03-01T12:00:05.333333333+00:00" = w :=
    Except.ok.inj (hwritten.symm.trans hw)
  rw [hread] at hback
  exact absurd hback (by decide)

end Value

end RuleMatching
