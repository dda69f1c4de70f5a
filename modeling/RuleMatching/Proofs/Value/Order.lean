import Mathlib.Data.Prod.Lex
import RuleMatching.Proofs.Binary64.Exact
import RuleMatching.Proofs.Text.Bytes
import RuleMatching.Proofs.Value

set_option autoImplicit false

/-! # The order of values

Equality goes by keys, the order of numbers by integral parts and fractions. Both agree with the
numbers that integers and floats stand for: they are equal iff they are the same number, and their
order is the order of the numbers, of any size and of whatever kinds. Strings have the order of
their bytes, instants that of time. So the order is one, values of different kinds included: it
turns around with its arguments, it is transitive, and what is equal in it is what has equal keys
(`Value.order_laws`). -/

namespace RuleMatching

/-- In a linear order the order of the ends follows from two steps upwards. -/
theorem compare_then {α : Type} [LinearOrder α] {x y z : α} (hxy : (compare x y).isLE = true)
    (hyz : (compare y z).isLE = true) : compare x z = (compare x y).then (compare y z) := by
  rcases lt_trichotomy x y with h | rfl | h
  · have hle : y ≤ z := compare_le_iff_le.mp (Ordering.isLE_iff_ne_gt.mp hyz)
    rw [compare_lt_iff_lt.mpr h, compare_lt_iff_lt.mpr (lt_of_lt_of_le h hle)]
    rfl
  · rw [compare_eq_iff_eq.mpr (rfl : x = x)]
    rfl
  · rw [compare_gt_iff_gt.mpr h] at hxy
    cases hxy

namespace Instant

/-- The second and the place within it. A leap second is longer, so the nanoseconds may go beyond
those of others and yet come before the next second. -/
def place (t : Instant) : ℤ ×ₗ ℕ := toLex (t.seconds, t.nanos)

/-- The nanoseconds since the start of 1970, without leap seconds. -/
def elapsed (t : Instant) : ℤ := t.seconds * 10 ^ 9 + t.nanos

theorem compare_eq (s t : Instant) : s.compare t = Ord.compare s.place t.place := rfl

theorem compare_swap (s t : Instant) : (s.compare t).swap = t.compare s := by
  rw [compare_eq, compare_eq]
  exact (Std.OrientedOrd.eq_swap (a := t.place)).symm

theorem compare_eq_eq (s t : Instant) : s.compare t = .eq ↔ s = t := by
  rw [compare_eq, compare_eq_iff_eq, place, place, toLex_inj, Prod.mk.injEq]
  cases s
  cases t
  rw [mk.injEq]

/-- Instants outside of leap seconds have the order of the nanoseconds before them. -/
theorem compare_eq_elapsed {s t : Instant} (hs : s.nanos < 10 ^ 9) (ht : t.nanos < 10 ^ 9) :
    s.compare t = Ord.compare s.elapsed t.elapsed := by
  unfold compare elapsed
  rcases lt_trichotomy s.seconds t.seconds with h | h | h
  · have helapsed : s.seconds * 10 ^ 9 + s.nanos < t.seconds * 10 ^ 9 + t.nanos := by omega
    rw [compare_lt_iff_lt.mpr h, compare_lt_iff_lt.mpr helapsed]
    rfl
  · rw [h, compare_eq_iff_eq.mpr rfl, Ordering.eq_then]
    rcases lt_trichotomy s.nanos t.nanos with hn | hn | hn
    · rw [compare_lt_iff_lt.mpr hn, eq_comm, compare_lt_iff_lt]
      omega
    · rw [hn, compare_eq_iff_eq.mpr rfl, compare_eq_iff_eq.mpr rfl]
    · rw [compare_gt_iff_gt.mpr hn, eq_comm, compare_gt_iff_gt]
      omega
  · have helapsed : t.seconds * 10 ^ 9 + t.nanos < s.seconds * 10 ^ 9 + s.nanos := by omega
    rw [compare_gt_iff_gt.mpr h, compare_gt_iff_gt.mpr helapsed]
    rfl

end Instant

namespace Value

open Binary64 (Extended extend unitsPerOne)

/-! ## Numbers -/

def IsNumber : Value → Prop
  | integer _ | float _ => True
  | _ => False

/-- The number that the value stands for; none for a NaN and for what is no number. -/
def exactValue? : Value → Option Extended
  | integer n => some ((n.toInt : ℚ) : Extended)
  | float x => x.exactValue?
  | _ => none

/-- The same in units. -/
def units? : Value → Option Int
  | integer n => some (n.toInt * unitsPerOne)
  | float x => if x.isNaN then none else some x.units
  | _ => none

theorem exactValue?_eq (v : Value) : v.exactValue? = v.units?.map extend := by
  cases v with
  | integer n => exact congrArg some (Binary64.extend_mul_unitsPerOne n).2.symm
  | float x =>
      rw [exactValue?, units?, Binary64.exactValue?_eq]
      split <;> rfl
  | null | boolean _ | string _ | date _ => rfl

theorem mem_of_units? {v : Value} {u : Int} (h : v.units? = some u) :
    u ∈ Set.Icc (-(Binary64.infinity.magnitude : Int)) Binary64.infinity.magnitude := by
  cases v with
  | integer n =>
      cases h
      exact (Binary64.extend_mul_unitsPerOne n).1
  | float x =>
      cases hx : x.isNaN with
      | true => simp [units?, hx] at h
      | false =>
          simp only [units?, hx, Bool.false_eq_true, if_false, Option.some.injEq] at h
          exact h ▸ Binary64.units_mem hx
  | null | boolean _ | string _ | date _ => cases h

theorem units?_float (x : Binary64) : (float x).units? = if x.isNaN then none else some x.units :=
  rfl

/-- Numbers have one key iff they have the same units, or both are NaNs. -/
theorem key_eq_iff_units? {a b : Value} (ha : a.IsNumber) (hb : b.IsNumber) :
    a.key = b.key ↔ a.units? = b.units? := by
  have hinteger : ∀ (n : Int64) (x : Binary64),
      (float x).key = (integer n).key ↔ (float x).units? = (integer n).units? := by
    intro n x
    rw [show (integer n).key = .integer n from rfl, key_float_eq_integer_iff,
      Binary64.toInt64?_eq_some_iff, units?_float,
      show (integer n).units? = some (n.toInt * unitsPerOne) from rfl]
    cases x.isNaN with
    | true =>
        rw [if_pos rfl]
        exact ⟨fun h => (nomatch h.1), fun h => (nomatch h)⟩
    | false =>
        rw [if_neg Bool.false_ne_true, Option.some.injEq]
        exact and_iff_right rfl
  cases a with
  | integer n =>
      cases b with
      | integer m =>
          have hU := Int.ne_of_gt Binary64.unitsPerOne_pos
          rw [key, key, Key.integer.injEq, units?, units?, Option.some.injEq,
            Int.mul_eq_mul_right_iff hU, Int64.toInt_inj]
      | float y => rw [eq_comm, hinteger, eq_comm]
      | null | boolean _ | string _ | date _ => cases hb
  | float x =>
      cases b with
      | integer m => exact hinteger m x
      | float y =>
          rw [key_float_eq_iff, units?_float, units?_float]
          cases x.isNaN <;> cases y.isNaN <;> simp
      | null | boolean _ | string _ | date _ => cases hb
  | null | boolean _ | string _ | date _ => cases ha

/-- Numbers are compared by their units. -/
theorem compare?_eq_units? {a b : Value} (ha : a.IsNumber) (hb : b.IsNumber) :
    a.compare? b = Option.map₂ compare a.units? b.units? := by
  cases a with
  | integer n =>
      cases b with
      | integer m => exact congrArg some (Binary64.compare_mul_unitsPerOne n.toInt m.toInt).symm
      | float y =>
          rw [compare?_integer_float, Binary64.compareInt?, units?_float]
          split <;> rfl
      | null | boolean _ | string _ | date _ => cases hb
  | float x =>
      cases b with
      | integer m =>
          rw [compare?_float_integer, Binary64.compareInt?, units?_float]
          split
          · rfl
          · exact congrArg some (Int.compare_swap _ _)
      | float y =>
          rw [compare?, Binary64.compare?, units?_float, units?_float]
          cases x.isNaN <;> cases y.isNaN <;> rfl
      | null | boolean _ | string _ | date _ => cases hb
  | null | boolean _ | string _ | date _ => cases ha

/-- **Numbers are equal iff they stand for the same number**, a NaN for none. -/
theorem nullSafeEq_iff_exactValue? {a b : Value} (ha : a.IsNumber) (hb : b.IsNumber) :
    a.nullSafeEq b = true ↔ a.exactValue? = b.exactValue? := by
  rw [nullSafeEq_iff, key_eq_iff_units? ha hb, exactValue?_eq, exactValue?_eq]
  constructor
  · intro h
    rw [h]
  · intro h
    cases hu : a.units? with
    | none =>
        rw [hu, Option.map_none, eq_comm, Option.map_eq_none_iff] at h
        exact h.symm
    | some u =>
        rw [hu, Option.map_some, eq_comm, Option.map_eq_some_iff] at h
        obtain ⟨v, hv, heq⟩ := h
        rw [hv, Binary64.strictMonoOn_extend.injOn (mem_of_units? hv) (mem_of_units? hu) heq]

/-- **Numbers have the order of the numbers that they stand for.** -/
theorem compare?_eq_exactValue? {a b : Value} (ha : a.IsNumber) (hb : b.IsNumber) :
    a.compare? b = Option.map₂ cmp a.exactValue? b.exactValue? := by
  rw [compare?_eq_units? ha hb, exactValue?_eq, exactValue?_eq]
  cases hu : a.units? with
  | none => rfl
  | some u =>
      cases hv : b.units? with
      | none => rfl
      | some v =>
          have hcmp := Binary64.strictMonoOn_extend.cmp_map_eq (mem_of_units? hu) (mem_of_units? hv)
          rw [Option.map₂_some_some, Option.map_some, Option.map_some, Option.map₂_some_some, hcmp,
            cmp_eq_compare]

/-! ## Values of all kinds -/

/-- The value has a place in the order: it is neither null, nor a boolean, nor a NaN. -/
def HasPlace : Value → Prop
  | null | boolean _ => False
  | float x => x.isNaN = false
  | integer _ | string _ | date _ => True

theorem key_of_isNumber {a : Value} (ha : a.IsNumber) :
    (∃ n, a.key = .integer n) ∨ ∃ w, a.key = .float w := by
  cases a with
  | integer n => exact Or.inl ⟨n, rfl⟩
  | float x => exact key_float_cases x
  | null | boolean _ | string _ | date _ => cases ha

theorem IsNumber.key_ne_string {a : Value} (ha : a.IsNumber) (s : String) :
    a.key ≠ (string s).key := by
  intro h
  rcases key_of_isNumber ha with ⟨n, hn⟩ | ⟨w, hw⟩
  · cases hn.symm.trans h
  · cases hw.symm.trans h

theorem IsNumber.key_ne_date {a : Value} (ha : a.IsNumber) (t : Instant) :
    a.key ≠ (date t).key := by
  intro h
  rcases key_of_isNumber ha with ⟨n, hn⟩ | ⟨w, hw⟩
  · cases hn.symm.trans h
  · cases hw.symm.trans h

/-- The ways two values can stand to each other: both are numbers, or strings, or instants, or the
order does not compare them. -/
inductive Pairing : Value → Value → Prop where
  | numbers {a b : Value} (ha : a.IsNumber) (hb : b.IsNumber) : Pairing a b
  | strings (s t : String) : Pairing (string s) (string t)
  | dates (s t : Instant) : Pairing (date s) (date t)
  | apart {a b : Value} (hab : a.compare? b = none) (hba : b.compare? a = none)
      (hkey : a.HasPlace → b.HasPlace → a.key ≠ b.key) : Pairing a b

theorem pairing (a b : Value) : Pairing a b := by
  cases a with
  | integer _ | float _ =>
      cases b with
      | integer _ | float _ => exact .numbers trivial trivial
      | string t => exact .apart rfl rfl fun _ _ => IsNumber.key_ne_string (by trivial) t
      | date t => exact .apart rfl rfl fun _ _ => IsNumber.key_ne_date (by trivial) t
      | null | boolean _ => exact .apart rfl rfl fun _ hb => hb.elim
  | string s =>
      cases b with
      | string t => exact .strings s t
      | integer _ | float _ =>
          exact .apart rfl rfl fun _ _ => (IsNumber.key_ne_string (by trivial) s).symm
      | date t => exact .apart rfl rfl fun _ _ => by simp [key]
      | null | boolean _ => exact .apart rfl rfl fun _ hb => hb.elim
  | date s =>
      cases b with
      | date t => exact .dates s t
      | integer _ | float _ =>
          exact .apart rfl rfl fun _ _ => (IsNumber.key_ne_date (by trivial) s).symm
      | string t => exact .apart rfl rfl fun _ _ => by simp [key]
      | null | boolean _ => exact .apart rfl rfl fun _ hb => hb.elim
  | null | boolean _ => cases b <;> exact .apart rfl rfl fun ha _ => ha.elim

/-- Only numbers, strings and instants are compared, each with its like. -/
theorem cases_of_compare? {a b : Value} {o : Ordering} (h : a.compare? b = some o) :
    (∃ u v, a.units? = some u ∧ b.units? = some v ∧ a.IsNumber ∧ b.IsNumber ∧ o = compare u v) ∨
      (∃ s t, a = string s ∧ b = string t ∧ o = compare s t) ∨
        ∃ s t, a = date s ∧ b = date t ∧ o = s.compare t := by
  cases pairing a b with
  | numbers ha hb =>
      rw [compare?_eq_units? ha hb, Option.map₂_eq_some_iff] at h
      obtain ⟨u, v, hu, hv, ho⟩ := h
      exact Or.inl ⟨u, v, hu, hv, ha, hb, ho.symm⟩
  | strings s t => exact Or.inr (Or.inl ⟨s, t, rfl, rfl, (Option.some.inj h).symm⟩)
  | dates s t => exact Or.inr (Or.inr ⟨s, t, rfl, rfl, (Option.some.inj h).symm⟩)
  | apart hab => cases hab.symm.trans h

/-- The order turns around with its arguments. -/
theorem compare?_swap (a b : Value) : a.compare? b = (b.compare? a).map Ordering.swap := by
  cases pairing a b with
  | numbers ha hb =>
      rw [compare?_eq_units? ha hb, compare?_eq_units? hb ha]
      cases a.units? with
      | none => cases b.units? <;> rfl
      | some u =>
          cases b.units? with
          | none => rfl
          | some v => exact congrArg some (Int.compare_swap v u).symm
  | strings s t => exact congrArg some (Std.OrientedOrd.eq_swap (a := s) (b := t))
  | dates s t => exact congrArg some (t.compare_swap s).symm
  | apart hab hba => rw [hab, hba, Option.map_none]

/-- Steps upwards add up, over integers and floats as they come. -/
theorem compare?_trans {a b c : Value} {o p : Ordering} (hab : a.compare? b = some o)
    (hbc : b.compare? c = some p) (ho : o.isLE = true) (hp : p.isLE = true) :
    a.compare? c = some (o.then p) := by
  rcases cases_of_compare? hab with
    ⟨u, v, hu, hv, ha, hb, rfl⟩ | ⟨s, t, rfl, rfl, rfl⟩ | ⟨s, t, rfl, rfl, rfl⟩
  · rcases cases_of_compare? hbc with
      ⟨v', w, hv', hw, -, hc, rfl⟩ | ⟨t, r, rfl, rfl, rfl⟩ | ⟨t, r, rfl, rfl, rfl⟩
    · rw [hv, Option.some.injEq] at hv'
      subst hv'
      rw [compare?_eq_units? ha hc, hu, hw, Option.map₂_some_some, compare_then ho hp]
    · cases hb
    · cases hb
  · rcases cases_of_compare? hbc with
      ⟨v', w, hv', hw, hb, hc, rfl⟩ | ⟨t, r, ht, rfl, rfl⟩ | ⟨t, r, ht, rfl, rfl⟩
    · cases hb
    · cases ht
      exact congrArg some (compare_then ho hp)
    · cases ht
  · rcases cases_of_compare? hbc with
      ⟨v', w, hv', hw, hb, hc, rfl⟩ | ⟨t, r, ht, rfl, rfl⟩ | ⟨t, r, ht, rfl, rfl⟩
    · cases hb
    · cases ht
    · cases ht
      have hplace : compare s.place r.place = (s.compare t).then (t.compare r) :=
        compare_then (y := t.place) ho hp
      exact congrArg some hplace

/-- A number has a place iff it stands for one. -/
theorem exists_units? {v : Value} (hplace : v.HasPlace) (hv : v.IsNumber) :
    ∃ u, v.units? = some u := by
  cases v with
  | integer n => exact ⟨_, rfl⟩
  | float x =>
      rw [units?_float, if_neg (by rw [show x.isNaN = false from hplace]; exact Bool.false_ne_true)]
      exact ⟨_, rfl⟩
  | null | boolean _ | string _ | date _ => cases hv

/-- Values with a place are the same in the order iff they are equal. -/
theorem compare?_eq_eq_iff {a b : Value} (ha : a.HasPlace) (hb : b.HasPlace) :
    a.compare? b = some .eq ↔ a.nullSafeEq b = true := by
  cases pairing a b with
  | numbers hna hnb =>
      obtain ⟨u, hu⟩ := exists_units? ha hna
      obtain ⟨v, hv⟩ := exists_units? hb hnb
      rw [nullSafeEq_iff, key_eq_iff_units? hna hnb, compare?_eq_units? hna hnb, hu, hv,
        Option.map₂_some_some, Option.some.injEq, Option.some.injEq, Int.compare_eq_eq]
  | strings s t =>
      rw [compare?, Option.some.injEq, compare_eq_iff_eq]
      exact beq_iff_eq.symm
  | dates s t =>
      rw [compare?, Option.some.injEq, Instant.compare_eq_eq, nullSafeEq_iff, key, key,
        Key.date.injEq]
  | apart hab _ hkey =>
      rw [hab, nullSafeEq_iff]
      exact ⟨fun h => (by cases h), fun h => absurd h (hkey ha hb)⟩

theorem exactValue?_float_eq_none_iff (x : Binary64) :
    (float x).exactValue? = none ↔ x.isNaN = true := by
  rw [exactValue?, Binary64.exactValue?_eq]
  cases x.isNaN <;> simp

/-- **Equality and order of values are those of what the values stand for.** Values are equal
iff their keys are. Numbers are equal iff they stand for the same number and have the order of
these, NaNs apart; strings have the order of their bytes, instants that of time. The order turns
around with its arguments and is transitive, and values with a place in it are the same there
iff they are equal. -/
theorem order_laws :
    (∀ a b : Value, a.nullSafeEq b = true ↔ a.key = b.key) ∧
    (∀ x : Binary64, (float x).exactValue? = none ↔ x.isNaN = true) ∧
    (∀ a b : Value, a.IsNumber → b.IsNumber →
      (a.nullSafeEq b = true ↔ a.exactValue? = b.exactValue?) ∧
      a.compare? b = Option.map₂ cmp a.exactValue? b.exactValue?) ∧
    (∀ s t : String, (string s).compare? (string t) =
      some (compare (Text.bytes s) (Text.bytes t))) ∧
    (∀ s t : Instant, (date s).compare? (date t) = some (compare s.place t.place) ∧
      (s.nanos < 10 ^ 9 → t.nanos < 10 ^ 9 →
        (date s).compare? (date t) = some (compare s.elapsed t.elapsed))) ∧
    (∀ a b : Value, a.compare? b = (b.compare? a).map Ordering.swap) ∧
    (∀ (a b c : Value) (o p : Ordering), a.compare? b = some o → b.compare? c = some p →
      o.isLE = true → p.isLE = true → a.compare? c = some (o.then p)) ∧
    ∀ a b : Value, a.HasPlace → b.HasPlace → (a.compare? b = some .eq ↔ a.nullSafeEq b = true) := by
  refine ⟨nullSafeEq_iff, exactValue?_float_eq_none_iff, fun a b ha hb => ?numbers,
    fun s t => ?strings, fun s t => ?instants, compare?_swap, fun a b c o p => compare?_trans,
    fun a b => compare?_eq_eq_iff⟩
  case numbers => exact ⟨nullSafeEq_iff_exactValue? ha hb, compare?_eq_exactValue? ha hb⟩
  case strings => exact congrArg some (Text.compare_eq_compare_bytes s t)
  case instants => exact ⟨rfl, fun hs ht => congrArg some (Instant.compare_eq_elapsed hs ht)⟩

/-- The float `-0.0` is the integer 0, and that is less than the float `2 ^ 63`, which is no
integer of 64 bits. -/
theorem order_laws_zero :
    (float ⟨0x8000000000000000⟩).HasPlace ∧ (integer 0).HasPlace ∧
    (float ⟨0x8000000000000000⟩).compare? (integer 0) = some .eq ∧
    (integer 0).compare? (float ⟨0x43e0000000000000⟩) = some .lt ∧
    (float ⟨0x8000000000000000⟩).compare? (float ⟨0x43e0000000000000⟩) = some .lt := by
  obtain ⟨-, -, -, -, -, -, htrans, heq⟩ := order_laws
  have hfloat : (float ⟨0x8000000000000000⟩).HasPlace := show Binary64.isNaN _ = false by decide
  have hinteger : (integer 0).HasPlace := trivial
  have hzero : (float ⟨0x8000000000000000⟩).compare? (integer 0) = some .eq :=
    (heq _ _ hfloat hinteger).mpr (by decide +kernel)
  have hbound : (integer 0).compare? (float ⟨0x43e0000000000000⟩) = some .lt := by decide +kernel
  exact ⟨hfloat, hinteger, hzero, hbound, htrans _ _ _ _ _ hzero hbound rfl rfl⟩

end Value

end RuleMatching
