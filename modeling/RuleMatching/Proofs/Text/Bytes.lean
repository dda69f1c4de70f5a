import Mathlib.Data.String.Basic

set_option autoImplicit false

/-! # The order of strings is the order of their bytes

Strings are ordered character by character. UTF-8 is made so that the order of the bytes is the
same: of two characters the greater one has the greater byte at the first place where their
encodings differ, and neither encoding is a beginning of the other
(`Text.firstLess_utf8EncodeChar`). So the strings have the order of their encodings
(`Text.compare_eq_compare_bytes`). -/

namespace RuleMatching.Text

/-- The UTF-8 encoding of a string. -/
def bytes (s : String) : List UInt8 := s.toUTF8.data.toList

theorem bytes_eq (s : String) : bytes s = s.toList.flatMap String.utf8EncodeChar := by
  rw [bytes, String.toUTF8_eq_toByteArray, ← String.utf8Encode_toList, List.utf8Encode,
    List.data_toByteArray]

/-! ## Lists that differ -/

/-- The first list has the lesser byte at the first place where the lists differ. -/
inductive FirstLess : List UInt8 → List UInt8 → Prop
  | here {x y : UInt8} {l l' : List UInt8} (h : x < y) : FirstLess (x :: l) (y :: l')
  | there {x : UInt8} {l l' : List UInt8} (h : FirstLess l l') : FirstLess (x :: l) (x :: l')

/-- What differs is compared at the first difference, whatever comes after. -/
theorem FirstLess.compare_append {l l' : List UInt8} (h : FirstLess l l') (u v : List UInt8) :
    compare (l ++ u) (l' ++ v) = .lt := by
  induction h with
  | here h =>
      have hlt := Std.compare_eq_lt.mpr h
      rw [List.cons_append, List.cons_append, List.compare_cons_cons, hlt]
      rfl
  | there _ ih =>
      rw [List.cons_append, List.cons_append, List.compare_cons_cons, Std.compare_self,
        Ordering.eq_then, ih]

/-- What is common at the start does not count. -/
theorem compare_append_left (l u v : List UInt8) : compare (l ++ u) (l ++ v) = compare u v := by
  induction l with
  | nil => rfl
  | cons x l ih =>
      rw [List.cons_append, List.cons_append, List.compare_cons_cons, Std.compare_self,
        Ordering.eq_then, ih]

/-! ## Encodings of characters -/

/-- A byte is compared first; if it is common, the rest decides. -/
theorem FirstLess.step {m n : Nat} {l l' : List UInt8} (hm : m < 256) (hn : n < 256) (hle : m ≤ n)
    (hrest : m = n → FirstLess l l') : FirstLess (UInt8.ofNat m :: l) (UInt8.ofNat n :: l') := by
  rcases Nat.lt_or_eq_of_le hle with hlt | rfl
  · refine .here ?_
    rw [UInt8.lt_iff_toNat_lt, UInt8.toNat_ofNat', UInt8.toNat_ofNat', Nat.mod_eq_of_lt hm,
      Nat.mod_eq_of_lt hn]
    exact hlt
  · exact .there (hrest rfl)

/-- **The greater character has the greater encoding.** -/
theorem firstLess_utf8EncodeChar {c d : Char} (h : c < d) :
    FirstLess (String.utf8EncodeChar c) (String.utf8EncodeChar d) := by
  have hlt : c.val.toNat < d.val.toNat := h
  have hd : d.val.toNat < 0x110000 := by
    rcases d.valid with hv | ⟨-, hv⟩
    · exact Nat.lt_trans hv (by decide)
    · exact hv
  unfold String.utf8EncodeChar
  generalize c.val.toNat = v at *
  generalize d.val.toNat = w at *
  -- The first byte grows with the length of the encoding; at the same length the bytes are the
  -- digits of the character, the highest first.
  dsimp only
  split_ifs <;> (repeat' refine FirstLess.step (by omega) (by omega) (by omega) fun _ => ?_)
    <;> omega

/-! ## Strings -/

/-- A list of characters that comes first is encoded by bytes that come first. -/
theorem compare_flatMap_of_lt {l l' : List Char} (h : l < l') :
    compare (l.flatMap String.utf8EncodeChar) (l'.flatMap String.utf8EncodeChar) = .lt := by
  induction h with
  | @nil c rest =>
    rw [List.flatMap_nil, List.flatMap_cons]
    obtain ⟨x, l, hx⟩ := List.exists_cons_of_ne_nil (String.utf8EncodeChar_ne_nil (c := c))
    rw [hx]
    exact List.compare_nil_cons
  | cons h ih =>
    rw [List.flatMap_cons, List.flatMap_cons, compare_append_left]
    exact ih
  | rel h =>
    rw [List.flatMap_cons, List.flatMap_cons]
    exact (firstLess_utf8EncodeChar h).compare_append _ _

/-- **Strings have the order of their bytes.** -/
theorem compare_eq_compare_bytes (s t : String) : compare s t = compare (bytes s) (bytes t) := by
  have hlt : ∀ {s t : String}, s < t → compare (bytes s) (bytes t) = .lt := by
    intro s t h
    rw [bytes_eq, bytes_eq]
    exact compare_flatMap_of_lt (String.lt_iff_toList_lt.mp h)
  rcases lt_trichotomy s t with h | rfl | h
  · rw [hlt h]
    exact compare_lt_iff_lt.mpr h
  · rw [Std.compare_self, Std.compare_self]
  · rw [Std.OrientedOrd.eq_swap (a := bytes s), hlt h]
    exact compare_gt_iff_gt.mpr h

end RuleMatching.Text
