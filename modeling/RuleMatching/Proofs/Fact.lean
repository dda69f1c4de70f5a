import Mathlib.Data.List.Sort
import RuleMatching.Accessor
import RuleMatching.Proofs.FiniteMap
import RuleMatching.Proofs.Value

set_option autoImplicit false

/-! # Versions of a fact

The changed fields of two versions are found in two passes, one over the fields of either version.
Together they are the fields whose values are not identical (`Fact.mem_changedFields_iff`). Two
reads are alike if both succeed with identical values. A change of a fact that keeps its type leaves
the reads of all fields alike that are not among its changed fields (`Accessor.readsAlike`). -/

namespace RuleMatching

namespace NameMap

variable {α : Type}

theorem get?_eq_none_iff (m : NameMap α) (name : String) : m.get? name = none ↔ name ∉ m.names :=
  FiniteMap.lookup_eq_none_iff

theorem mem_names_insert (m : NameMap α) (name other : String) (value : α) :
    other ∈ (m.insert name value).names ↔ other = name ∨ other ∈ m.names := by
  rw [← not_iff_not, ← get?_eq_none_iff, get?_insert, not_or, ← get?_eq_none_iff]
  split <;> simp_all

theorem mem_names_foldl_insert (m : NameMap α) (l : List (String × α)) (name : String) :
    name ∈ (l.foldl (fun m e => m.insert e.1 e.2) m).names ↔ name ∈ m.names ∨
    name ∈ l.map Prod.fst := by
  induction l generalizing m with
  | nil => simp
  | cons e rest ih =>
      rw [List.foldl_cons, ih, mem_names_insert, List.map_cons, List.mem_cons]
      constructor
      · rintro ((h | h) | h)
        · exact Or.inr (Or.inl h)
        · exact Or.inl h
        · exact Or.inr (Or.inr h)
      · rintro (h | h | h)
        · exact Or.inl (Or.inr h)
        · exact Or.inl (Or.inl h)
        · exact Or.inr h

theorem mem_names_ofList (l : List (String × α)) (name : String) :
    name ∈ (ofList l).names ↔ name ∈ l.map Prod.fst :=
  (mem_names_foldl_insert empty l name).trans (or_iff_right (List.not_mem_nil))

theorem nodup_names (m : NameMap α) : m.names.Nodup :=
  List.pairwise_map.mpr (m.sorted.imp Std.ne_of_lt)

theorem mem_entries_iff (m : NameMap α) {name : String} {v : α} :
    (name, v) ∈ m.entries ↔ m.get? name = some v :=
  (FiniteMap.lookup_eq_some_iff m.nodup_names).symm

end NameMap

/-! ## Changed fields -/

theorem insertName_eq (name : String) (names : List String) :
    insertName name names = names.orderedInsert (· ≤ ·) name := by
  induction names with
  | nil => rfl
  | cons n rest ih => rw [insertName, List.orderedInsert_cons, ih]

theorem sortNames_eq (names : List String) : sortNames names = names.insertionSort (· ≤ ·) := by
  induction names with
  | nil => rfl
  | cons n rest ih =>
      rw [List.insertionSort_cons, ← ih, ← insertName_eq]
      rfl

/-- Only null is identical to null. -/
theorem Value.isIdentical_null (v : Value) : (null : Value).isIdentical v = v.isNull := by
  cases v <;> rfl

/-- Identical values are of one kind, or both null. -/
theorem Value.typeName_of_isIdentical {v w : Value} (h : v.isIdentical w = true) :
    v.typeName = w.typeName := by
  rcases cases_of_isIdentical h with rfl | ⟨x, y, rfl, rfl, -⟩
  · rfl
  · rfl

namespace Fact

variable {a b : Fact} {field : String}

theorem mem_differing_iff :
    field ∈ a.differing b ↔ ∃ v, a.get? field = some v ∧ v.isIdentical (b.value field) = false := by
  simp [differing, NameMap.mem_entries_iff, get?]

theorem mem_added_iff :
    field ∈ a.added b ↔ a.get? field = none ∧ ∃ v, b.get? field = some v ∧ v.isNull = false := by
  simp [added, NameMap.mem_entries_iff, NameMap.contains, get?, and_left_comm]

/-- No name is found twice: what the first fact has is not added by the second. -/
theorem nodup_differing_added (a b : Fact) : (a.differing b ++ a.added b).Nodup := by
  refine List.nodup_append.mpr ⟨a.fields.nodup_names.sublist (List.filter_sublist.map Prod.fst),
    b.fields.nodup_names.sublist (List.filter_sublist.map Prod.fst), fun m hm n hn heq => ?_⟩
  obtain ⟨v, hv, -⟩ := mem_differing_iff.mp hm
  rw [heq, (mem_added_iff.mp hn).1] at hv
  cases hv

/-- **A field is among the changed ones iff its values are not identical**, where a field that is
not there holds null. -/
theorem mem_changedFields_iff :
    field ∈ a.changedFields b ↔ (a.value field).isIdentical (b.value field) = false := by
  rw [changedFields, sortNames_eq, List.mem_insertionSort, List.mem_append, mem_differing_iff,
    mem_added_iff]
  cases ha : a.get? field with
  | some v => simp [value, ha]
  | none =>
      have hnull : a.value field = .null := by rw [value, ha]; rfl
      rw [hnull, Value.isIdentical_null]
      cases hb : b.get? field with
      | some w => simp [value, hb]
      | none => simp [value, hb, Value.isNull]

/-- **The changed fields are listed in order, each once.** -/
theorem pairwise_changedFields (a b : Fact) : (a.changedFields b).Pairwise (· < ·) := by
  have hnodup : ((a.differing b ++ a.added b).insertionSort (· ≤ ·)).Nodup :=
    (List.perm_insertionSort _ _).nodup_iff.mpr (nodup_differing_added a b)
  rw [changedFields, sortNames_eq]
  exact ((List.pairwise_insertionSort (· ≤ ·) _).and hnodup).imp fun h => Std.lt_of_le_of_ne h.1 h.2

/-- A field that is not among the changed ones holds identical values in both versions. -/
theorem isIdentical_of_not_mem_changedFields (h : field ∉ a.changedFields b) :
    (a.value field).isIdentical (b.value field) = true := by
  rwa [mem_changedFields_iff, Bool.not_eq_false] at h

end Fact

/-! ## Reads -/

/-- Both reads succeed, with identical values. -/
def ReadsAlike (x y : Except ReadError Value) : Prop :=
  ∃ v w, x = .ok v ∧ y = .ok w ∧ v.isIdentical w = true

theorem ReadsAlike.refl {x : Except ReadError Value} (h : ∃ v, x = .ok v) : ReadsAlike x x := by
  obtain ⟨v, rfl⟩ := h
  exact ⟨v, v, rfl, rfl, Value.isIdentical_refl v⟩

namespace Accessor

/-- **A field with identical values reads alike in facts of one type**, or the same error comes
of both reads. -/
theorem read_of_isIdentical {a : Accessor} {f f' : Fact} (htype : f.factType = f'.factType)
    (hvalue : (f.value a.field).isIdentical (f'.value a.field) = true) :
    (∃ cause, a.read f = .error cause ∧ a.read f' = .error cause) ∨
    ReadsAlike (a.read f) (a.read f') := by
  have haccepts := Value.accepts_of_isIdentical hvalue a.kind
  have hname := Value.typeName_of_isIdentical hvalue
  simp only [read, ← htype, ← haccepts, ← hname]
  split
  · exact Or.inl ⟨_, rfl, rfl⟩
  · split
    · exact Or.inr ⟨_, _, rfl, rfl, hvalue⟩
    · exact Or.inl ⟨_, rfl, rfl⟩

/-- **A field that is not among the changed ones reads alike in both versions.** -/
theorem readsAlike {a : Accessor} {old new : Fact} (htype : old.factType = new.factType)
    (hfield : a.field ∉ old.changedFields new) (hread : ∃ v, a.read old = .ok v) :
    ReadsAlike (a.read old) (a.read new) := by
  obtain ⟨v, hv⟩ := hread
  rcases read_of_isIdentical htype (Fact.isIdentical_of_not_mem_changedFields hfield) with
    ⟨cause, hfails, -⟩ | halike
  · cases hv.symm.trans hfails
  · exact halike

end Accessor

end RuleMatching
