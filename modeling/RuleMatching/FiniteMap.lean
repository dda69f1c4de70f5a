set_option autoImplicit false

/-! # Finite maps in the order of their keys' first insertion

A `FiniteMap` is the list of its entries, with distinct keys. A new key goes to the end; a key that
is bound again keeps its place. The lookups after each operation are `get?_insert`, `get?_erase` and
`get?_modify`. -/

namespace RuleMatching

/-- A finite map that remembers the order in which its keys were inserted. -/
structure FiniteMap (κ α : Type) where
  entries : List (κ × α)
  distinct : (entries.map Prod.fst).Nodup

namespace FiniteMap

variable {κ α : Type} [DecidableEq κ]

/-- Changes the value of one key in a list of entries. -/
def modifyEntry (k : κ) (f : α → α) (e : κ × α) : κ × α := if e.1 = k then (e.1, f e.2) else e

@[simp] theorem fst_modifyEntry (k : κ) (f : α → α) (e : κ × α) : (modifyEntry k f e).1 = e.1 := by
  unfold modifyEntry; split <;> rfl

omit [DecidableEq κ] in
theorem nodup_map_filter (p : κ × α → Bool) {l : List (κ × α)} (h : (l.map Prod.fst).Nodup) :
    ((l.filter p).map Prod.fst).Nodup :=
  h.sublist ((List.filter_sublist (p := p)).map _)

def empty : FiniteMap κ α := ⟨[], List.nodup_nil⟩

instance : Inhabited (FiniteMap κ α) := ⟨empty⟩

/-- The value bound to the key. -/
def get? (m : FiniteMap κ α) (k : κ) : Option α := m.entries.lookup k

def contains (m : FiniteMap κ α) (k : κ) : Bool := (m.get? k).isSome

def keys (m : FiniteMap κ α) : List κ := m.entries.map Prod.fst

def values (m : FiniteMap κ α) : List α := m.entries.map Prod.snd

def size (m : FiniteMap κ α) : Nat := m.entries.length

def isEmpty (m : FiniteMap κ α) : Bool := m.entries.isEmpty

/-- The map with the value of the key changed; the same map if the key is not bound. -/
def modify (m : FiniteMap κ α) (k : κ) (f : α → α) : FiniteMap κ α :=
  ⟨m.entries.map (modifyEntry k f), by
    have h : (m.entries.map (modifyEntry k f)).map Prod.fst = m.entries.map Prod.fst := by simp
    rw [h]; exact m.distinct⟩

/-- The map without the key. -/
def erase (m : FiniteMap κ α) (k : κ) : FiniteMap κ α :=
  ⟨m.entries.filter (fun e => e.1 ≠ k), nodup_map_filter _ m.distinct⟩

theorem lookup_eq_none_iff {k : κ} {l : List (κ × α)} :
    l.lookup k = none ↔ k ∉ l.map Prod.fst := by
  induction l with
  | nil => simp
  | cons e rest ih => grind

/-- The map with the key bound to the value: in place if the key is bound already,
else at the end. -/
def insert (m : FiniteMap κ α) (k : κ) (v : α) : FiniteMap κ α :=
  if h : m.entries.lookup k = none then
    ⟨m.entries ++ [(k, v)], by
      rw [List.map_append, List.nodup_append]
      refine ⟨m.distinct, by simp, ?_⟩
      have hk := lookup_eq_none_iff.1 h
      intro a ha b hb hab
      simp only [List.map_cons, List.map_nil, List.mem_singleton] at hb
      exact hk (hb ▸ hab ▸ ha)⟩
  else m.modify k fun _ => v

/-! ## Lookup -/

@[simp] theorem get?_empty (k : κ) : (empty : FiniteMap κ α).get? k = none := rfl

theorem get?_modify (m : FiniteMap κ α) (k j : κ) (f : α → α) :
    (m.modify k f).get? j = if j = k then (m.get? j).map f else m.get? j := by
  obtain ⟨l, hl⟩ := m
  simp only [get?, modify]
  clear hl
  induction l with
  | nil => simp
  | cons e rest ih =>
    obtain ⟨a, v⟩ := e
    rw [List.map_cons, show modifyEntry k f (a, v) = (a, if a = k then f v else v) by
      unfold modifyEntry; split <;> rfl]
    by_cases hj : j = a
    · subst hj
      by_cases ha : j = k <;> simp [ha]
    · have h : (j == a) = false := by simp [hj]
      simp only [List.lookup_cons, h]
      exact ih

theorem get?_erase (m : FiniteMap κ α) (k j : κ) :
    (m.erase k).get? j = if j = k then none else m.get? j := by
  obtain ⟨l, hl⟩ := m
  simp only [get?, erase]
  clear hl
  induction l with
  | nil => simp
  | cons e rest ih =>
    obtain ⟨a, v⟩ := e
    by_cases ha : a = k
    · subst ha
      rw [List.filter_cons_of_neg (by simp), ih]
      by_cases hj : j = a
      · simp [hj]
      · have : (j == a) = false := by simp [hj]
        simp [hj, List.lookup_cons, this]
    · rw [List.filter_cons_of_pos (by simp [ha])]
      by_cases hj : j = a
      · subst hj; simp [ha]
      · have : (j == a) = false := by simp [hj]
        simp only [List.lookup_cons, this]
        exact ih

theorem get?_insert (m : FiniteMap κ α) (k j : κ) (v : α) :
    (m.insert k v).get? j = if j = k then some v else m.get? j := by
  unfold insert
  split
  · next h =>
    simp only [get?, List.lookup_append]
    by_cases hj : j = k
    · subst hj; simp [h]
    · cases m.entries.lookup j <;> grind
  · next h =>
    rw [get?_modify]
    by_cases hj : j = k
    · subst hj
      obtain ⟨w, hw⟩ := Option.ne_none_iff_exists'.1 h
      simp [get?, hw]
    · simp [hj]

end FiniteMap

end RuleMatching
