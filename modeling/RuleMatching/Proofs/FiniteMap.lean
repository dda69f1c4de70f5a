import Mathlib.Data.List.Nodup
import RuleMatching.FiniteMap

set_option autoImplicit false

/-! # Entries and keys of finite maps

Beside the lookups, a finite map is known by its list of keys: an insertion of a new key appends it,
an erasure filters it, and a change of values keeps it. Lookups are membership of entries
(`FiniteMap.get?_eq_some_iff`). -/

namespace RuleMatching

/-- One item fewer is left when a member goes. -/
theorem length_filter_ne {α : Type} [DecidableEq α] {l : List α} (hn : l.Nodup) {x : α}
    (hx : x ∈ l) : (l.filter (· ≠ x)).length + 1 = l.length := by
  have herase : l.filter (· ≠ x) = l.erase x := by
    rw [hn.erase_eq_filter]
    exact List.filter_congr fun y _ => by rw [decide_not, bne, beq_eq_decide]
  rw [herase, List.length_erase_add_one hx]

namespace FiniteMap

variable {κ α : Type} [DecidableEq κ]

/-! ## Lookups and entries -/

theorem lookup_eq_some_iff {l : List (κ × α)} (hl : (l.map Prod.fst).Nodup) {k : κ} {v : α} :
    l.lookup k = some v ↔ (k, v) ∈ l := by
  induction l with
  | nil => simp
  | cons e rest ih =>
      obtain ⟨a, w⟩ := e
      rw [List.map_cons, List.nodup_cons] at hl
      by_cases hk : k = a
      · subst hk
        have hrest : (k, v) ∉ rest := fun h => hl.1 (List.mem_map.mpr ⟨_, h, rfl⟩)
        simp [hrest, eq_comm]
      · have hne : (k == a) = false := by simp [hk]
        simp only [List.lookup_cons, hne, List.mem_cons, Prod.mk.injEq, hk, false_and, false_or]
        exact ih hl.2

theorem get?_eq_some_iff (m : FiniteMap κ α) {k : κ} {v : α} :
    m.get? k = some v ↔ (k, v) ∈ m.entries :=
  lookup_eq_some_iff m.distinct

theorem contains_iff (m : FiniteMap κ α) (k : κ) :
    m.contains k = true ↔ ∃ v, m.get? k = some v := by
  simp [contains, Option.isSome_iff_exists]

theorem contains_eq_false_iff (m : FiniteMap κ α) (k : κ) :
    m.contains k = false ↔ m.get? k = none := by
  simp [contains]

/-! ## Keys -/

omit [DecidableEq κ] in
theorem nodup_keys (m : FiniteMap κ α) : m.keys.Nodup := m.distinct

theorem mem_keys_iff (m : FiniteMap κ α) (k : κ) : k ∈ m.keys ↔ ∃ v, m.get? k = some v := by
  simp only [keys, List.mem_map, Prod.exists, exists_and_right, exists_eq_right, get?_eq_some_iff]

theorem mem_keys_iff_contains (m : FiniteMap κ α) (k : κ) : k ∈ m.keys ↔ m.contains k = true := by
  rw [mem_keys_iff, contains_iff]

@[simp] theorem keys_modify (m : FiniteMap κ α) (k : κ) (f : α → α) :
    (m.modify k f).keys = m.keys := by
  simp [keys, modify]

theorem keys_erase (m : FiniteMap κ α) (k : κ) : (m.erase k).keys = m.keys.filter (· ≠ k) := by
  simp only [keys, erase, List.filter_map]
  rfl

theorem erase_of_get?_eq_none {m : FiniteMap κ α} {k : κ} (hk : m.get? k = none) :
    m.erase k = m := by
  obtain ⟨entries, distinct⟩ := m
  have hnot : k ∉ entries.map Prod.fst := lookup_eq_none_iff.mp hk
  simp only [erase, mk.injEq, List.filter_eq_self]
  intro e he
  have hne : e.1 ≠ k := fun heq => hnot (heq ▸ List.mem_map_of_mem he)
  simpa using hne

theorem entries_insert_new {m : FiniteMap κ α} {k : κ} (hk : m.get? k = none) (v : α) :
    (m.insert k v).entries = m.entries ++ [(k, v)] := by
  have hk' : m.entries.lookup k = none := hk
  unfold insert
  rw [dif_pos hk']

theorem keys_insert_new {m : FiniteMap κ α} {k : κ} (hk : m.get? k = none) (v : α) :
    (m.insert k v).keys = m.keys ++ [k] := by
  rw [keys, entries_insert_new hk, List.map_append]
  rfl

omit [DecidableEq κ] in
theorem length_keys (m : FiniteMap κ α) : m.keys.length = m.size := List.length_map Prod.fst

@[simp] theorem size_modify (m : FiniteMap κ α) (k : κ) (f : α → α) :
    (m.modify k f).size = m.size := by
  rw [← length_keys, keys_modify, length_keys]

theorem size_insert_new {m : FiniteMap κ α} {k : κ} (hk : m.get? k = none) (v : α) :
    (m.insert k v).size = m.size + 1 := by
  rw [← length_keys, keys_insert_new hk, List.length_append, length_keys, List.length_singleton]

theorem size_insert_of_get? {m : FiniteMap κ α} {k : κ} {w : α} (hk : m.get? k = some w) (v : α) :
    (m.insert k v).size = m.size := by
  have hk' : m.entries.lookup k ≠ none := by
    rw [show m.entries.lookup k = some w from hk]
    exact Option.some_ne_none w
  unfold insert
  rw [dif_neg hk', size_modify]

theorem size_erase {m : FiniteMap κ α} {k : κ} {v : α} (hk : m.get? k = some v) :
    (m.erase k).size + 1 = m.size := by
  rw [← length_keys, keys_erase, length_filter_ne m.nodup_keys ((mem_keys_iff m k).mpr ⟨v, hk⟩),
    length_keys]

/-! ## Values -/

/-- A key that is bound keeps its place, and leaves the others theirs when it goes. -/
theorem exists_split_of_get? {m : FiniteMap κ α} {k : κ} {v : α} (hk : m.get? k = some v) :
    ∃ before after, m.entries = before ++ (k, v) :: after ∧
      (∀ w, (m.insert k w).entries = before ++ (k, w) :: after) ∧
      (m.erase k).entries = before ++ after := by
  obtain ⟨before, after, hsplit⟩ := List.append_of_mem (m.get?_eq_some_iff.mp hk)
  have hdistinct := m.distinct
  rw [hsplit, List.map_append, List.map_cons, List.nodup_append, List.nodup_cons] at hdistinct
  obtain ⟨-, ⟨hafter, -⟩, hbefore⟩ := hdistinct
  have hnot : k ∉ before.map Prod.fst := fun h => hbefore k h k List.mem_cons_self rfl
  refine ⟨before, after, hsplit, fun w => ?_, ?_⟩
  · have hsame : ∀ l : List (κ × α), k ∉ l.map Prod.fst → l.map (modifyEntry k fun _ => w) = l := by
      intro l hl
      refine (List.map_congr_left fun e he => ?_).trans (List.map_id l)
      exact if_neg fun h => hl (List.mem_map.mpr ⟨e, he, h⟩)
    have hsome : m.entries.lookup k ≠ none := by
      rw [show m.entries.lookup k = some v from hk]
      exact Option.some_ne_none v
    unfold insert
    rw [dif_neg hsome]
    show m.entries.map (modifyEntry k fun _ => w) = _
    rw [hsplit, List.map_append, List.map_cons, hsame after hafter, hsame before hnot, modifyEntry,
      if_pos rfl]
  · have hkept : ∀ l : List (κ × α), k ∉ l.map Prod.fst → l.filter (fun e => e.1 ≠ k) = l := by
      intro l hl
      refine List.filter_eq_self.mpr fun e he => decide_eq_true fun h => ?_
      exact hl (List.mem_map.mpr ⟨e, he, h⟩)
    show m.entries.filter (fun e => e.1 ≠ k) = _
    rw [hsplit, List.filter_append, List.filter_cons_of_neg (by simp), hkept before hnot,
      hkept after hafter]

/-- A list that the values make grows as that of the value which is bound. -/
theorem flatMap_values_insert {β : Type} (m : FiniteMap κ α) (k : κ) {w : α} {f : α → List β}
    {new : List β} (h : (f w).Perm (((m.get? k).map f).getD [] ++ new)) :
    ((m.insert k w).values.flatMap f).Perm (m.values.flatMap f ++ new) := by
  cases hk : m.get? k with
  | none =>
      rw [hk, Option.map_none, Option.getD_none, List.nil_append] at h
      rw [values, entries_insert_new hk, List.map_append, List.flatMap_append, List.map_singleton,
        List.flatMap_singleton]
      exact h.append_left _
  | some v =>
      rw [hk, Option.map_some, Option.getD_some] at h
      obtain ⟨before, after, hsplit, hinsert, -⟩ := exists_split_of_get? hk
      rw [values, values, hsplit, hinsert]
      simp only [List.map_append, List.map_cons, List.flatMap_append, List.flatMap_cons,
        List.append_assoc]
      refine ((h.append_right _).trans ?_).append_left _
      rw [List.append_assoc]
      exact List.perm_append_comm.append_left _

/-- What the value makes that is bound instead comes in the place of what the old value made. -/
theorem length_flatMap_insert {β : Type} {m : FiniteMap κ α} {k : κ} {v : α}
    (hk : m.get? k = some v) (w : α) (f : α → List β) :
    ((m.insert k w).values.flatMap f).length + (f v).length =
      (m.values.flatMap f).length + (f w).length := by
  obtain ⟨before, after, hsplit, hinsert, -⟩ := exists_split_of_get? hk
  rw [values, values, hsplit, hinsert]
  simp only [List.map_append, List.map_cons, List.flatMap_append, List.flatMap_cons,
    List.length_append]
  omega

theorem length_flatMap_erase {β : Type} {m : FiniteMap κ α} {k : κ} {v : α} (hk : m.get? k = some v)
    (f : α → List β) :
    ((m.erase k).values.flatMap f).length + (f v).length = (m.values.flatMap f).length := by
  obtain ⟨before, after, hsplit, -, herase⟩ := exists_split_of_get? hk
  rw [values, values, hsplit, herase]
  simp only [List.map_append, List.map_cons, List.flatMap_append, List.flatMap_cons,
    List.length_append]
  omega

/-- What the values make, key by key. -/
theorem flatMap_values_eq {β : Type} (m : FiniteMap κ α) (f : α → List β) :
    m.values.flatMap f = m.keys.flatMap fun k => ((m.get? k).map f).getD [] := by
  rw [values, keys, List.flatMap_map, List.flatMap_map]
  refine List.flatMap_congr fun e he => ?_
  rw [m.get?_eq_some_iff.mpr he]
  rfl

/-! ## Single lookups after a change -/

@[simp] theorem get?_insert_self (m : FiniteMap κ α) (k : κ) (v : α) :
    (m.insert k v).get? k = some v := by
  simp [get?_insert]

theorem get?_insert_ne (m : FiniteMap κ α) {k j : κ} (v : α) (h : j ≠ k) :
    (m.insert k v).get? j = m.get? j := by
  simp [get?_insert, h]

@[simp] theorem get?_erase_self (m : FiniteMap κ α) (k : κ) : (m.erase k).get? k = none := by
  simp [get?_erase]

theorem get?_erase_ne (m : FiniteMap κ α) {k j : κ} (h : j ≠ k) :
    (m.erase k).get? j = m.get? j := by
  simp [get?_erase, h]

@[simp] theorem get?_modify_self (m : FiniteMap κ α) (k : κ) (f : α → α) :
    (m.modify k f).get? k = (m.get? k).map f := by
  simp [get?_modify]

theorem get?_modify_ne (m : FiniteMap κ α) {k j : κ} (f : α → α) (h : j ≠ k) :
    (m.modify k f).get? j = m.get? j := by
  simp [get?_modify, h]

theorem isSome_get?_modify (m : FiniteMap κ α) (k : κ) (f : α → α) (j : κ) :
    (∃ x, (m.modify k f).get? j = some x) ↔ ∃ x, m.get? j = some x := by
  by_cases hj : j = k
  · subst hj
    simp
  · rw [get?_modify_ne m f hj]

/-- What is read off the values stays when a value is replaced by one that reads the same. -/
theorem bind_get?_insert {β : Type} {m : FiniteMap κ α} {k : κ} {v w : α} (hk : m.get? k = some v)
    {g : α → Option β} (hg : g w = g v) (j : κ) :
    ((m.insert k w).get? j).bind g = (m.get? j).bind g := by
  by_cases hj : j = k
  · rw [hj, get?_insert_self, hk]
    exact hg
  · rw [get?_insert_ne m w hj]

theorem bind_get?_modify {β : Type} (m : FiniteMap κ α) (k : κ) {f : α → α} {g : α → Option β}
    (hg : ∀ v, g (f v) = g v) (j : κ) : ((m.modify k f).get? j).bind g = (m.get? j).bind g := by
  by_cases hj : j = k
  · rw [hj, get?_modify_self]
    cases m.get? k with
    | none => rfl
    | some v => exact hg v
  · rw [get?_modify_ne m f hj]

theorem map_get?_insert {β : Type} {m : FiniteMap κ α} {k : κ} {v w : α} (hk : m.get? k = some v)
    {g : α → β} (hg : g w = g v) (j : κ) : ((m.insert k w).get? j).map g = (m.get? j).map g := by
  rw [Option.map_eq_bind, Option.map_eq_bind]
  exact bind_get?_insert hk (g := some ∘ g) (congrArg some hg) j

theorem map_get?_modify {β : Type} (m : FiniteMap κ α) (k : κ) {f : α → α} {g : α → β}
    (hg : ∀ v, g (f v) = g v) (j : κ) : ((m.modify k f).get? j).map g = (m.get? j).map g := by
  rw [Option.map_eq_bind, Option.map_eq_bind]
  exact bind_get?_modify m k (g := some ∘ g) (fun v => congrArg some (hg v)) j

/-! ## Maps with one value for each of a list of sites -/

section Covers

variable {σ : Type} {sites : List σ} {key : σ → κ} {fits fits' : σ → α → Prop} {m : FiniteMap κ α}

/-- The keys of the map are those of the sites, and every site has a value that fits it. -/
structure Covers (m : FiniteMap κ α) (sites : List σ) (key : σ → κ) (fits : σ → α → Prop) :
    Prop where
  at_site : ∀ i ∈ sites, ∃ v, m.get? (key i) = some v ∧ fits i v
  only_sites : ∀ k v, m.get? k = some v → ∃ i ∈ sites, key i = k

theorem Covers.fits_of_get? (h : m.Covers sites key fits) {i : σ} (hi : i ∈ sites) {v : α}
    (hv : m.get? (key i) = some v) : fits i v := by
  obtain ⟨w, hw, hfits⟩ := h.at_site i hi
  rw [hv] at hw
  cases hw
  exact hfits

theorem Covers.get?_eq_none (h : m.Covers sites key fits) {k : κ}
    (hk : ∀ i ∈ sites, key i ≠ k) : m.get? k = none := by
  cases hv : m.get? k with
  | none => rfl
  | some v =>
      obtain ⟨i, hi, hik⟩ := h.only_sites k v hv
      exact absurd hik (hk i hi)

theorem Covers.imp (h : m.Covers sites key fits) (himp : ∀ i ∈ sites, ∀ v, fits i v → fits' i v) :
    m.Covers sites key fits' := by
  refine ⟨fun i hi => ?_, h.only_sites⟩
  obtain ⟨v, hv, hfits⟩ := h.at_site i hi
  exact ⟨v, hv, himp i hi v hfits⟩

/-- A change at one site, which may concern the others as well. -/
theorem Covers.insert (h : m.Covers sites key fits) {i : σ} (hi : i ∈ sites) {w : α}
    (hw : fits' i w) (hinj : ∀ j ∈ sites, key j = key i → j = i)
    (himp : ∀ j ∈ sites, key j ≠ key i → ∀ v, fits j v → fits' j v) :
    (m.insert (key i) w).Covers sites key fits' := by
  refine ⟨fun j hj => ?_, fun k v hk => ?_⟩
  · by_cases hji : key j = key i
    · rw [hinj j hj hji]
      exact ⟨w, get?_insert_self m (key i) w, hw⟩
    · obtain ⟨v, hv, hfits⟩ := h.at_site j hj
      exact ⟨v, by rw [get?_insert_ne m w hji, hv], himp j hj hji v hfits⟩
  · rw [get?_insert] at hk
    split at hk
    · next hki => exact ⟨i, hi, hki.symm⟩
    · exact h.only_sites k v hk

theorem Covers.modify (h : m.Covers sites key fits) {i : σ} (hi : i ∈ sites) {f : α → α}
    (hf : ∀ v, fits i v → fits' i (f v)) (hinj : ∀ j ∈ sites, key j = key i → j = i)
    (himp : ∀ j ∈ sites, key j ≠ key i → ∀ v, fits j v → fits' j v) :
    (m.modify (key i) f).Covers sites key fits' := by
  refine ⟨fun j hj => ?_, fun k v hk => ?_⟩
  · obtain ⟨v, hv, hfits⟩ := h.at_site j hj
    by_cases hji : key j = key i
    · have := hinj j hj hji
      subst this
      exact ⟨f v, by rw [get?_modify_self, hv]; rfl, hf v hfits⟩
    · exact ⟨v, by rw [get?_modify_ne m f hji, hv], himp j hj hji v hfits⟩
  · obtain ⟨w, hw⟩ := (isSome_get?_modify m (key i) f k).mp ⟨v, hk⟩
    exact h.only_sites k w hw

/-- A change that respects what fits, wherever it is made. -/
theorem Covers.modify_all (h : m.Covers sites key fits) (k : κ) {f : α → α}
    (hf : ∀ i ∈ sites, ∀ v, fits i v → fits i (f v)) : (m.modify k f).Covers sites key fits := by
  refine ⟨fun i hi => ?_, fun j v hj => ?_⟩
  · obtain ⟨v, hv, hfits⟩ := h.at_site i hi
    rw [get?_modify, hv]
    split
    · exact ⟨f v, rfl, hf i hi v hfits⟩
    · exact ⟨v, rfl, hfits⟩
  · obtain ⟨w, hw⟩ := (isSome_get?_modify m k f j).mp ⟨v, hj⟩
    exact h.only_sites j w hw

/-- Two maps over the same sites look alike if their values at every site do. -/
theorem Covers.map_get?_eq (h : m.Covers sites key fits) {m' : FiniteMap κ α}
    (h' : m'.Covers sites key fits') {β : Type} {g : α → β}
    (hg : ∀ i ∈ sites, ∀ v v', m.get? (key i) = some v → m'.get? (key i) = some v' → g v' = g v)
    (k : κ) : (m'.get? k).map g = (m.get? k).map g := by
  cases hk : m.get? k with
  | none =>
      cases hk' : m'.get? k with
      | none => rfl
      | some v' =>
          obtain ⟨i, hi, rfl⟩ := h'.only_sites k v' hk'
          obtain ⟨v, hv, -⟩ := h.at_site i hi
          rw [hv] at hk
          cases hk
  | some v =>
      obtain ⟨i, hi, rfl⟩ := h.only_sites k v hk
      obtain ⟨v', hv', -⟩ := h'.at_site i hi
      rw [hv', Option.map_some, Option.map_some, hg i hi v v' hk hv']

end Covers

section Related

variable {β : Type}

/-- The maps have the same keys, and the values under each key are related. -/
def Related (r : κ → α → β → Prop) (m : FiniteMap κ α) (m' : FiniteMap κ β) : Prop :=
  ∀ k, Option.Rel (r k) (m.get? k) (m'.get? k)

namespace Related

variable {r r' : κ → α → β → Prop} {m : FiniteMap κ α} {m' : FiniteMap κ β}

theorem empty (r : κ → α → β → Prop) : Related r .empty .empty := fun _ => .none

theorem get? (h : Related r m m') {k : κ} {v : α} (hk : m.get? k = some v) :
    ∃ w, m'.get? k = some w ∧ r k v w := by
  have hrel := h k
  rw [hk] at hrel
  generalize m'.get? k = o at hrel ⊢
  cases hrel with
  | some hrel => exact ⟨_, rfl, hrel⟩

theorem get?_right (h : Related r m m') {k : κ} {w : β} (hk : m'.get? k = some w) :
    ∃ v, m.get? k = some v ∧ r k v w := by
  have hrel := h k
  rw [hk] at hrel
  generalize m.get? k = o at hrel ⊢
  cases hrel with
  | some hrel => exact ⟨_, rfl, hrel⟩

theorem get?_eq_none (h : Related r m m') {k : κ} (hk : m.get? k = none) : m'.get? k = none := by
  have hrel := h k
  rw [hk] at hrel
  generalize m'.get? k = o at hrel ⊢
  cases hrel with
  | none => rfl

theorem contains_eq (h : Related r m m') (k : κ) : m'.contains k = m.contains k := by
  unfold contains
  cases hk : m.get? k with
  | none =>
      rw [h.get?_eq_none hk]
      rfl
  | some v =>
      obtain ⟨w, hw, -⟩ := h.get? hk
      rw [hw]
      rfl

theorem perm_keys (h : Related r m m') : m'.keys.Perm m.keys := by
  refine (List.perm_ext_iff_of_nodup m'.nodup_keys m.nodup_keys).mpr fun k => ?_
  rw [mem_keys_iff_contains, mem_keys_iff_contains, h.contains_eq]

theorem size_eq (h : Related r m m') : m'.size = m.size := by
  rw [← length_keys, ← length_keys, h.perm_keys.length_eq]

/-- What can be read off related values is the same in both maps. -/
theorem map_get? {γ : Type} (h : Related r m m') {k : κ} {f : α → γ} {g : β → γ}
    (hfg : ∀ v w, r k v w → g w = f v) : (m'.get? k).map g = (m.get? k).map f := by
  cases hk : m.get? k with
  | none => rw [h.get?_eq_none hk, Option.map_none, Option.map_none]
  | some v =>
      obtain ⟨w, hw, hrel⟩ := h.get? hk
      rw [hw, Option.map_some, Option.map_some, hfg v w hrel]

theorem insert (h : Related r m m') {k : κ} {v : α} {w : β} (hk : r' k v w)
    (hr : ∀ j, j ≠ k → ∀ v w, r j v w → r' j v w) : Related r' (m.insert k v) (m'.insert k w) := by
  intro j
  rw [get?_insert, get?_insert]
  split
  · next hj => exact .some (hj ▸ hk)
  · next hj =>
    have hrel := h j
    generalize m.get? j = o at hrel ⊢
    generalize m'.get? j = o' at hrel ⊢
    cases hrel with
    | none => exact .none
    | some hrel => exact .some (hr j hj _ _ hrel)

/-- Related values are added for each of a list of sites. -/
theorem foldl_insert {σ : Type} {sites : List σ} {key : σ → κ} {value : σ → α} {value' : σ → β}
    (h : Related r m m') (hvalue : ∀ i, r (key i) (value i) (value' i)) :
    Related r (sites.foldl (fun m i => m.insert (key i) (value i)) m)
      (sites.foldl (fun m i => m.insert (key i) (value' i)) m') := by
  induction sites generalizing m m' with
  | nil => exact h
  | cons i rest ih => exact ih (h.insert (hvalue i) fun _ _ _ _ hj => hj)

theorem erase (h : Related r m m') (k : κ) (hr : ∀ j, j ≠ k → ∀ v w, r j v w → r' j v w) :
    Related r' (m.erase k) (m'.erase k) := by
  intro j
  rw [get?_erase, get?_erase]
  split
  · exact .none
  · next hj =>
    have hrel := h j
    generalize m.get? j = o at hrel ⊢
    generalize m'.get? j = o' at hrel ⊢
    cases hrel with
    | none => exact .none
    | some hrel => exact .some (hr j hj _ _ hrel)

/-- A value may change in one of the maps as long as it stays related. -/
theorem modify_left (h : Related r m m') (k : κ) {f : α → α} (hf : ∀ v w, r k v w → r k (f v) w) :
    Related r (m.modify k f) m' := by
  intro j
  rw [get?_modify]
  split
  · next hj =>
    subst hj
    have hrel := h j
    generalize m.get? j = o at hrel ⊢
    generalize m'.get? j = o' at hrel ⊢
    cases hrel with
    | none => exact .none
    | some hrel => exact .some (hf _ _ hrel)
  · exact h j

theorem insert_right (h : Related r m m') {k : κ} {v : α} (hv : m.get? k = some v) {w : β}
    (hk : r' k v w) (hr : ∀ j, j ≠ k → ∀ v w, r j v w → r' j v w) :
    Related r' m (m'.insert k w) := by
  intro j
  have hinsert := h.insert hk hr j
  rw [get?_insert] at hinsert
  split at hinsert
  · next hj =>
    rw [hj, hv]
    rwa [hj] at hinsert
  · exact hinsert

end Related

end Related

end FiniteMap

end RuleMatching
