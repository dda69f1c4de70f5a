import Mathlib.Data.List.Perm.Basic
import RuleMatching.Memory.Basic
import RuleMatching.Proofs.SlotMap

set_option autoImplicit false

/-! # What a memory holds

`Memory.Holds` describes a memory of either kind by one list, its items in the order of addition,
and by the key of each item: a hashed memory has in the bucket of a key the items of that key, in
order, and no bucket is empty. Adding appends to the list (`Holds.add`), removing filters it
(`Holds.remove`), and the candidates for a key are the items of that key (`Holds.candidates`),
whatever the kind. -/

namespace RuleMatching.Memory

variable {α : Type}

/-- The item at a location. -/
def at? (m : Memory α) (l : Location) : Option α := (m.remove? l).map Prod.fst

/-- The items under a key. -/
def bucketItems (buckets : FiniteMap IndexKey (SlotMap α)) (k : IndexKey) : List α :=
  ((buckets.get? k).map SlotMap.toList).getD []

/-- The memory holds exactly the items of the list, each under its key. -/
inductive Holds (key : α → Option IndexKey) (items : List α) : Memory α → Prop
  | linear {list : SlotMap α} (valid : list.Valid) (toList_eq : list.toList = items)
      (unkeyed : ∀ a ∈ items, key a = none) : Holds key items (.linear list)
  | hashed {buckets : FiniteMap IndexKey (SlotMap α)}
      (valid : ∀ k b, buckets.get? k = some b → b.Valid ∧ b.toList ≠ [])
      (bucket_eq : ∀ k, bucketItems buckets k = items.filter fun a => key a = some k)
      (keyed : ∀ a ∈ items, ∃ k, key a = some k) : Holds key items (.hashed buckets)

/-- A key that fits the kind of the memory: one for a hashed memory, none for a linear one. -/
def Fits (m : Memory α) (k : Option IndexKey) : Prop := m.isIndexed = k.isSome

@[simp] theorem isIndexed_linear (list : SlotMap α) : (linear list).isIndexed = false := rfl

@[simp] theorem isIndexed_hashed (buckets : FiniteMap IndexKey (SlotMap α)) :
    (hashed buckets).isIndexed = true := rfl

@[simp] theorem isIndexed_ofKind (kind : MemoryKind) :
    (ofKind kind : Memory α).isIndexed = (kind == .hashed) := by
  cases kind <;> rfl

/-! ## Locations -/

@[simp] theorem at?_linear (list : SlotMap α) (slot : SlotRef) :
    (linear list).at? ⟨none, slot⟩ = list.get? slot := by
  cases h : list.get? slot <;> simp [at?, remove?, h]

@[simp] theorem at?_linear_keyed (list : SlotMap α) (k : IndexKey) (slot : SlotRef) :
    (linear list).at? ⟨some k, slot⟩ = none := rfl

@[simp] theorem at?_hashed (buckets : FiniteMap IndexKey (SlotMap α)) (k : IndexKey)
    (slot : SlotRef) :
    (hashed buckets).at? ⟨some k, slot⟩ = (buckets.get? k).bind (SlotMap.get? · slot) := by
  cases hb : buckets.get? k with
  | none => simp [at?, remove?, hb]
  | some b => cases hs : b.get? slot <;> simp [at?, remove?, hb, hs]

@[simp] theorem at?_hashed_unkeyed (buckets : FiniteMap IndexKey (SlotMap α)) (slot : SlotRef) :
    (hashed buckets).at? ⟨none, slot⟩ = none := rfl

theorem remove?_linear {list : SlotMap α} {slot : SlotRef} {a : α} (h : list.get? slot = some a) :
    (linear list).remove? ⟨none, slot⟩ = some (a, linear (list.remove slot)) := by
  simp [remove?, h]

/-- The buckets with what is left of one of them; a bucket stays only if an item is left in it. -/
def withBucket (buckets : FiniteMap IndexKey (SlotMap α)) (k : IndexKey) (rest : SlotMap α) :
    FiniteMap IndexKey (SlotMap α) :=
  if rest.isEmpty then buckets.erase k else buckets.insert k rest

theorem remove?_hashed {buckets : FiniteMap IndexKey (SlotMap α)} {k : IndexKey} {b : SlotMap α}
    {slot : SlotRef} {a : α} (hb : buckets.get? k = some b) (h : b.get? slot = some a) :
    (hashed buckets).remove? ⟨some k, slot⟩ =
      some (a, hashed (withBucket buckets k (b.remove slot))) := by
  simp [remove?, hb, h, withBucket]

/-! ## Buckets -/

theorem bucketItems_insert (buckets : FiniteMap IndexKey (SlotMap α)) (k j : IndexKey)
    (b : SlotMap α) :
    bucketItems (buckets.insert k b) j = if j = k then b.toList else bucketItems buckets j := by
  unfold bucketItems
  rw [FiniteMap.get?_insert]
  split <;> rfl

theorem isEmpty_iff (b : SlotMap α) : b.isEmpty = true ↔ b.toList = [] := by
  simp [SlotMap.isEmpty, SlotMap.toList]

/-- Under the key is what is left of the bucket, if anything is; under the other keys is
what was there. -/
theorem get?_withBucket (buckets : FiniteMap IndexKey (SlotMap α)) (k j : IndexKey)
    (rest : SlotMap α) :
    (withBucket buckets k rest).get? j =
      if j = k then (if rest.isEmpty then none else some rest) else buckets.get? j := by
  unfold withBucket
  split
  · rw [FiniteMap.get?_erase]
  · rw [FiniteMap.get?_insert]

theorem get?_withBucket_self (buckets : FiniteMap IndexKey (SlotMap α)) (k : IndexKey)
    (rest : SlotMap α) :
    (withBucket buckets k rest).get? k = if rest.isEmpty then none else some rest := by
  rw [get?_withBucket, if_pos rfl]

theorem get?_withBucket_ne (buckets : FiniteMap IndexKey (SlotMap α)) {k j : IndexKey}
    (rest : SlotMap α) (h : j ≠ k) : (withBucket buckets k rest).get? j = buckets.get? j := by
  rw [get?_withBucket, if_neg h]

theorem cases_of_get?_withBucket {buckets : FiniteMap IndexKey (SlotMap α)} {k j : IndexKey}
    {rest c : SlotMap α} (h : (withBucket buckets k rest).get? j = some c) :
    (j = k ∧ c = rest ∧ rest.toList ≠ []) ∨ (j ≠ k ∧ buckets.get? j = some c) := by
  by_cases hj : j = k
  · rw [hj, get?_withBucket_self] at h
    split at h
    · cases h
    · next he =>
        exact Or.inl ⟨hj, (Option.some.inj h).symm, fun hnil => he ((isEmpty_iff rest).mpr hnil)⟩
  · rw [get?_withBucket_ne _ _ hj] at h
    exact Or.inr ⟨hj, h⟩

theorem bucketItems_withBucket (buckets : FiniteMap IndexKey (SlotMap α)) (k j : IndexKey)
    (rest : SlotMap α) :
    bucketItems (withBucket buckets k rest) j =
      if j = k then rest.toList else bucketItems buckets j := by
  unfold bucketItems
  rw [get?_withBucket]
  split
  · split
    · next he => exact ((isEmpty_iff rest).mp he).symm
    · rfl
  · rfl

theorem at?_withBucket (buckets : FiniteMap IndexKey (SlotMap α)) (k : IndexKey) (rest : SlotMap α)
    (slot : SlotRef) :
    (hashed (withBucket buckets k rest)).at? ⟨some k, slot⟩ = rest.get? slot := by
  rw [at?_hashed, get?_withBucket_self]
  split
  · next he =>
    have hnil : rest.live = [] := by simpa [SlotMap.isEmpty] using he
    rw [SlotMap.get?, hnil]
    rfl
  · rfl

theorem at?_withBucket_ne (buckets : FiniteMap IndexKey (SlotMap α)) {k j : IndexKey}
    (rest : SlotMap α) (slot : SlotRef) (h : j ≠ k) :
    (hashed (withBucket buckets k rest)).at? ⟨some j, slot⟩ =
      (hashed buckets).at? ⟨some j, slot⟩ := by
  rw [at?_hashed, at?_hashed, get?_withBucket_ne _ _ h]

/-! ## Sizes -/

theorem size_linear (list : SlotMap α) : (linear list).size = list.size := List.length_map Prod.snd

/-- A hashed memory grows as one of its buckets does. -/
theorem size_insert (buckets : FiniteMap IndexKey (SlotMap α)) (k : IndexKey) (b : SlotMap α) :
    (hashed (buckets.insert k b)).size + ((buckets.get? k).getD .empty).size =
      (hashed buckets).size + b.size := by
  have hlength : ∀ list : SlotMap α, list.toList.length = list.size := size_linear
  cases hk : buckets.get? k with
  | none =>
      rw [Option.getD_none, size, size, items, items, FiniteMap.values,
        FiniteMap.entries_insert_new hk, List.map_append, List.flatMap_append, List.length_append,
        List.map_singleton, List.flatMap_singleton, hlength]
      rfl
  | some v =>
      have hinsert := FiniteMap.length_flatMap_insert hk b SlotMap.toList
      rwa [hlength, hlength] at hinsert

/-- A hashed memory shrinks as one of its buckets does, also if the bucket goes. -/
theorem size_withBucket {buckets : FiniteMap IndexKey (SlotMap α)} {k : IndexKey} {b : SlotMap α}
    (hb : buckets.get? k = some b) (rest : SlotMap α) :
    (hashed (withBucket buckets k rest)).size + b.size = (hashed buckets).size + rest.size := by
  have hlength : ∀ list : SlotMap α, list.toList.length = list.size := size_linear
  unfold withBucket
  split
  · next he =>
    have herase := FiniteMap.length_flatMap_erase hb SlotMap.toList
    have hrest : rest.size = 0 := by rw [← hlength, (isEmpty_iff rest).mp he, List.length_nil]
    rw [hlength] at herase
    rw [hrest]
    exact herase
  · have hinsert := size_insert buckets k rest
    rwa [hb] at hinsert

theorem size_add? {m m' : Memory α} {key : Option IndexKey} {a : α} {l : Location}
    (h : m.add? key a = some (l, m')) : m'.size = m.size + 1 := by
  cases m with
  | linear list =>
      cases h
      rw [size_linear, size_linear, SlotMap.size_add]
  | hashed buckets =>
      cases key with
      | none => cases h
      | some k =>
          cases h
          have hinsert := size_insert buckets k (((buckets.get? k).getD .empty).add a)
          rw [SlotMap.size_add] at hinsert
          omega

/-- What is removed is removed from the list of a linear memory, or from the bucket of the key. -/
theorem remove?_cases {m m' : Memory α} {l : Location} {a : α} (h : m.remove? l = some (a, m')) :
    (∃ list, m = linear list ∧ l.key = none ∧ list.get? l.slot = some a ∧
      m' = linear (list.remove l.slot)) ∨
      ∃ buckets k bucket, m = hashed buckets ∧ l.key = some k ∧ buckets.get? k = some bucket ∧
        bucket.get? l.slot = some a ∧
        m' = hashed (withBucket buckets k (bucket.remove l.slot)) := by
  obtain ⟨key, slot⟩ := l
  cases m with
  | linear list =>
      cases key with
      | some k => cases h
      | none =>
          obtain ⟨item, hget, heq⟩ := Option.map_eq_some_iff.mp h
          cases heq
          exact Or.inl ⟨list, rfl, rfl, hget, rfl⟩
  | hashed buckets =>
      cases key with
      | none => cases h
      | some k =>
          obtain ⟨bucket, hbucket, hrest⟩ := Option.bind_eq_some_iff.mp h
          obtain ⟨item, hget, heq⟩ := Option.bind_eq_some_iff.mp hrest
          cases heq
          exact Or.inr ⟨buckets, k, bucket, rfl, rfl, hbucket, hget, rfl⟩

namespace Holds

variable {key key' : α → Option IndexKey} {items : List α} {m : Memory α}

theorem ofKind (key : α → Option IndexKey) (kind : MemoryKind) : (ofKind kind).Holds key [] := by
  cases kind with
  | linear => exact .linear SlotMap.valid_empty rfl (by simp)
  | hashed => exact .hashed (by simp) (by simp [bucketItems]) (by simp)

/-- Only the keys of the items themselves matter. -/
theorem congr (h : m.Holds key items) (hk : ∀ a ∈ items, key a = key' a) : m.Holds key' items := by
  cases h with
  | linear valid toList_eq unkeyed =>
      exact .linear valid toList_eq fun a ha => (hk a ha).symm.trans (unkeyed a ha)
  | hashed valid bucket_eq keyed =>
      refine .hashed valid (fun k => ?_) fun a ha => ?_
      · rw [bucket_eq k]
        exact List.filter_congr fun a ha => by rw [hk a ha]
      · rw [← hk a ha]
        exact keyed a ha

section Buckets

variable {buckets : FiniteMap IndexKey (SlotMap α)}
  (bucket_eq : ∀ k, bucketItems buckets k = items.filter fun a => key a = some k)

include bucket_eq

theorem toList_bucket {k : IndexKey} {b : SlotMap α} (hb : buckets.get? k = some b) :
    b.toList = items.filter fun a => key a = some k := by
  rw [← bucket_eq k, bucketItems, hb]
  rfl

theorem mem_bucket_iff {k : IndexKey} {b : SlotMap α} (hb : buckets.get? k = some b) (a : α) :
    a ∈ b.toList ↔ a ∈ items ∧ key a = some k := by
  rw [toList_bucket bucket_eq hb, List.mem_filter, decide_eq_true_eq]

/-- There is a bucket for the key of every item. -/
theorem exists_bucket {a : α} (ha : a ∈ items) {k : IndexKey} (hk : key a = some k) :
    ∃ b, buckets.get? k = some b := by
  cases hb : buckets.get? k with
  | some b => exact ⟨b, rfl⟩
  | none =>
      have hnil := bucket_eq k
      rw [bucketItems, hb] at hnil
      have hmem : a ∈ items.filter fun a => key a = some k :=
        List.mem_filter.mpr ⟨ha, decide_eq_true hk⟩
      rw [← hnil] at hmem
      cases hmem

end Buckets

/-! ## Search -/

/-- The candidates for a key are the items of that key, in the order of addition. -/
theorem candidates (h : m.Holds key items) {k : Option IndexKey} (hk : m.Fits k) :
    m.candidates k = items.filter fun a => key a = k := by
  cases h with
  | linear _ toList_eq unkeyed =>
      have hnone : k = none := by
        cases k with
        | none => rfl
        | some _ => cases hk
      subst hnone
      rw [Memory.candidates, toList_eq]
      symm
      rw [List.filter_eq_self]
      intro a ha
      simp [unkeyed a ha]
  | hashed _ bucket_eq _ =>
      cases k with
      | none => cases hk
      | some k => exact bucket_eq k

/-- Whatever the key, the candidates are items. -/
theorem mem_of_candidates (h : m.Holds key items) {k : Option IndexKey} {a : α}
    (ha : a ∈ m.candidates k) : a ∈ items := by
  cases h with
  | linear _ toList_eq _ => exact toList_eq ▸ ha
  | hashed _ bucket_eq _ =>
      cases k with
      | none => cases ha
      | some k =>
          have hmem : a ∈ bucketItems _ k := ha
          rw [bucket_eq k] at hmem
          exact (List.mem_filter.mp hmem).1

/-! ## Addition -/

theorem add_linear {list : SlotMap α} (valid : list.Valid) (toList_eq : list.toList = items)
    (unkeyed : ∀ a ∈ items, key a = none) {a : α} (ha : key a = none) :
    (Memory.linear (list.add a)).Holds key (items ++ [a]) := by
  refine .linear (SlotMap.valid_add valid a) (by rw [SlotMap.toList_add, toList_eq]) fun b hb => ?_
  rcases List.mem_append.mp hb with hb | hb
  · exact unkeyed b hb
  · rw [List.mem_singleton.mp hb]
    exact ha

/-- The bucket of a key as it is, made if there is none. -/
theorem bucket_spec {buckets : FiniteMap IndexKey (SlotMap α)}
    (valid : ∀ k b, buckets.get? k = some b → b.Valid ∧ b.toList ≠ []) (k : IndexKey) :
    SlotMap.Valid ((buckets.get? k).getD .empty) ∧
      ((buckets.get? k).getD .empty).toList = bucketItems buckets k := by
  unfold bucketItems
  cases hget : buckets.get? k with
  | none => exact ⟨SlotMap.valid_empty, rfl⟩
  | some b => exact ⟨(valid k b hget).1, rfl⟩

theorem add_hashed {buckets : FiniteMap IndexKey (SlotMap α)}
    (valid : ∀ k b, buckets.get? k = some b → b.Valid ∧ b.toList ≠ [])
    (bucket_eq : ∀ k, bucketItems buckets k = items.filter fun a => key a = some k)
    (keyed : ∀ a ∈ items, ∃ k, key a = some k) {a : α} {k : IndexKey} (ha : key a = some k) :
    (Memory.hashed (buckets.insert k (((buckets.get? k).getD .empty).add a))).Holds key
      (items ++ [a]) := by
  obtain ⟨hv, hl⟩ := bucket_spec valid k
  refine .hashed (fun j b hj => ?_) (fun j => ?_) fun b hb => ?_
  · rw [FiniteMap.get?_insert] at hj
    split at hj
    · cases hj
      exact ⟨SlotMap.valid_add hv a, by simp⟩
    · exact valid j b hj
  · rw [bucketItems_insert, List.filter_append]
    by_cases hj : j = k
    · subst hj
      rw [if_pos rfl, SlotMap.toList_add, hl, bucket_eq]
      simp [ha]
    -- The other buckets do not see an item under this key.
    · have hne : ¬ k = j := fun h => hj h.symm
      rw [if_neg hj, bucket_eq]
      simp [ha, hne]
  · rcases List.mem_append.mp hb with hb | hb
    · exact keyed b hb
    · rw [List.mem_singleton.mp hb]
      exact ⟨k, ha⟩

/-- An addition to a bucket moves nothing. -/
theorem at?_add_hashed {buckets : FiniteMap IndexKey (SlotMap α)}
    (valid : ∀ k b, buckets.get? k = some b → b.Valid ∧ b.toList ≠ []) (k : IndexKey) (a : α)
    {l : Location} {b : α} (hb : (Memory.hashed buckets).at? l = some b) :
    (Memory.hashed (buckets.insert k (((buckets.get? k).getD .empty).add a))).at? l = some b := by
  obtain ⟨key', slot⟩ := l
  cases key' with
  | none => simp at hb
  | some j =>
      rw [at?_hashed] at hb ⊢
      rw [FiniteMap.get?_insert]
      split
      · next hj =>
        subst hj
        obtain ⟨old, hold, hslot⟩ := Option.bind_eq_some_iff.mp hb
        rw [hold, Option.getD_some, Option.bind_some]
        exact SlotMap.get?_add_of_get? (valid j old hold).1 a hslot
      · exact hb

/-- Adding an item under its key puts it at the end and moves nothing. -/
theorem add (h : m.Holds key items) {a : α} {k : Option IndexKey} (hk : m.Fits k) (ha : key a = k) :
    ∃ l m', m.add? k a = some (l, m') ∧ m'.Holds key (items ++ [a]) ∧ m'.isIndexed = m.isIndexed ∧
      m'.at? l = some a ∧ ∀ l' b, m.at? l' = some b → m'.at? l' = some b := by
  cases h with
  | @linear list valid toList_eq unkeyed =>
      cases k with
      | some _ => cases hk
      | none =>
        refine ⟨_, _, rfl, add_linear valid toList_eq unkeyed ha, rfl, ?_, ?_⟩
        · simp [SlotMap.get?_add valid]
        · rintro ⟨key', slot⟩ b hb
          cases key' with
          | some _ => simp at hb
          | none =>
              rw [at?_linear] at hb ⊢
              exact SlotMap.get?_add_of_get? valid a hb
  | @hashed buckets valid bucket_eq keyed =>
      cases k with
      | none => cases hk
      | some k =>
        refine ⟨_, _, rfl, add_hashed valid bucket_eq keyed ha, rfl, ?_, fun _ _ =>
          at?_add_hashed valid k a⟩
        simp [SlotMap.get?_add (bucket_spec valid k).1]

/-! ## Removal -/

/-- What is left of the buckets holds what is left of the items. -/
theorem remove_hashed [DecidableEq α] {buckets : FiniteMap IndexKey (SlotMap α)}
    (valid : ∀ k b, buckets.get? k = some b → b.Valid ∧ b.toList ≠ [])
    (bucket_eq : ∀ k, bucketItems buckets k = items.filter fun a => key a = some k)
    (keyed : ∀ a ∈ items, ∃ k, key a = some k) (hn : items.Nodup) {k : IndexKey} {b : SlotMap α}
    (hb : buckets.get? k = some b) {slot : SlotRef} {a : α} (hslot : b.get? slot = some a) :
    (Memory.hashed (withBucket buckets k (b.remove slot))).Holds key (items.filter (· ≠ a)) := by
  have hv := (valid k b hb).1
  have hbucket := toList_bucket bucket_eq hb
  have ha : key a = some k :=
    ((mem_bucket_iff bucket_eq hb a).mp ((SlotMap.mem_toList_iff hv).mpr ⟨slot, hslot⟩)).2
  have hrest : (b.remove slot).toList = (items.filter (· ≠ a)).filter fun a => key a = some k := by
    rw [SlotMap.toList_remove hv hslot (hbucket ▸ hn.filter _), hbucket, List.filter_filter,
      List.filter_filter]
    exact List.filter_congr fun _ _ => Bool.and_comm _ _
  refine .hashed (fun j c hc => ?_) (fun j => ?_) fun c hc => keyed c (List.mem_filter.mp hc).1
  · rcases cases_of_get?_withBucket hc with ⟨rfl, rfl, hne⟩ | ⟨_, hj⟩
    · exact ⟨SlotMap.valid_remove hv slot, hne⟩
    · exact valid j c hj
  · rw [bucketItems_withBucket]
    by_cases hj : j = k
    · subst hj
      rw [if_pos rfl, hrest]
    · rw [if_neg hj, bucket_eq j, List.filter_filter]
      refine List.filter_congr fun c _ => ?_
      -- The item that goes has another key, so it was in none of the other buckets.
      by_cases hc : c = a
      · subst hc
        have hkj : k ≠ j := fun h => hj h.symm
        simp [ha, hkj]
      · simp [hc]

/-- A removal from a bucket moves none of the other items. -/
theorem at?_remove_hashed {buckets : FiniteMap IndexKey (SlotMap α)} {k : IndexKey} {b : SlotMap α}
    (hv : b.Valid) (hb : buckets.get? k = some b) {slot : SlotRef} {a : α}
    (hslot : b.get? slot = some a) {l : Location} {c : α}
    (hc : (Memory.hashed buckets).at? l = some c) (hne : c ≠ a) :
    (Memory.hashed (withBucket buckets k (b.remove slot))).at? l = some c := by
  obtain ⟨k', slot'⟩ := l
  cases k' with
  | none => simp at hc
  | some j =>
      by_cases hj : j = k
      · subst hj
        rw [at?_hashed, hb, Option.bind_some] at hc
        rw [at?_withBucket]
        exact SlotMap.get?_remove_of_ne hv hslot hc hne
      · rw [at?_withBucket_ne _ _ _ hj]
        exact hc

/-- Removing the item at a location takes it out of the list and moves nothing else. -/
theorem remove [DecidableEq α] (h : m.Holds key items) (hn : items.Nodup) {l : Location} {a : α}
    (hl : m.at? l = some a) :
    ∃ m', m.remove? l = some (a, m') ∧ m'.Holds key (items.filter (· ≠ a)) ∧
      m'.isIndexed = m.isIndexed ∧
      ∀ l' b, m.at? l' = some b → b ≠ a → m'.at? l' = some b := by
  obtain ⟨k, slot⟩ := l
  cases h with
  | @linear list valid toList_eq unkeyed =>
      cases k with
      | some _ => simp at hl
      | none =>
        rw [at?_linear] at hl
        refine ⟨_, remove?_linear hl, .linear (SlotMap.valid_remove valid slot) ?_ ?_, rfl, ?_⟩
        · rw [SlotMap.toList_remove valid hl (toList_eq ▸ hn), toList_eq]
        · exact fun b hb => unkeyed b (List.mem_filter.mp hb).1
        · rintro ⟨k', slot'⟩ b hb hne
          cases k' with
          | some _ => simp at hb
          | none =>
              rw [at?_linear] at hb ⊢
              exact SlotMap.get?_remove_of_ne valid hl hb hne
  | @hashed buckets valid bucket_eq keyed =>
      cases k with
      | none => simp at hl
      | some k =>
        rw [at?_hashed] at hl
        obtain ⟨b, hb, hslot⟩ := Option.bind_eq_some_iff.mp hl
        exact ⟨_, remove?_hashed hb hslot, remove_hashed valid bucket_eq keyed hn hb hslot, rfl,
          fun _ _ => at?_remove_hashed (valid k b hb).1 hb hslot⟩

/-! ## Counts -/

/-- The items, bucket by bucket, are the items of the list in some order. -/
theorem perm_items (h : m.Holds key items) (hn : items.Nodup) : m.items.Perm items := by
  cases h with
  | linear _ toList_eq _ => exact toList_eq ▸ List.Perm.refl _
  | @hashed buckets valid bucket_eq keyed =>
      have hitems : (Memory.hashed buckets).items = buckets.keys.flatMap (bucketItems buckets) := by
        have hmap : ∀ e ∈ buckets.entries, SlotMap.toList e.2 = bucketItems buckets e.1 := by
          intro e he
          have := (FiniteMap.get?_eq_some_iff buckets).mpr he
          simp [bucketItems, this]
        simp only [Memory.items, FiniteMap.values, FiniteMap.keys, List.flatMap_map]
        exact List.flatMap_congr hmap
      rw [hitems]
      refine (List.perm_ext_iff_of_nodup ?_ hn).mpr fun a => ?_
      · rw [List.nodup_flatMap]
        -- Buckets of different keys share no item, since an item has one key.
        refine ⟨fun k _ => bucket_eq k ▸ hn.filter _, ?_⟩
        refine buckets.nodup_keys.imp fun {j k} hjk => ?_
        simp only [Function.onFun, bucket_eq]
        intro a hj hk
        simp only [List.mem_filter, decide_eq_true_eq] at hj hk
        exact hjk (Option.some.inj (hj.2.symm.trans hk.2))
      · simp only [List.mem_flatMap, bucket_eq, List.mem_filter, decide_eq_true_eq]
        constructor
        · rintro ⟨_, _, ha, _⟩
          exact ha
        · intro ha
          obtain ⟨k, hk⟩ := keyed a ha
          exact ⟨k, (FiniteMap.mem_keys_iff _ _).mpr (exists_bucket bucket_eq ha hk), ha, hk⟩

theorem size_eq (h : m.Holds key items) (hn : items.Nodup) : m.size = items.length :=
  (h.perm_items hn).length_eq

/-! ## Places -/

/-- Every item has a place under its key. -/
theorem exists_at? (h : m.Holds key items) {a : α} (ha : a ∈ items) :
    ∃ slot, m.at? ⟨key a, slot⟩ = some a := by
  cases h with
  | @linear list valid toList_eq unkeyed =>
      obtain ⟨slot, hslot⟩ := (SlotMap.mem_toList_iff valid).mp (toList_eq.symm ▸ ha)
      exact ⟨slot, by rw [unkeyed a ha, at?_linear]; exact hslot⟩
  | @hashed buckets valid bucket_eq keyed =>
      obtain ⟨k, hk⟩ := keyed a ha
      obtain ⟨b, hb⟩ := exists_bucket bucket_eq ha hk
      have hab := (mem_bucket_iff bucket_eq hb a).mpr ⟨ha, hk⟩
      obtain ⟨slot, hslot⟩ := (SlotMap.mem_toList_iff (valid k b hb).1).mp hab
      exact ⟨slot, by rw [hk, at?_hashed, hb]; exact hslot⟩

/-- At every place there is an item with the key of the place. -/
theorem of_at? (h : m.Holds key items) {l : Location} {a : α} (hl : m.at? l = some a) :
    a ∈ items ∧ key a = l.key := by
  obtain ⟨k, slot⟩ := l
  cases h with
  | @linear list valid toList_eq unkeyed =>
      cases k with
      | some k => simp at hl
      | none =>
          rw [at?_linear] at hl
          have ha : a ∈ items := toList_eq ▸ (SlotMap.mem_toList_iff valid).mpr ⟨slot, hl⟩
          exact ⟨ha, unkeyed a ha⟩
  | @hashed buckets valid bucket_eq keyed =>
      cases k with
      | none => simp at hl
      | some k =>
          rw [at?_hashed] at hl
          obtain ⟨b, hb, hslot⟩ := Option.bind_eq_some_iff.mp hl
          exact (mem_bucket_iff bucket_eq hb a).mp
            ((SlotMap.mem_toList_iff (valid k b hb).1).mpr ⟨slot, hslot⟩)

/-- There is a bucket for a key iff an item has the key. -/
theorem mem_keys_iff {buckets : FiniteMap IndexKey (SlotMap α)}
    (h : (Memory.hashed buckets).Holds key items) (k : IndexKey) :
    k ∈ buckets.keys ↔ ∃ a ∈ items, key a = some k := by
  cases h with
  | hashed valid bucket_eq keyed =>
      rw [FiniteMap.mem_keys_iff]
      constructor
      · rintro ⟨b, hb⟩
        obtain ⟨a, ha⟩ := List.exists_mem_of_ne_nil _ (valid k b hb).2
        exact ⟨a, (mem_bucket_iff bucket_eq hb a).mp ha⟩
      · rintro ⟨a, ha, hk⟩
        exact exists_bucket bucket_eq ha hk

end Holds

/-! ## Items under their keys -/

/-- Every item lies under its key, no bucket is empty, and there are as many buckets as the
items have keys. -/
structure Filed (current : α → Option IndexKey → Prop) (m : Memory α) : Prop where
  located : ∀ a ∈ m.items, ∃ l, m.at? l = some a
  keyed : ∀ l a, m.at? l = some a → a ∈ m.items ∧ current a l.key
  nonempty : ∀ buckets, m = hashed buckets → ∀ k b, buckets.get? k = some b → b.toList ≠ []
  bucketCount : ∀ buckets, m = hashed buckets → ∃ keys : List IndexKey, keys.Nodup ∧
    (∀ k, k ∈ keys ↔ ∃ a ∈ m.items, current a (some k)) ∧ m.bucketCount = keys.length

/-- **What a memory holds is filed under its keys.** -/
theorem Holds.filed {key : α → Option IndexKey} {items : List α} {m : Memory α}
    (h : m.Holds key items) (hn : items.Nodup) {current : α → Option IndexKey → Prop}
    (hcur : ∀ a ∈ items, ∀ k, current a k ↔ k = key a) : m.Filed current := by
  have hmem : ∀ a, a ∈ m.items ↔ a ∈ items := fun a => (h.perm_items hn).mem_iff
  refine ⟨fun a ha => ?_, fun l a hl => ?_, fun buckets hb k b hk => ?_, fun buckets hb => ?_⟩
  · obtain ⟨slot, hslot⟩ := h.exists_at? ((hmem a).mp ha)
    exact ⟨_, hslot⟩
  · obtain ⟨ha, hk⟩ := h.of_at? hl
    exact ⟨(hmem a).mpr ha, (hcur a ha _).mpr hk.symm⟩
  · subst hb
    cases h with
    | hashed valid bucket_eq keyed => exact (valid k b hk).2
  · subst hb
    refine ⟨buckets.keys, buckets.nodup_keys, fun k => ?_, by
      rw [Memory.bucketCount, FiniteMap.size, FiniteMap.keys, List.length_map]⟩
    rw [h.mem_keys_iff]
    constructor
    · rintro ⟨a, ha, hk⟩
      exact ⟨a, (hmem a).mpr ha, (hcur a ha _).mpr hk.symm⟩
    · rintro ⟨a, ha, hk⟩
      exact ⟨a, (hmem a).mp ha, ((hcur a ((hmem a).mp ha) _).mp hk).symm⟩

end RuleMatching.Memory
