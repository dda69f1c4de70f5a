import Mathlib.Data.List.Dedup
import Mathlib.Data.List.Perm.Basic
import RuleMatching.Proofs.Memory

set_option autoImplicit false

/-! # A hashed memory is a linear memory, sorted by key

A caller of a memory keeps the location of each addition and removes an item by the number of its
addition. What the memory must then hold is written in a `Ledger`: the records of the items that are
stored, in the order of addition. Items may be equal, a bucket may be dropped and made anew, and a
reference may be given out again for another item. Memories of both kinds keep to the ledger, call
after call (`Memory.KeepsLedger.perform`): a linear memory yields all records, a hashed memory for
each key the records of that key, in the same order. -/

namespace RuleMatching

/-- Sorted by keys among which are all of theirs, the members of a list are a permutation of it. -/
theorem perm_flatMap_filter {α κ : Type} [DecidableEq κ] (f : α → κ) {keys : List κ}
    (hn : keys.Nodup) {l : List α} (h : ∀ a ∈ l, f a ∈ keys) :
    (keys.flatMap fun k => l.filter fun a => f a = k).Perm l := by
  induction keys generalizing l with
  | nil =>
      have hnil : l = [] := List.eq_nil_iff_forall_not_mem.mpr fun a ha => by cases h a ha
      exact hnil ▸ List.Perm.nil
  | cons k keys ih =>
      obtain ⟨hk, hkeys⟩ := List.nodup_cons.mp hn
      have hothers : (keys.flatMap fun j => l.filter fun a => f a = j) =
          keys.flatMap fun j => (l.filter fun a => !decide (f a = k)).filter fun a => f a = j := by
        refine List.flatMap_congr fun j hj => ?_
        rw [List.filter_filter]
        refine List.filter_congr fun a _ => ?_
        have hjk : j ≠ k := fun h => hk (h ▸ hj)
        by_cases ha : f a = j
        · simp [ha, hjk]
        · simp [ha]
      have hrest := ih hkeys (l := l.filter fun a => !decide (f a = k)) fun a ha => by
        obtain ⟨ha, hne⟩ := List.mem_filter.mp ha
        have hne' : f a ≠ k := by simpa using hne
        exact List.mem_of_ne_of_mem hne' (h a ha)
      rw [List.flatMap_cons, hothers]
      exact (hrest.append_left _).trans (List.filter_append_perm _ l)

/-! ## Calls and the ledger -/

/-- A call to a memory. An item is removed by the number of its addition, counted from 0. -/
inductive MemoryCall (α : Type) where
  | add (key : IndexKey) (item : α)
  | remove (addition : Nat)

/-- Makes the calls in order. There is no result if one of them is refused. -/
def MemoryCall.run {α σ : Type} (perform : MemoryCall α → σ → Option (Option α × σ)) :
    List (MemoryCall α) → σ → Option (List (Option α) × σ)
  | [], s => some ([], s)
  | call :: rest, s => do
    let (answer, s) ← perform call s
    let (answers, s) ← run perform rest s
    return (answer :: answers, s)

/-- An item with the number of its addition and the key it was added under. -/
structure Record (α : Type) where
  number : Nat
  key : IndexKey
  item : α

/-- The records of the items that are stored, in the order of addition. -/
structure Ledger (α : Type) where
  additions : Nat
  stored : List (Record α)
  number_lt : ∀ r ∈ stored, r.number < additions
  distinct : (stored.map Record.number).Nodup

namespace Ledger

variable {α : Type}

def empty : Ledger α := ⟨0, [], by simp, List.nodup_nil⟩

/-- The records of a key. -/
def under (l : Ledger α) (k : IndexKey) : List (Record α) := l.stored.filter fun r => r.key = k

def add (l : Ledger α) (key : IndexKey) (item : α) : Ledger α where
  additions := l.additions + 1
  stored := l.stored ++ [⟨l.additions, key, item⟩]
  number_lt := by
    intro r hr
    rcases List.mem_append.mp hr with hr | hr
    · exact Nat.lt_succ_of_lt (l.number_lt r hr)
    · rw [List.mem_singleton.mp hr]
      exact Nat.lt_succ_self _
  distinct := by
    rw [List.map_append, List.nodup_append]
    refine ⟨l.distinct, List.nodup_singleton _, ?_⟩
    rintro _ hr _ hs rfl
    obtain ⟨r, hr, hnumber⟩ := List.mem_map.mp hr
    have hlt := l.number_lt r hr
    rw [hnumber, List.mem_singleton.mp hs] at hlt
    exact Nat.lt_irrefl _ hlt

/-- The ledger without the record of a number. -/
def drop (l : Ledger α) (n : Nat) : Ledger α where
  additions := l.additions
  stored := l.stored.filter fun r => r.number ≠ n
  number_lt := fun r hr => l.number_lt r (List.mem_filter.mp hr).1
  distinct :=
    l.distinct.sublist ((List.filter_sublist (p := fun r => r.number ≠ n)).map Record.number)

/-- Makes a call. Only what is stored can be removed; the answer is its item. -/
def perform : MemoryCall α → Ledger α → Option (Option α × Ledger α)
  | .add key item, l => some (none, l.add key item)
  | .remove n, l => (l.stored.find? fun r => r.number = n).map fun r => (some r.item, l.drop n)

/-- A call either adds a record at the end, or takes out one that is stored. -/
theorem perform_cases {l l' : Ledger α} {call : MemoryCall α} {answer : Option α}
    (h : perform call l = some (answer, l')) :
    (∃ key item, call = .add key item ∧ answer = none ∧ l' = l.add key item) ∨
      ∃ r ∈ l.stored, call = .remove r.number ∧ answer = some r.item ∧ l' = l.drop r.number := by
  cases call with
  | add key item =>
      cases h
      exact Or.inl ⟨key, item, rfl, rfl, rfl⟩
  | remove n =>
      obtain ⟨r, hfind, hr⟩ := Option.map_eq_some_iff.mp h
      have hnumber : r.number = n := by simpa using List.find?_some hfind
      cases hr
      subst hnumber
      exact Or.inr ⟨r, List.mem_of_find?_eq_some hfind, rfl, rfl, rfl⟩

theorem under_add_self (l : Ledger α) (k : IndexKey) (item : α) :
    (l.add k item).under k = l.under k ++ [⟨l.additions, k, item⟩] := by
  simp [under, add, List.filter_append]

theorem under_add_ne (l : Ledger α) {j k : IndexKey} (h : k ≠ j) (item : α) :
    (l.add k item).under j = l.under j := by
  simp [under, add, List.filter_append, h]

theorem under_drop (l : Ledger α) (k : IndexKey) (n : Nat) :
    (l.drop n).under k = (l.under k).filter fun r => r.number ≠ n := by
  rw [under, drop, under, List.filter_filter, List.filter_filter]
  exact List.filter_congr fun r _ => Bool.and_comm _ _

/-- The records of the other keys are not concerned when a record goes. -/
theorem under_drop_ne (l : Ledger α) {r : Record α} (hr : r ∈ l.stored) {k : IndexKey}
    (h : k ≠ r.key) : (l.drop r.number).under k = l.under k := by
  rw [under_drop, List.filter_eq_self]
  intro s hs
  obtain ⟨hs, hkey⟩ := List.mem_filter.mp hs
  have hkey' : s.key = k := by simpa using hkey
  have hne : s.number ≠ r.number := by
    intro hnumber
    rw [List.inj_on_of_nodup_map l.distinct hs hr hnumber] at hkey'
    exact h hkey'.symm
  simpa using hne

theorem mem_under {l : Ledger α} {k : IndexKey} {r : Record α} :
    r ∈ l.under k ↔ r ∈ l.stored ∧ r.key = k := by
  simp [under]

/-- The records among which a memory of the given kind finds those that can join
something under a key. -/
def seen (l : Ledger α) (kind : MemoryKind) (k : IndexKey) : List (Record α) :=
  match kind with
  | .linear => l.stored
  | .hashed => l.under k

theorem seen_drop (l : Ledger α) (kind : MemoryKind) (k : IndexKey) (n : Nat) :
    (l.drop n).seen kind k = (l.seen kind k).filter fun r => r.number ≠ n := by
  cases kind with
  | linear => rfl
  | hashed => exact l.under_drop k n

/-- How many lists a memory of the given kind needs: one, or one for each key. -/
def lists (l : Ledger α) : MemoryKind → Nat
  | .linear => if l.stored = [] then 0 else 1
  | .hashed => (l.stored.map Record.key).dedup.length

end Ledger

/-- Of two machines the second can follow the first through a run if it can follow each step. -/
theorem MemoryCall.run_follows {α σ τ : Type} {f : MemoryCall α → σ → Option (Option α × σ)}
    {g : MemoryCall α → τ → Option (Option α × τ)} {follows : σ → τ → Prop}
    (hstep : ∀ call s t answer s', follows s t → f call s = some (answer, s') →
      ∃ t', g call t = some (answer, t') ∧ follows s' t')
    (calls : List (MemoryCall α)) {s s' : σ} {t : τ} {answers : List (Option α)} (h : follows s t)
    (hrun : run f calls s = some (answers, s')) :
    ∃ t', run g calls t = some (answers, t') ∧ follows s' t' := by
  induction calls generalizing s t answers with
  | nil =>
      cases hrun
      exact ⟨t, rfl, h⟩
  | cons call rest ih =>
      obtain ⟨⟨answer, s₁⟩, hcall, hrest⟩ := Option.bind_eq_some_iff.mp hrun
      obtain ⟨⟨answers', s₂⟩, hrun', heq⟩ := Option.bind_eq_some_iff.mp hrest
      cases heq
      obtain ⟨t₁, hcall', h₁⟩ := hstep call s t answer s₁ h hcall
      obtain ⟨t₂, hrest', h₂⟩ := ih h₁ hrun'
      refine ⟨t₂, ?_, h₂⟩
      simp [run, hcall', hrest']

/-! ## A memory and its caller -/

/-- What a caller can do with a memory of type `μ` whose locations are of type `ρ`. -/
structure MemoryOps (α μ ρ : Type) where
  ofKind : MemoryKind → μ
  add? : μ → Option IndexKey → α → Option (ρ × μ)
  remove? : μ → ρ → Option (α × μ)
  candidates : μ → Option IndexKey → List α
  items : μ → List α
  size : μ → Nat
  bucketCount : μ → Nat

/-- A memory with the locations that its caller has been given, in the order of the additions. -/
structure Tracked (μ ρ : Type) where
  memory : μ
  locations : List ρ

namespace MemoryOps

variable {α μ ρ : Type} (ops : MemoryOps α μ ρ)

/-- A memory of the given kind, new to its caller. -/
def start (kind : MemoryKind) : Tracked μ ρ := ⟨ops.ofKind kind, []⟩

/-- Makes a call. The location of an addition is kept for its removal. -/
def perform : MemoryCall α → Tracked μ ρ → Option (Option α × Tracked μ ρ)
  | .add key item, t => do
    let (location, memory) ← ops.add? t.memory (some key) item
    return (none, ⟨memory, t.locations ++ [location]⟩)
  | .remove n, t => do
    let location ← t.locations[n]?
    let (item, memory) ← ops.remove? t.memory location
    return (some item, { t with memory })

/-- A call either adds an item and keeps its location, or removes the item at a location
that was kept. -/
theorem perform_cases {call : MemoryCall α} {t t' : Tracked μ ρ} {answer : Option α}
    (h : ops.perform call t = some (answer, t')) :
    (∃ key item l m, call = .add key item ∧ answer = none ∧
      ops.add? t.memory (some key) item = some (l, m) ∧
        t' = ⟨m, t.locations ++ [l]⟩) ∨
      ∃ n l item m, call = .remove n ∧ answer = some item ∧ t.locations[n]? = some l ∧
        ops.remove? t.memory l = some (item, m) ∧ t' = ⟨m, t.locations⟩ := by
  cases call with
  | add key item =>
      obtain ⟨⟨l, m⟩, hadd, heq⟩ := Option.bind_eq_some_iff.mp h
      cases heq
      exact Or.inl ⟨key, item, l, m, rfl, rfl, hadd, rfl⟩
  | remove n =>
      obtain ⟨l, hl, hrest⟩ := Option.bind_eq_some_iff.mp h
      obtain ⟨⟨item, m⟩, hremove, heq⟩ := Option.bind_eq_some_iff.mp hrest
      cases heq
      exact Or.inr ⟨n, l, item, m, rfl, rfl, hl, hremove, rfl⟩

/-- What the caller sees of the memory is what the ledger says. The location of a stored item
removes this item and nothing else. -/
structure Sees (kind : MemoryKind) (ledger : Ledger α) (t : Tracked μ ρ) : Prop where
  candidates : ∀ k, ops.candidates t.memory (some k) = (ledger.seen kind k).map Record.item
  size : ops.size t.memory = ledger.stored.length
  items : (ops.items t.memory).Perm (ledger.stored.map Record.item)
  bucketCount : ops.bucketCount t.memory = ledger.lists kind
  removal : ∀ r ∈ ledger.stored, ∃ l m, t.locations[r.number]? = some l ∧
    ops.remove? t.memory l = some (r.item, m) ∧
    ∀ k, ops.candidates m (some k) = ((ledger.seen kind k).filter fun s => s.number ≠ r.number).map
      Record.item
  refusal : kind = .hashed → ∀ item, ops.add? t.memory none item = none

end MemoryOps

/-- The operations of a memory whose lists are containers with stable references. -/
def Memory.ops {α : Type} : MemoryOps α (Memory α) Location where
  ofKind := .ofKind
  add? := Memory.add?
  remove? := Memory.remove?
  candidates := Memory.candidates
  items := Memory.items
  size := Memory.size
  bucketCount := Memory.bucketCount

namespace Record

variable {α : Type}

/-- The reference that was given for the record's item. -/
def slot (locations : List Location) (r : Record α) : SlotRef :=
  ((locations[r.number]?).map Location.slot).getD default

theorem slot_append {locations : List Location} {r : Record α} (h : r.number < locations.length)
    (more : List Location) : r.slot (locations ++ more) = r.slot locations := by
  rw [slot, slot, List.getElem?_append_left h]

/-- The caller has been given the key and the reference of the record. -/
def LocatedAt (locations : List Location) (k : Option IndexKey) (r : Record α) : Prop :=
  locations[r.number]? = some ⟨k, r.slot locations⟩

theorem LocatedAt.append {locations : List Location} {k : Option IndexKey} {r : Record α}
    (h : r.LocatedAt locations k) (more : List Location) : r.LocatedAt (locations ++ more) k := by
  have hlt : r.number < locations.length := (List.getElem?_eq_some_iff.mp h).1
  rw [LocatedAt, slot_append hlt, List.getElem?_append_left hlt]
  exact h

/-- The record of the addition that is made next. -/
theorem slot_new (locations : List Location) (l : Location) (k : IndexKey) (item : α) :
    slot (locations ++ [l]) (⟨locations.length, k, item⟩ : Record α) = l.slot := by
  simp [slot]

theorem locatedAt_new (locations : List Location) (l : Location) (k : IndexKey) (item : α) :
    LocatedAt (locations ++ [l]) l.key (⟨locations.length, k, item⟩ : Record α) := by
  rw [LocatedAt, slot_new]
  simp

end Record

/-! ## Lists that keep records -/

/-- The list has the items of the records, in order, each under the reference that was
given for it. -/
structure SlotMap.Keeps {α : Type} (locations : List Location) (records : List (Record α))
    (list : SlotMap α) : Prop where
  valid : list.Valid
  live_eq : list.live = records.map fun r => (r.slot locations, r.item)

namespace SlotMap.Keeps

variable {α : Type} {locations : List Location} {records : List (Record α)} {list : SlotMap α}

theorem empty (locations : List Location) : (SlotMap.empty : SlotMap α).Keeps locations [] :=
  ⟨valid_empty, rfl⟩

theorem toList_eq (h : list.Keeps locations records) : list.toList = records.map Record.item := by
  rw [toList, h.live_eq, List.map_map]
  rfl

theorem isEmpty_iff (h : list.Keeps locations records) : list.isEmpty = true ↔ records = [] := by
  rw [Memory.isEmpty_iff, h.toList_eq, List.map_eq_nil_iff]

theorem get? (h : list.Keeps locations records) {r : Record α} (hr : r ∈ records) :
    list.get? (r.slot locations) = some r.item := by
  rw [get?_eq_some_iff h.valid, h.live_eq]
  exact List.mem_map.mpr ⟨r, hr, rfl⟩

/-- Further additions elsewhere leave the list as it is. -/
theorem append (h : list.Keeps locations records) (hlt : ∀ r ∈ records, r.number < locations.length)
    (more : List Location) : list.Keeps (locations ++ more) records := by
  refine ⟨h.valid, h.live_eq.trans (List.map_congr_left fun r hr => ?_)⟩
  rw [Record.slot_append (hlt r hr)]

theorem add (h : list.Keeps locations records) (hlt : ∀ r ∈ records, r.number < locations.length)
    (key : Option IndexKey) (k : IndexKey) (item : α) :
    (list.add item).Keeps (locations ++ [⟨key, list.next⟩])
      (records ++ [⟨locations.length, k, item⟩]) := by
  refine ⟨valid_add h.valid item, ?_⟩
  rw [live_add, (h.append hlt [⟨key, list.next⟩]).live_eq, List.map_append, List.map_singleton,
    Record.slot_new]

/-- What is removed by its reference is the one record that has it. -/
theorem remove (h : list.Keeps locations records) {r : Record α} (hr : r ∈ records) :
    (list.remove (r.slot locations)).Keeps locations (records.filter fun s => s.number ≠
      r.number) := by
  refine ⟨valid_remove h.valid _, ?_⟩
  have hrefs : (records.map (Record.slot locations)).Nodup := by
    have hnodup := h.valid.nodup_refs
    rw [refs, h.live_eq, List.map_map] at hnodup
    exact hnodup
  rw [live_remove, h.live_eq, List.filter_map]
  congr 1
  refine List.filter_congr fun s hs => ?_
  have hiff : s.slot locations = r.slot locations ↔ s.number = r.number := by
    constructor
    · intro hslot
      rw [List.inj_on_of_nodup_map hrefs hs hr hslot]
    · intro hnumber
      rw [Record.slot, Record.slot, hnumber]
  simp [hiff]

end SlotMap.Keeps

/-! ## Memories that keep a ledger -/

namespace Memory

variable {α : Type}

/-- The list of a key, empty if there is no bucket for it. -/
def bucket (buckets : FiniteMap IndexKey (SlotMap α)) (k : IndexKey) : SlotMap α :=
  (buckets.get? k).getD .empty

theorem toList_bucket (buckets : FiniteMap IndexKey (SlotMap α)) (k : IndexKey) :
    (bucket buckets k).toList = (hashed buckets).candidates (some k) := by
  rw [bucket, candidates]
  cases buckets.get? k <;> rfl

theorem bucket_insert (buckets : FiniteMap IndexKey (SlotMap α)) (k j : IndexKey) (b : SlotMap α) :
    bucket (buckets.insert k b) j = if j = k then b else bucket buckets j := by
  rw [bucket, FiniteMap.get?_insert]
  split <;> rfl

/-- The memory keeps the items of the ledger, a hashed memory in a bucket for each of their keys. -/
inductive KeepsLedger (ledger : Ledger α) : Tracked (Memory α) Location → Prop
  | linear {list : SlotMap α} {locations : List Location} (length : locations.length =
      ledger.additions) (keeps : list.Keeps locations ledger.stored)
      (located : ∀ r ∈ ledger.stored, r.LocatedAt locations none) :
      KeepsLedger ledger ⟨.linear list, locations⟩
  | hashed {buckets : FiniteMap IndexKey (SlotMap α)} {locations : List Location}
      (length : locations.length = ledger.additions)
      (keeps : ∀ k, (bucket buckets k).Keeps locations (ledger.under k))
      (nonempty : ∀ k b, buckets.get? k = some b → ledger.under k ≠ [])
      (located : ∀ r ∈ ledger.stored, r.LocatedAt locations (some r.key)) :
      KeepsLedger ledger ⟨.hashed buckets, locations⟩

namespace KeepsLedger

variable {ledger : Ledger α} {t : Tracked (Memory α) Location}

theorem start (kind : MemoryKind) : KeepsLedger (.empty : Ledger α) (ops.start kind) := by
  cases kind with
  | linear => exact .linear rfl (.empty []) (by simp [Ledger.empty])
  | hashed =>
      exact .hashed rfl (fun _ => .empty []) (fun k b h => by cases h) (by simp [Ledger.empty])

/-- An addition puts a record at the end of its list, and all others stay where they are. -/
theorem add (h : KeepsLedger ledger t) (key : IndexKey) (item : α) :
    ∃ t', ops.perform (.add key item) t = some (none, t') ∧
      KeepsLedger (ledger.add key item) t' ∧ t'.memory.kind = t.memory.kind := by
  cases h with
  | @linear list locations length keeps located =>
      have hlt : ∀ r ∈ ledger.stored, r.number < locations.length := length ▸ ledger.number_lt
      refine ⟨_, rfl, .linear (by simp [length, Ledger.add]) ?_ fun r hr => ?_, rfl⟩
      · have hadd := keeps.add hlt none key item
        rw [length] at hadd
        exact hadd
      · -- What was located stays located, since locations are only added at the end.
        rcases List.mem_append.mp hr with hr | hr
        · exact (located r hr).append _
        · rw [List.mem_singleton.mp hr, ← length]
          exact Record.locatedAt_new locations ⟨none, list.next⟩ key item
  | @hashed buckets locations length keeps nonempty located =>
      have hlt : ∀ r ∈ ledger.stored, r.number < locations.length := length ▸ ledger.number_lt
      have hltUnder : ∀ k, ∀ r ∈ ledger.under k, r.number < locations.length :=
        fun k r hr => hlt r (Ledger.mem_under.mp hr).1
      refine ⟨_, rfl, .hashed (by simp [length, Ledger.add]) (fun k => ?_) (fun k b hb => ?_)
        fun r hr => ?_, rfl⟩
      · rw [bucket_insert]
        by_cases hk : k = key
        · subst hk
          rw [if_pos rfl, Ledger.under_add_self, ← length]
          exact (keeps k).add (hltUnder k) (some k) k item
        · rw [if_neg hk, Ledger.under_add_ne _ (Ne.symm hk)]
          exact (keeps k).append (hltUnder k) _
      · by_cases hk : k = key
        · rw [hk, Ledger.under_add_self]
          exact List.append_ne_nil_of_right_ne_nil _ (List.cons_ne_nil _ _)
        · rw [FiniteMap.get?_insert_ne _ _ hk] at hb
          rw [Ledger.under_add_ne _ (Ne.symm hk)]
          exact nonempty k b hb
      · rcases List.mem_append.mp hr with hr | hr
        · exact (located r hr).append _
        · rw [List.mem_singleton.mp hr, ← length]
          exact Record.locatedAt_new locations ⟨some key, (bucket buckets key).next⟩ key item

/-- The list of a stored record's key is there. -/
theorem get?_of_mem {buckets : FiniteMap IndexKey (SlotMap α)} {locations : List Location}
    (keeps : ∀ k, (bucket buckets k).Keeps locations (ledger.under k)) {r : Record α}
    (hr : r ∈ ledger.stored) : buckets.get? r.key = some (bucket buckets r.key) := by
  cases hb : buckets.get? r.key with
  | some b => rw [bucket, hb, Option.getD_some]
  | none =>
      have hmem := (keeps r.key).get? (Ledger.mem_under.mpr ⟨hr, rfl⟩)
      rw [bucket, hb] at hmem
      cases hmem

/-- A removal answers the item of the record and takes out this record only. -/
theorem remove (h : KeepsLedger ledger t) {r : Record α} (hr : r ∈ ledger.stored) :
    ∃ l m, t.locations[r.number]? = some l ∧ t.memory.remove? l = some (r.item, m) ∧
      KeepsLedger (ledger.drop r.number) ⟨m, t.locations⟩ ∧ m.kind = t.memory.kind := by
  cases h with
  | @linear list locations length keeps located =>
      refine ⟨_, _, located r hr, remove?_linear (keeps.get? hr), .linear length (keeps.remove hr)
        fun s hs => located s (List.mem_filter.mp hs).1, rfl⟩
  | @hashed buckets locations length keeps nonempty located =>
      have hunder : r ∈ ledger.under r.key := Ledger.mem_under.mpr ⟨hr, rfl⟩
      have hbucket := get?_of_mem keeps hr
      have hrest := (keeps r.key).remove hunder
      rw [← Ledger.under_drop] at hrest
      refine ⟨_, _, located r hr, remove?_hashed hbucket ((keeps r.key).get? hunder), .hashed length
        (fun k => ?_) (fun k b hb => ?_) fun s hs => located s (List.mem_filter.mp hs).1, rfl⟩
      · by_cases hk : k = r.key
        · subst hk
          rw [bucket, get?_withBucket_self]
          split
          -- The bucket goes with its last record.
          · next hempty =>
            rw [hrest.isEmpty_iff.mp hempty]
            exact .empty locations
          · exact hrest
        · rw [Ledger.under_drop_ne _ hr hk, bucket, get?_withBucket_ne _ _ hk]
          exact keeps k
      · rcases cases_of_get?_withBucket hb with ⟨rfl, rfl, hne⟩ | ⟨hk, hb⟩
        · rw [hrest.toList_eq, Ne, List.map_eq_nil_iff] at hne
          exact hne
        · rw [Ledger.under_drop_ne _ hr hk]
          exact nonempty k b hb

/-- A memory that keeps the ledger can follow each of its steps. -/
theorem perform (call : MemoryCall α) {answer : Option α} {ledger' : Ledger α}
    (h : KeepsLedger ledger t) (hcall : Ledger.perform call ledger = some (answer, ledger')) :
    ∃ t', ops.perform call t = some (answer, t') ∧ KeepsLedger ledger' t' ∧
      t'.memory.kind = t.memory.kind := by
  rcases Ledger.perform_cases hcall with ⟨key, item, rfl, rfl, rfl⟩ | ⟨r, hr, rfl, rfl, rfl⟩
  · exact h.add key item
  · obtain ⟨l, m, hl, hm, hkeeps, hkind⟩ := h.remove hr
    exact ⟨_, by simp [MemoryOps.perform, ops, hl, hm], hkeeps, hkind⟩

/-- The memory follows the ledger through a run. -/
theorem run (calls : List (MemoryCall α)) {answers : List (Option α)} {ledger' : Ledger α}
    (h : KeepsLedger ledger t)
    (hrun : MemoryCall.run Ledger.perform calls ledger = some (answers, ledger')) :
    ∃ t', MemoryCall.run ops.perform calls t = some (answers, t') ∧ KeepsLedger ledger' t' ∧
      t'.memory.kind = t.memory.kind := by
  have hstep : ∀ (call : MemoryCall α) l u answer l', KeepsLedger l u ∧
      u.memory.kind = t.memory.kind →
      Ledger.perform call l = some (answer, l') →
      ∃ u', ops.perform call u = some (answer, u') ∧ KeepsLedger l' u' ∧
      u'.memory.kind = t.memory.kind := by
    rintro call l u answer l' ⟨hkeeps, hkind⟩ hcall
    rw [← hkind]
    exact hkeeps.perform call hcall
  exact MemoryCall.run_follows hstep calls ⟨h, rfl⟩ hrun

/-! ## What can be seen of a memory -/

/-- The candidates for a key are the records that a memory of its kind sees under it. -/
theorem candidates (h : KeepsLedger ledger t) (k : IndexKey) :
    t.memory.candidates (some k) = (ledger.seen t.memory.kind k).map Record.item := by
  cases h with
  | linear length keeps located => exact keeps.toList_eq
  | hashed length keeps nonempty located => exact (toList_bucket _ k).symm.trans (keeps k).toList_eq

/-- There is a bucket for a key iff a record has the key. -/
theorem mem_keys_iff {buckets : FiniteMap IndexKey (SlotMap α)} {locations : List Location}
    (h : KeepsLedger ledger ⟨.hashed buckets, locations⟩) (k : IndexKey) :
    k ∈ buckets.keys ↔ k ∈ ledger.stored.map Record.key := by
  cases h with
  | hashed length keeps nonempty located =>
      rw [FiniteMap.mem_keys_iff, List.mem_map]
      constructor
      · rintro ⟨b, hb⟩
        obtain ⟨r, hr⟩ := List.exists_mem_of_ne_nil _ (nonempty k b hb)
        exact ⟨r, Ledger.mem_under.mp hr⟩
      · rintro ⟨r, hr, rfl⟩
        exact ⟨_, get?_of_mem keeps hr⟩

/-- As many lists hold an item as there are keys recorded; a linear memory has one list. -/
theorem bucketCount (h : KeepsLedger ledger t) :
    t.memory.bucketCount = ledger.lists t.memory.kind := by
  cases h with
  | @linear list locations length keeps located =>
      rw [Memory.bucketCount]
      exact if_congr keeps.isEmpty_iff rfl rfl
  | @hashed buckets locations length keeps nonempty located =>
      have hperm : buckets.keys.Perm (ledger.stored.map Record.key).dedup := by
        refine (List.perm_ext_iff_of_nodup buckets.nodup_keys (List.nodup_dedup _)).mpr fun k => ?_
        rw [List.mem_dedup]
        exact mem_keys_iff (.hashed length keeps nonempty located) k
      calc buckets.size = buckets.keys.length := (FiniteMap.length_keys buckets).symm
        _ = (ledger.stored.map Record.key).dedup.length := hperm.length_eq

/-- The items, list by list, are those of the records. -/
theorem perm_items (h : KeepsLedger ledger t) :
    t.memory.items.Perm (ledger.stored.map Record.item) := by
  cases h with
  | @linear list locations length keeps located => exact keeps.toList_eq ▸ List.Perm.refl _
  | @hashed buckets locations length keeps nonempty located =>
      have hkeys : ∀ r ∈ ledger.stored, r.key ∈ buckets.keys := fun r hr =>
        (mem_keys_iff (.hashed length keeps nonempty located) r.key).mpr (List.mem_map_of_mem hr)
      have hitems :
          (Memory.hashed buckets).items = (buckets.keys.flatMap ledger.under).map Record.item :=
        calc buckets.values.flatMap SlotMap.toList
            = buckets.keys.flatMap fun k => (Memory.hashed buckets).candidates (some k) :=
              buckets.flatMap_values_eq SlotMap.toList
          _ = buckets.keys.flatMap fun k => (ledger.under k).map Record.item := by
              refine List.flatMap_congr fun k _ => ?_
              rw [← toList_bucket, (keeps k).toList_eq]
          _ = (buckets.keys.flatMap ledger.under).map Record.item := List.map_flatMap.symm
      rw [hitems]
      exact (perm_flatMap_filter Record.key buckets.nodup_keys hkeys).map Record.item

/-- The caller of a memory that keeps the ledger sees what the ledger says. -/
theorem sees (h : KeepsLedger ledger t) : ops.Sees t.memory.kind ledger t where
  candidates := h.candidates
  size := h.perm_items.length_eq.trans (List.length_map _)
  items := h.perm_items
  bucketCount := h.bucketCount
  removal := by
    intro r hr
    obtain ⟨l, m, hl, hm, hdrop, hkind⟩ := h.remove hr
    refine ⟨l, m, hl, hm, fun k => ?_⟩
    rw [← Ledger.seen_drop, ← hkind]
    exact hdrop.candidates k
  refusal := by
    intro hkind item
    obtain ⟨memory, locations⟩ := t
    cases memory with
    | linear list => cases hkind
    | hashed buckets => rfl

end KeepsLedger

end Memory

end RuleMatching
