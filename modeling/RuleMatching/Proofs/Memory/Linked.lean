import RuleMatching.Memory.Linked
import RuleMatching.Proofs.Memory.Keyed
import RuleMatching.Proofs.SlotMap.Linked

set_option autoImplicit false

/-! # Memories of linked lists keep to the ledger

A memory of linked lists shows another memory if each of its lists shows the list of the same key
(`LinkedMemory.Shows`). Then it answers the same calls in the same way, under locations that differ
only in how the generations are counted, and what can be seen of it is the same. **So memories of
both kinds, of either make, keep to the ledger through every run** (`Memory.ledger_run`). -/

namespace RuleMatching

namespace LinkedMemory

variable {α : Type}

/-- The operations of a memory of linked lists. -/
def ops : MemoryOps α (LinkedMemory α) LinkedLocation where
  ofKind := .ofKind
  add? := LinkedMemory.add?
  remove? := LinkedMemory.remove?
  candidates := LinkedMemory.candidates
  items := LinkedMemory.items
  size := LinkedMemory.size
  bucketCount := LinkedMemory.bucketCount

/-- Each list shows the list of the same key, and the items are counted. -/
inductive Shows : LinkedMemory α → Memory α → Prop
  | linear {slab : Slab α} {list : SlotMap α} (h : slab.Shows list) :
      Shows (.linear slab) (.linear list)
  | hashed {slabs : FiniteMap IndexKey (Slab α)} {buckets : FiniteMap IndexKey (SlotMap α)}
      {count : Nat} (h : FiniteMap.Related (fun _ list slab => slab.Shows list) buckets slabs)
      (hcount : count = (Memory.hashed buckets).size) :
      Shows (.hashed slabs count) (.hashed buckets)

namespace Shows

variable {s : LinkedMemory α} {m m' : Memory α}

theorem ofKind (kind : MemoryKind) :
    (LinkedMemory.ofKind kind : LinkedMemory α).Shows (.ofKind kind) := by
  cases kind with
  | linear => exact .linear Slab.shows_empty
  | hashed => exact .hashed (.empty _) rfl

/-- An addition is answered under the same key and slot. -/
theorem add? (h : s.Shows m) {key : Option IndexKey} {a : α} {l : Location}
    (hm : m.add? key a = some (l, m')) : ∃ s', s.add? key a = some (l.kept, s') ∧ s'.Shows m' := by
  have hsize := Memory.size_add? hm
  cases h with
  | linear h =>
      cases hm
      obtain ⟨href, hshows⟩ := h.add a
      exact ⟨_, congrArg (fun r => some (LinkedLocation.mk none r, _)) href, .linear hshows⟩
  | @hashed slabs buckets count h hcount =>
      cases key with
      | none => cases hm
      | some k =>
          cases hm
          have hbucket : ((slabs.get? k).getD .empty).Shows ((buckets.get? k).getD .empty) := by
            cases hlist : buckets.get? k with
            | none =>
                rw [h.get?_eq_none hlist]
                exact Slab.shows_empty
            | some list =>
                obtain ⟨slab, hslab, hk⟩ := h.get? hlist
                rw [hslab]
                exact hk
          obtain ⟨href, hshows⟩ := hbucket.add a
          refine ⟨_, congrArg (fun r => some (LinkedLocation.mk (some k) r, _)) href,
            .hashed (h.insert hshows fun _ _ _ _ hj => hj) ?_⟩
          rw [hsize, hcount]

/-- What can be removed is removed. -/
theorem remove? (h : s.Shows m) {l : Location} {a : α} (hm : m.remove? l = some (a, m')) :
    ∃ s', s.remove? l.kept = some (a, s') ∧ s'.Shows m' := by
  obtain ⟨key, r⟩ := l
  rcases Memory.remove?_cases hm with
    ⟨list, rfl, rfl, hget, rfl⟩ | ⟨buckets, k, bucket, rfl, rfl, hbucket, hget, rfl⟩
  · cases h with
    | @linear slab _ h =>
        obtain ⟨slab', hremove, hshows⟩ := h.remove hget
        exact ⟨.linear slab', by simp [LinkedMemory.remove?, Location.kept,
          hremove], .linear hshows⟩
  · cases h with
    | @hashed slabs _ count h hcount =>
        obtain ⟨slab, hslab, hbefore⟩ := h.get? hbucket
        obtain ⟨slab', hremove, hshows⟩ := hbefore.remove hget
        have hless : (bucket.remove r).size + 1 = bucket.size :=
          SlotMap.size_remove hbefore.valid hget
        have hsize : count - 1 =
            (Memory.hashed (Memory.withBucket buckets k (bucket.remove r))).size := by
          have hshrinks := Memory.size_withBucket hbucket (bucket.remove r)
          omega
        refine ⟨.hashed (if slab'.isEmpty then slabs.erase k else slabs.insert k slab') (count - 1),
          by simp [LinkedMemory.remove?, Location.kept, hslab, hremove], .hashed ?_ hsize⟩
        -- Both lists are empty after the removal, or neither is.
        rw [hshows.isEmpty_eq, Memory.withBucket]
        split
        · exact h.erase k fun _ _ _ _ hj => hj
        · exact h.insert hshows fun _ _ _ _ hj => hj

/-! ## What can be seen -/

theorem candidates_eq (h : s.Shows m) (key : Option IndexKey) :
    s.candidates key = m.candidates key := by
  cases h with
  | linear h => exact h.toList_eq
  | hashed h =>
      cases key with
      | none => rfl
      | some k => exact congrArg (Option.getD · []) (h.map_get? fun _ _ hk => hk.toList_eq)

theorem size_eq (h : s.Shows m) : s.size = m.size := by
  cases h with
  | linear h => exact h.count_eq.trans (Memory.size_linear _).symm
  | hashed h hcount => exact hcount

theorem perm_items (h : s.Shows m) : s.items.Perm m.items := by
  cases h with
  | linear h => exact List.Perm.of_eq h.toList_eq
  | @hashed slabs buckets count h =>
      rw [items, Memory.items, FiniteMap.flatMap_values_eq, FiniteMap.flatMap_values_eq]
      have hbuckets : ∀ k, ((slabs.get? k).map Slab.toList).getD [] =
          ((buckets.get? k).map SlotMap.toList).getD [] := fun k =>
        congrArg (Option.getD · []) (h.map_get? fun _ _ hk => hk.toList_eq)
      rw [List.flatMap_congr fun k _ => hbuckets k]
      exact h.perm_keys.flatMap_right _

theorem bucketCount_eq (h : s.Shows m) : s.bucketCount = m.bucketCount := by
  cases h with
  | linear h => rw [bucketCount, Memory.bucketCount, h.isEmpty_eq]
  | hashed h => exact h.size_eq

theorem add?_none (h : s.Shows m) (a : α) (hm : m.add? none a = none) : s.add? none a = none := by
  cases h with
  | linear h => cases hm
  | hashed h => rfl

end Shows

/-! ## Runs -/

/-- The memory of linked lists shows a memory that keeps the ledger, and its caller has been given
the same locations. -/
structure KeepsLedger (ledger : Ledger α) (t : Tracked (Memory α) Location)
    (s : Tracked (LinkedMemory α) LinkedLocation) : Prop where
  keeps : Memory.KeepsLedger ledger t
  shows : s.memory.Shows t.memory
  locations_eq : s.locations = t.locations.map Location.kept

namespace KeepsLedger

variable {ledger ledger' : Ledger α} {t t' : Tracked (Memory α) Location}
  {s : Tracked (LinkedMemory α) LinkedLocation}

theorem start (kind : MemoryKind) :
    KeepsLedger (.empty : Ledger α) (Memory.ops.start kind) (ops.start kind) where
  keeps := .start kind
  shows := .ofKind kind
  locations_eq := rfl

/-- Each step of the ledger can be followed. -/
theorem perform (call : MemoryCall α) {answer : Option α} (h : KeepsLedger ledger t s)
    (ht : Memory.ops.perform call t = some (answer, t')) (hkeeps : Memory.KeepsLedger ledger' t') :
    ∃ s', ops.perform call s = some (answer, s') ∧ KeepsLedger ledger' t' s' := by
  rcases Memory.ops.perform_cases ht with
    ⟨key, item, l, m, rfl, rfl, hadd, rfl⟩ | ⟨n, l, item, m, rfl, rfl, hl, hremove, rfl⟩
  · obtain ⟨m', hadd', hshows⟩ := h.shows.add? hadd
    refine ⟨⟨m', s.locations ++ [l.kept]⟩, ?_, hkeeps, hshows, ?_⟩
    · simp [MemoryOps.perform, ops, hadd']
    · simp [h.locations_eq]
  · obtain ⟨m', hremove', hshows⟩ := h.shows.remove? hremove
    refine ⟨⟨m', s.locations⟩, ?_, hkeeps, hshows, h.locations_eq⟩
    simp [MemoryOps.perform, ops, h.locations_eq, hl, hremove']

/-- The ledger can be followed through a run. -/
theorem run (calls : List (MemoryCall α)) {answers : List (Option α)} (h : KeepsLedger ledger t s)
    (hrun : MemoryCall.run Ledger.perform calls ledger = some (answers, ledger')) :
    ∃ s', MemoryCall.run ops.perform calls s = some (answers, s') ∧
      ∃ t', KeepsLedger ledger' t' s' ∧ t'.memory.kind = t.memory.kind := by
  have hstep : ∀ (call : MemoryCall α) l s answer l',
      (∃ u, KeepsLedger l u s ∧ u.memory.kind = t.memory.kind) →
      Ledger.perform call l = some (answer, l') →
      ∃ s', ops.perform call s = some (answer, s') ∧ ∃ u, KeepsLedger l' u s' ∧
      u.memory.kind = t.memory.kind := by
    rintro call l s answer l' ⟨u, hu, hkind⟩ hcall
    obtain ⟨u', hperform, hkeeps, hkind'⟩ := hu.keeps.perform call hcall
    obtain ⟨s', hs, hs'⟩ := hu.perform call hperform hkeeps
    exact ⟨s', hs, u', hs', hkind'.trans hkind⟩
  exact MemoryCall.run_follows hstep calls ⟨t, h, rfl⟩ hrun

/-- The caller sees what the ledger says. -/
theorem sees (h : KeepsLedger ledger t s) : ops.Sees t.memory.kind ledger s where
  candidates k := (h.shows.candidates_eq _).trans (h.keeps.candidates k)
  size := h.shows.size_eq.trans h.keeps.sees.size
  items := h.shows.perm_items.trans h.keeps.perm_items
  bucketCount := h.shows.bucketCount_eq.trans h.keeps.bucketCount
  removal := by
    intro r hr
    obtain ⟨l, m, hl, hm, hcandidates⟩ := h.keeps.sees.removal r hr
    obtain ⟨m', hm', hshows⟩ := h.shows.remove? hm
    refine ⟨l.kept, m', ?_, hm', fun k => (hshows.candidates_eq _).trans (hcandidates k)⟩
    simp [h.locations_eq, hl]
  refusal := fun hkind item => h.shows.add?_none item (h.keeps.sees.refusal hkind item)

end KeepsLedger

end LinkedMemory

namespace Memory

/-- **Memories of both kinds keep to the ledger, of whatever lists they are made.** A run that the
ledger allows has the same answers in either kind. A linear memory then sees all records, a hashed
memory for each key the records of that key, in the order of addition; the number of items and of
lists and the items themselves are those of the ledger; and the location of a stored item removes
this item and nothing else. -/
theorem ledger_run {α : Type} (calls : List (MemoryCall α)) {answers : List (Option α)}
    {ledger : Ledger α} (h : MemoryCall.run Ledger.perform calls .empty = some (answers, ledger))
    (kind : MemoryKind) :
    (∃ t, MemoryCall.run Memory.ops.perform calls (Memory.ops.start kind) = some (answers, t) ∧
      Memory.ops.Sees kind ledger t) ∧
    ∃ s, MemoryCall.run LinkedMemory.ops.perform calls (LinkedMemory.ops.start kind) = some
      (answers, s) ∧
      LinkedMemory.ops.Sees kind ledger s := by
  have hkind : (Memory.ops.start kind : Tracked (Memory α) Location).memory.kind = kind := by
    cases kind <;> rfl
  constructor
  · obtain ⟨t, hrun, hkeeps, hsame⟩ := (KeepsLedger.start kind).run calls h
    have hsees := hkeeps.sees
    rw [hsame, hkind] at hsees
    exact ⟨t, hrun, hsees⟩
  · obtain ⟨s, hrun, t, hkeeps, hsame⟩ := (LinkedMemory.KeepsLedger.start kind).run calls h
    have hsees := hkeeps.sees
    rw [hsame, hkind] at hsees
    exact ⟨s, hrun, hsees⟩

/-- Items under two keys, three of them equal. The bucket of the key 2 goes with its only item and
is made anew. -/
def interleaved : List (MemoryCall Nat) :=
  [.add [.integer 1] 5, .add [.integer 2] 5, .add [.integer 1] 7, .remove 1, .add [.integer 2] 8,
    .remove 0, .add [.integer 1] 5]

/-- Of the items that are left each bucket has its own, in order. -/
theorem ledger_run_interleaved : ∃ answers ledger,
    MemoryCall.run Ledger.perform interleaved .empty = some (answers, ledger) ∧
    ∃ s, MemoryCall.run LinkedMemory.ops.perform interleaved (LinkedMemory.ops.start .hashed) =
      some (answers, s) ∧
      answers = [none, none, none, some 5, none, some 5, none] ∧
      s.memory.candidates (some [.integer 1]) = [7, 5] ∧
      s.memory.candidates (some [.integer 2]) = [8] ∧
      s.memory.size = 3 ∧ s.memory.bucketCount = 2 := by
  obtain ⟨-, s, hrun, hsees⟩ := ledger_run interleaved rfl .hashed
  exact ⟨_, _, rfl, s, hrun, rfl, (hsees.candidates _).trans (by decide),
    (hsees.candidates _).trans (by decide), hsees.size.trans (by decide),
    hsees.bucketCount.trans (by decide)⟩

end Memory

end RuleMatching
