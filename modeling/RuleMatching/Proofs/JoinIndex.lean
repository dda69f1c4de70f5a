import RuleMatching.Proofs.JoinCondition

set_option autoImplicit false

/-! # The tests that an index decides

The longest leading run of equalities of a condition is the only part of it that an index may take
over (`IsLeadingRun`). `JoinCondition.ofTests` gives the index the run, cut off at its depth, and
leaves the other tests in order as filters. Of each test in the index the key of one side has the
value that the bound facts have, the key of the other side the value of the candidate; so the keys
are equal and the filters hold iff every test holds on its own
(`JoinCondition.index_and_filters`). -/

namespace RuleMatching

namespace JoinTest

/-- The test asks that two fields be equal. -/
def IsEquality (t : JoinTest) : Prop :=
  ∃ accessor declaration, t = compare accessor .equal declaration

theorem isIndexable_iff (t : JoinTest) : t.isIndexable = true ↔ t.IsEquality := by
  constructor
  · intro h
    cases t with
    | related accessor declaration relation => cases h
    | compare accessor operator declaration =>
        cases operator with
        | equal => exact ⟨accessor, declaration, rfl⟩
        | notEqual | greater | greaterOrEqual | less | lessOrEqual => cases h
  · rintro ⟨accessor, declaration, rfl⟩
    rfl

end JoinTest

/-- The first `n` tests are equalities, and no longer part of the list from its start is made of
equalities only. -/
structure IsLeadingRun (tests : List JoinTest) (n : Nat) : Prop where
  le_length : n ≤ tests.length
  equalities : ∀ t ∈ tests.take n, t.IsEquality
  longest : ∀ m, m ≤ tests.length → (∀ t ∈ tests.take m, t.IsEquality) → m ≤ n

namespace IsLeadingRun

/-- Equalities from the start of the list are part of what the scan for equalities takes. -/
theorem le_length_takeWhile {tests : List JoinTest} {m : Nat} (hm : m ≤ tests.length)
    (h : ∀ t ∈ tests.take m, t.IsEquality) : m ≤ (tests.takeWhile JoinTest.isIndexable).length := by
  induction tests generalizing m with
  | nil => simpa using hm
  | cons t rest ih =>
      cases m with
      | zero => exact Nat.zero_le _
      | succ m =>
          rw [List.take_succ_cons] at h
          have ht : t.isIndexable = true := t.isIndexable_iff.mpr (h t List.mem_cons_self)
          have hrest := ih (Nat.le_of_succ_le_succ hm) fun u hu => h u (List.mem_cons_of_mem t hu)
          rw [List.takeWhile_cons_of_pos ht, List.length_cons]
          omega

/-- The scan for equalities finds the run. -/
theorem takeWhile_length (tests : List JoinTest) :
    IsLeadingRun tests (tests.takeWhile JoinTest.isIndexable).length where
  le_length := (List.takeWhile_prefix _).length_le
  equalities := by
    intro t ht
    rw [← List.prefix_iff_eq_take.mp (List.takeWhile_prefix _)] at ht
    exact t.isIndexable_iff.mp (List.mem_takeWhile_imp ht)
  longest := fun _ hm h => le_length_takeWhile hm h

end IsLeadingRun

namespace JoinCondition

/-! ## What the index takes -/

theorem keyCount_ofTests (tests : List JoinTest) (depth : Nat) :
    (ofTests tests depth).keyCount = min depth (tests.takeWhile JoinTest.isIndexable).length :=
  List.length_take

theorem isIndexed_iff (c : JoinCondition) : c.isIndexed = true ↔ c.keyCount ≠ 0 := bne_iff_ne

/-! ## Keys, component by component -/

/-- The atoms are the keys of what is read for the tests, in order. -/
def AreKeysOf (read : JoinTest → Except ReadError Value) (tests : List JoinTest)
    (atoms : List Key) : Prop :=
  List.Forall₂ (fun t atom => ∃ v, read t = .ok v ∧ atom = v.key) tests atoms

theorem areKeysOf_map {read : JoinTest → Except ReadError Value} {tests : List JoinTest}
    (h : ∀ t ∈ tests, ∃ v, read t = .ok v) :
    AreKeysOf read tests (tests.map fun t => (valueOf (read t)).key) := by
  rw [AreKeysOf, List.forall₂_map_right_iff, List.forall₂_same]
  intro t ht
  exact ⟨_, eq_ok_valueOf (h t ht), rfl⟩

/-- The pair passes the condition iff each test allows it. -/
theorem passes_eq_true_iff (c : JoinCondition) (bound : List Fact) (candidate : Fact) :
    c.passes bound candidate = true ↔ ∀ t ∈ c.tests, t.isAllowed bound candidate = .ok true := by
  rw [passes, List.all_eq_true]
  exact forall₂_congr fun t _ => t.passes_iff bound candidate

/-- **The index takes the leading equalities up to its depth, the filters take the rest in order,
and together they decide every test.** -/
theorem index_and_filters (tests : List JoinTest) (depth : Nat) (bound : List Fact)
    (candidate : Fact) (hbound : ∀ t ∈ tests, ∃ v, t.declaration.read bound = .ok v)
    (hcandidate : ∀ t ∈ tests, ∃ v, t.accessor.read candidate = .ok v) :
    ∃ run k, IsLeadingRun tests run ∧ k = min depth run ∧
      (ofTests tests depth).keyCount = k ∧
      (ofTests tests depth).keyed = tests.take k ∧
      (ofTests tests depth).filters = tests.drop k ∧
      ∃ left right allowed,
        (ofTests tests depth).leftKey bound = .ok left ∧
        (ofTests tests depth).rightKey candidate = .ok right ∧
        (ofTests tests depth).isAllowed bound candidate = .ok allowed ∧
        (k = 0 → left = none ∧ right = none) ∧
        (0 < k → ∃ latoms ratoms, left = some latoms ∧ right = some ratoms ∧
          AreKeysOf (·.declaration.read bound) (tests.take k) latoms ∧
          AreKeysOf (·.accessor.read candidate) (tests.take k) ratoms) ∧
        (left = right ∧ allowed = true ↔ ∀ t ∈ tests, t.isAllowed bound candidate = .ok true) := by
  have hcount := keyCount_ofTests tests depth
  generalize hc : ofTests tests depth = c at hcount
  have htests : c.tests = tests := by rw [← hc, ofTests]
  have hb : c.BoundReadable bound := by rwa [BoundReadable, htests]
  have hr : c.CandidateReadable candidate := by rwa [CandidateReadable, htests]
  have hleft := leftKey_eq hb
  have hright := rightKey_eq hr
  have hkeyed : c.keyed = tests.take c.keyCount := by rw [keyed, htests]
  refine ⟨_, c.keyCount, .takeWhile_length tests, hcount, rfl,
    hkeyed, by rw [filters,
    htests], _, _, _, hleft, hright, isAllowed_eq hb hr, fun h0 => ?none, fun hpos => ?some,
    ?decides⟩
  case none =>
    have hidx : c.isIndexed = false := by simp [isIndexed, h0]
    rw [hidx]
    exact ⟨rfl, rfl⟩
  case some =>
    have hidx : c.isIndexed = true := c.isIndexed_iff.mpr (Nat.ne_of_gt hpos)
    rw [hidx, ← hkeyed]
    exact ⟨_, _, rfl, rfl, areKeysOf_map fun t ht => hb t (c.keyed_subset ht),
      areKeysOf_map fun t ht => hr t (c.keyed_subset ht)⟩
  case decides =>
    have hindexable : c.Indexable := hc ▸ indexable_ofTests tests depth
    rw [← htests, ← passes_eq_true_iff, passes_iff hindexable hb hr hleft hright]
    exact and_congr_left' eq_comm

/-- Payments of the account's customer, of one currency and of at least its limit. -/
def paymentTests : List JoinTest :=
  [.compare ⟨"payment", "customer", .integer⟩ .equal ⟨"a", 0, ⟨"account", "customer", .float⟩⟩,
    .compare ⟨"payment", "currency", .string⟩ .equal ⟨"a", 0, ⟨"account", "currency", .string⟩⟩,
    .compare ⟨"payment", "amount", .integer⟩ .greaterOrEqual ⟨"a", 0,
      ⟨"account", "limit", .integer⟩⟩]

/-- An account whose customer is the float `7.0`. -/
def account : Fact :=
  ⟨"account", .ofList [("customer", .float ⟨0x401c000000000000⟩), ("currency", .string "EUR"),
    ("limit", .integer 100)]⟩

def payment : Fact :=
  ⟨"payment", .ofList [("customer", .integer 7), ("currency", .string "EUR"),
    ("amount", .integer 250)]⟩

/-- A payment joins an account by the key of its customer; the second equality is left
to the filters. -/
theorem index_and_filters_payments :
    (∀ t ∈ paymentTests, ∃ v, t.declaration.read [account] = .ok v) ∧
    (∀ t ∈ paymentTests, ∃ v, t.accessor.read payment = .ok v) ∧
    ∃ run, IsLeadingRun paymentTests run ∧
      (ofTests paymentTests 1).filters = paymentTests.drop (min 1 run) ∧
      ∃ left right, (ofTests paymentTests 1).leftKey [account] = .ok left ∧
        (ofTests paymentTests 1).rightKey payment = .ok right ∧
        (ofTests paymentTests 1).isAllowed [account] payment = .ok true ∧ left = right := by
  have hbound : ∀ t ∈ paymentTests, ∃ v, t.declaration.read [account] = .ok v := by
    simp only [paymentTests, List.forall_mem_cons]
    exact ⟨⟨_, rfl⟩, ⟨_, rfl⟩, ⟨_, rfl⟩, List.forall_mem_nil _⟩
  have hcandidate : ∀ t ∈ paymentTests, ∃ v, t.accessor.read payment = .ok v := by
    simp only [paymentTests, List.forall_mem_cons]
    exact ⟨⟨_, rfl⟩, ⟨_, rfl⟩, ⟨_, rfl⟩, List.forall_mem_nil _⟩
  have hseven : (Value.integer 7).nullSafeEq (.float ⟨0x401c000000000000⟩) =
    true := by decide +kernel
  have hall : ∀ t ∈ paymentTests, t.isAllowed [account] payment = .ok true := by
    simp only [paymentTests, List.forall_mem_cons]
    exact ⟨congrArg Except.ok hseven, rfl, rfl, List.forall_mem_nil _⟩
  obtain ⟨run, k, hrun, rfl, -, -, hfilters, left, right, allowed, hl, hr, ha, -, -, hiff⟩ :=
    index_and_filters paymentTests 1 [account] payment hbound hcandidate
  obtain ⟨heq, rfl⟩ := hiff.mpr hall
  exact ⟨hbound, hcandidate, run, hrun, hfilters, left, right, hl, hr, ha, heq⟩

end JoinCondition

end RuleMatching
