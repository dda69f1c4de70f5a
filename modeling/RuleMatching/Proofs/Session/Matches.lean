import RuleMatching.Proofs.Network.Routed
import RuleMatching.Proofs.Session.Contents

set_option autoImplicit false

/-! # The matches of a rule

After every run a rule has as matches exactly the lists of live facts that belong in at its entries
and satisfy its joins, each once and in order (`Session.matchesOf_run`). -/

namespace RuleMatching

open Network

namespace Session

/-! ## The order of matches -/

theorem isSorted_iff (a b : List Handle) : isSorted a b = true ↔ ¬ b < a := by
  induction a generalizing b with
  | nil => simp [isSorted]
  | cons x a ih =>
      cases b with
      | nil => simp [isSorted]
      | cons y b =>
          rw [isSorted, List.cons_lt_cons_iff, Bool.or_eq_true, Bool.and_eq_true, ih,
            decide_eq_true_eq, beq_iff_eq, not_or, not_and, Nat.not_lt]
          constructor
          · rintro (h | ⟨rfl, h⟩)
            · exact ⟨Nat.le_of_lt h, fun heq => absurd heq.symm (Nat.ne_of_lt h)⟩
            · exact ⟨Nat.le_refl x, fun _ => h⟩
          · rintro ⟨hle, h⟩
            rcases Nat.lt_or_eq_of_le hle with hlt | heq
            · exact Or.inl hlt
            · exact Or.inr ⟨heq, h heq.symm⟩

theorem pairwise_mergeSort (l : List (List Handle)) :
    (l.mergeSort isSorted).Pairwise fun a b => a ≤ b := by
  have hsorted : (l.mergeSort isSorted).Pairwise fun a b => isSorted a b = true := by
    refine List.pairwise_mergeSort (fun a b c hab hbc => ?_) (fun a b => ?_) l
    · rw [isSorted_iff, not_lt] at *
      exact le_trans hab hbc
    · rw [Bool.or_eq_true, isSorted_iff, isSorted_iff, not_lt, not_lt]
      exact le_total a b
  exact hsorted.imp fun h => not_lt.mp ((isSorted_iff _ _).mp h)

/-- A sorted list without repetition increases. -/
theorem pairwise_lt_mergeSort {l : List (List Handle)} (hl : l.Nodup) :
    (l.mergeSort isSorted).Pairwise (· < ·) := by
  have hnodup : (l.mergeSort isSorted).Nodup := (List.mergeSort_perm l isSorted).nodup_iff.mpr hl
  exact ((pairwise_mergeSort l).and hnodup).imp fun h => lt_of_le_of_ne h.1 h.2

/-- The matches of a rule are listed in order. -/
theorem pairwise_matchesOf (s : Session) (rule : String) :
    (s.matchesOf rule).Pairwise fun a b => a ≤ b := by
  unfold matchesOf
  cases s.network.ruleNamed? rule with
  | none => exact .nil
  | some r => exact pairwise_mergeSort _

/-- Rules with the same matches list them in the same order. -/
theorem matchesOf_eq_of_perm {s s' : Session} {rule rule' : String}
    (h : (s'.matchesOf rule').Perm (s.matchesOf rule)) : s'.matchesOf rule' = s.matchesOf rule :=
  h.eq_of_pairwise (fun _ _ _ _ => le_antisymm) (pairwise_matchesOf s' rule')
    (pairwise_matchesOf s rule)

/-- The matches of a rule are read off the tuples at its terminal. -/
theorem Current.matchesOf_eq {s : Session} (hc : s.Current) {r : CompiledRule}
    (hr : r ∈ s.network.rules) (hname : s.network.ruleNamed? r.name = some r) :
    s.matchesOf r.name =
      ((s.state.arena.storedAt r.terminal).map s.state.arena.handles).mergeSort isSorted := by
  rw [matchesOf, hname]
  simp only
  rw [hc.coherent.terminalTuples_eq hr]

theorem Current.mem_matchesOf_iff {s : Session} (hs : s.Consistent) (hc : s.Current)
    {r : CompiledRule} (hr : r ∈ s.network.rules) (hname : s.network.ruleNamed? r.name = some r)
    (l : List Handle) : l ∈ s.matchesOf r.name ↔ s.network.IsMatch s.facts r.entries l := by
  rw [hc.matchesOf_eq hr hname, List.mem_mergeSort]
  exact mem_handles_iff hs hc (Cut.terminal hr) (List.cons_ne_nil _ _) l

theorem Current.sorted_matchesOf {s : Session} (hs : s.Consistent) (hc : s.Current)
    {r : CompiledRule} (hr : r ∈ s.network.rules) (hname : s.network.ruleNamed? r.name = some r) :
    (s.matchesOf r.name).Pairwise (· < ·) := by
  rw [hc.matchesOf_eq hr hname]
  exact pairwise_lt_mergeSort (nodup_handles hs hc (Cut.terminal hr))

/-- The handles are those of live facts, one for each pattern of a rule; every fact belongs in at
its entry and passes the join tests of its pattern against the facts before it. -/
def Satisfies (net : Network) (facts : FactStore) (r : CompiledRule)
    (patterns : List CompiledPattern) (hs : List Handle) : Prop :=
  ∃ fs : List Fact, hs.map facts.get? = fs.map some ∧ fs.length = patterns.length ∧
    ∀ (i : Nat) e p f, r.entries[i]? = some e → patterns[i]? = some p → fs[i]? = some f →
      e.node ∈ net.admitting f ∧ ∀ t ∈ p.joinTests, t.isAllowed (fs.take i) f = .ok true

/-- **After every run the matches of a rule are exactly the lists of handles that satisfy its
patterns, in increasing order**, so there is none twice. -/
theorem matchesOf_run {rules : List Rule} {schemas : SchemaRegistry} {config : Config}
    {net : Network} (hbuild : Network.build rules schemas config = .ok net)
    (hid : ∀ rule ∈ rules, ∀ p ∈ rule.patterns, ∀ c ∈ p.clauses, c.RespectsIdentity)
    (calls : List Call) (k : Nat) {rule : Rule} (hrule : rules[k]? = some rule) :
    let s := ((ofNetwork net).run calls).1
    ∃ r patterns, net.rules[k]? = some r ∧
      Compile.compilePatterns schemas rule.name 0 [] rule.patterns = .ok patterns ∧
      (s.matchesOf rule.name).Pairwise (· < ·) ∧
      ∀ hs, hs ∈ s.matchesOf rule.name ↔ Satisfies net s.facts r patterns hs := by
  intro s
  obtain ⟨hnet, hconsistent, hcurrent⟩ := run_ofNetwork (wellFormed_build hbuild) calls
  have hc : s.Current := hcurrent (respectsIdentity_build hbuild hid)
  obtain ⟨r, hk⟩ : ∃ r, net.rules[k]? = some r := by
    refine ⟨_, List.getElem?_eq_getElem ?_⟩
    rw [length_rules_build hbuild]
    exact (List.getElem?_eq_some_iff.mp hrule).1
  obtain ⟨rule', hrule', hcomp⟩ := rules_build hbuild k hk
  rw [hrule, Option.some.injEq] at hrule'
  subst hrule'
  obtain ⟨patterns, hcompile, hlen, hentries⟩ := hcomp.entries
  have hmem : r ∈ net.rules := List.mem_of_getElem? hk
  have hname : r.name = rule.name := by
    obtain ⟨node, first, rest, -, hr⟩ := hcomp
    rw [hr]
    rfl
  have hnamed := ruleNamed?_build hbuild hmem
  rw [← hnet] at hmem hnamed
  rw [← hname] at hcompile ⊢
  refine ⟨r, patterns, hk, hcompile, Current.sorted_matchesOf hconsistent hc hmem hnamed,
    fun hs => ?_⟩
  rw [Current.mem_matchesOf_iff hconsistent hc hmem hnamed, IsMatch, Satisfies, hnet]
  -- The entry at a position has the join tests that were compiled from the pattern at
  -- that position.
  refine exists_congr fun fs => and_congr Iff.rfl ?_
  rw [← hlen]
  refine and_congr_right fun _ => ⟨fun h i e p f he hp hf => ?_, fun h i e f he hf => ?_⟩
  · obtain ⟨p', hp', htests⟩ := hentries i e he
    rw [hp, Option.some.injEq] at hp'
    rw [hp', ← htests]
    exact h i e f he hf
  · obtain ⟨p, hp, htests⟩ := hentries i e he
    rw [htests]
    exact h i e p f he hp hf

/-! ## Pairs of orders -/

/-- Orders have a customer and a total. -/
def orderSchemas : SchemaRegistry :=
  .ofSchemas [⟨"order", .ofList [("customer", .integer), ("total", .integer)]⟩]

/-- A relation that sees no more of its values than whether they are null. -/
def bothNullOrNeither : ValueRelation := ⟨"both_null_or_neither", fun v w => v.isNull == w.isNull⟩

/-- Two orders of one customer with totals of one sort. -/
def pairRule : Rule :=
  ⟨"pair", [⟨"order", some "a", []⟩,
    ⟨"order", none, [.join "customer" .equal "a" "customer",
      .relation "total" "a" "total" bothNullOrNeither]⟩]⟩

/-- Two orders of one customer, whatever their totals. -/
def customerRule : Rule :=
  ⟨"customer", [⟨"order", some "a", []⟩, ⟨"order", none, [.join "customer" .equal "a" "customer"]⟩]⟩

def order (customer total : Int64) : Fact :=
  ⟨"order", .ofList [("customer", .integer customer), ("total", .integer total)]⟩

/-- Calls of all kinds, the last of which fails. -/
def orderCalls : List Call :=
  [.insert (order 7 1), .insert (order 7 2), .insertAt 5 (order 8 3), .update 2 (order 8 2),
    .delete 1, .delete 9]

theorem respectsIdentity_pairRule :
    ∀ rule ∈ [pairRule], ∀ p ∈ rule.patterns, ∀ c ∈ p.clauses, c.RespectsIdentity := by
  have hrelation : bothNullOrNeither.RespectsIdentity := by
    have hnull : ∀ v w : Value, v.isIdentical w = true → v.isNull = w.isNull := by
      intro v w h
      simp only [Value.isIdentical, Bool.and_eq_true, beq_iff_eq] at h
      cases v <;> cases w <;> simp_all [Value.kind?, Value.isNull]
    intro v v' w w' hv hw
    simp only [bothNullOrNeither, hnull v v' hv, hnull w w' hw]
  simp [pairRule, Clause.RespectsIdentity, hrelation]

/-- Each of the two orders that are left makes a pair with itself and with the other. -/
theorem matchesOf_orders : ∃ net, Network.build [pairRule] orderSchemas .standard = .ok net ∧
    (∀ rule ∈ [pairRule], ∀ p ∈ rule.patterns, ∀ c ∈ p.clauses, c.RespectsIdentity) ∧
    [pairRule][0]? = some pairRule ∧
    ∃ r patterns, net.rules[0]? = some r ∧
      Compile.compilePatterns orderSchemas "pair" 0 [] pairRule.patterns = .ok patterns ∧
      let s := ((ofNetwork net).run orderCalls).1
      s.matchesOf "pair" = [[2, 2], [2, 5], [5, 2], [5, 5]] ∧
      Satisfies net s.facts r patterns [2, 5] ∧ ¬ Satisfies net s.facts r patterns [1, 2] := by
  obtain ⟨net, hnet, hmade⟩ : ∃ net, Network.build [pairRule] orderSchemas .standard = .ok net ∧
      ((ofNetwork net).run orderCalls).1.matchesOf "pair" =
        [[5, 5], [2, 5], [5, 2], [2, 2]].mergeSort isSorted :=
    ⟨_, rfl, congrArg (List.mergeSort · isSorted) (by decide +kernel)⟩
  obtain ⟨r, patterns, hr, hcompile, hsorted, hmem⟩ :=
    matchesOf_run hnet respectsIdentity_pairRule orderCalls 0 rfl
  rw [show pairRule.name = "pair" from rfl] at hsorted hmem
  have hlist : ((ofNetwork net).run orderCalls).1.matchesOf "pair" =
      [[2, 2], [2, 5], [5, 2], [5, 5]] := by
    refine List.Perm.eq_of_pairwise (fun a b _ _ h h' => absurd h' (lt_asymm h)) hsorted
      (by decide) ?_
    rw [hmade]
    exact (List.mergeSort_perm _ _).trans (by decide)
  rw [hlist] at hmem
  exact ⟨net, hnet, respectsIdentity_pairRule, rfl, r, patterns, hr, hcompile, hlist,
    (hmem _).mp (by decide), fun h => absurd ((hmem _).mpr h) (by decide)⟩

end Session

end RuleMatching
