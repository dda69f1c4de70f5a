import RuleMatching.Proofs.Network.Identical
import RuleMatching.Proofs.Network.Reads
import RuleMatching.Proofs.Network.Twins
import RuleMatching.Proofs.Session.Others
import RuleMatching.Proofs.Session.Skipping

set_option autoImplicit false

/-! # What an update does not touch

An update has nothing to do at an entry that the fact is not in and does not enter, nor at one that
it stays in while no field changes that the joins of the rule read (`Session.Quiet`). **If all
entries of a rule are such, the update leaves the rule as it is**, whatever it does to other rules
in the same arena, and the entries that it stays in untouched are counted. An update that changes no
field has nothing to do anywhere (`Session.untouched_run`). -/

namespace RuleMatching

open Network Propagation

namespace Network

variable {rules : List Rule} {schemas : SchemaRegistry} {config : Config} {net : Network}

/-- A rule is known by its number. -/
theorem eq_of_id_eq (h : build rules schemas config = .ok net) {r r' : CompiledRule}
    (hr : r ∈ net.rules) (hr' : r' ∈ net.rules) (hid : r'.id = r.id) : r' = r := by
  obtain ⟨k, hk⟩ := List.mem_iff_getElem?.mp hr
  obtain ⟨k', hk'⟩ := List.mem_iff_getElem?.mp hr'
  have hkk : k' = k := (id_build h k' hk').symm.trans (hid.trans (id_build h k hk))
  rw [hkk, hk, Option.some.injEq] at hk'
  exact hk'.symm

theorem config_build (h : build rules schemas config = .ok net) : net.config = config := by
  obtain ⟨-, b, -, rfl⟩ := build_eq_ok_iff.mp h
  rfl

/-- A change concerns an entry iff it concerns a relevant field. -/
theorem WellFormed.isAffected_eq_false_iff (hnet : net.WellFormed) {e : Entry}
    (he : e ∈ net.allEntries) {changed : List String} :
    net.isAffected e.node changed = false ↔ ∀ field ∈ changed, field ∉ e.relevantFields := by
  rw [isAffected, hnet.entry?_eq he, List.any_eq_false]
  refine forall₂_congr fun field _ => not_congr ?_
  rw [Entry.mem_relevantFields_iff, Entry.exists_mem_readFields_iff, List.any_eq_true]
  simp only [beq_iff_eq]

end Network

namespace Session

variable {s s' : Session} {h : Handle} {old new : Fact} {reached : List NodeId} {e : Entry}

/-- The fact is in at the entry, the new version reaches it, and no relevant field changes. -/
def Stays (s : Session) (h : Handle) (old new : Fact) (reached : List NodeId) (e : Entry) : Prop :=
  s.state.holds e.node h = true ∧ e.node ∈ reached ∧
    ∀ field ∈ old.changedFields new, field ∉ e.relevantFields

instance : Decidable (s.Stays h old new reached e) := inferInstanceAs (Decidable (_ ∧ _ ∧ _))

/-- An update has nothing to do at the entry: the fact is not in and does not enter, or it stays. -/
def Quiet (s : Session) (h : Handle) (old new : Fact) (reached : List NodeId) (e : Entry) : Prop :=
  (s.state.holds e.node h = false ∧ e.node ∉ reached) ∨ s.Stays h old new reached e

instance : Decidable (s.Quiet h old new reached e) := inferInstanceAs (Decidable (_ ∨ _))

/-- A call that concerns no entry of a rule leaves the rule as it is. -/
theorem Traffic.spares {out into : List NodeId} {events : List ActivationEvent} (hs : s.Consistent)
    (ht : s.Traffic s' h out into events) {r : CompiledRule} (hr : r ∈ s.network.rules)
    (hids : ∀ r' ∈ s.network.rules, r'.id = r.id → r' = r) (hout : ¬ r.Meets out)
    (hinto : ¬ r.Meets into) : s.state.SameAt r s'.state ∧ ∀ event ∈ events, event.rule ≠ r.id := by
  obtain ⟨p, p', hdepartures, hsound, harrivals, hstate, hevents⟩ := ht
  have hspares : Spares r ⟨s.state, []⟩ p' :=
    (hdepartures.spares hs.network hs.sound.coherent hr hids hout).trans
      (harrivals.spares hs.network hsound.coherent hr hids hinto)
  rw [← hstate, ← hevents]
  refine ⟨hspares.same, fun event hevent => ?_⟩
  exact (hspares.silent event hevent).resolve_left List.not_mem_nil

/-! ## The plan of an update -/

section Plan

variable (hs : s.Consistent) (hskip : s.network.config.skipUnaffected = true)
  (htype : old.factType = new.factType)

include hs hskip htype

theorem passesBy_iff (he : e ∈ s.network.allEntries) : passesBy s.network old new e.node = true ↔
    ∀ field ∈ old.changedFields new, field ∉ e.relevantFields := by
  rw [passesBy, hskip, beq_iff_eq.mpr htype, Bool.true_and, Bool.true_and, Bool.not_eq_true',
    hs.network.isAffected_eq_false_iff he]

/-- **An update leaves and enters no entry that it has nothing to do at.** -/
theorem Quiet.not_mem_plan (hm : s.network.matchingEntries new = .ok reached)
    (he : e ∈ s.network.allEntries) (hq : s.Quiet h old new reached e) :
    e.node ∉ (s.planUpdate h old new reached).retract ∧
    e.node ∉ (s.planUpdate h old new reached).assert := by
  rw [mem_retract_iff, hs.mem_assert_iff hm h old]
  rcases hq with ⟨hout, hnot⟩ | ⟨hin, hreached, hfields⟩
  · rw [hout, Bool.false_and]
    exact ⟨fun hr => Bool.false_ne_true hr.2, fun ha => hnot ha.1⟩
  · have hpass := (passesBy_iff hs hskip htype he).mpr hfields
    rw [hin, hpass, List.contains_iff_mem.mpr hreached]
    exact ⟨fun hr => Bool.false_ne_true hr.2, fun ha => ha.2 ⟨rfl, rfl⟩⟩

/-- **The entries that are passed by are those that the fact stays in untouched.** -/
theorem Consistent.skipped_eq (hold : s.facts.get? h = some old) :
    (s.planUpdate h old new reached).skipped =
      (s.network.allEntries.filter fun e => s.Stays h old new reached e).length := by
  rw [planUpdate_eq, ← List.length_map Entry.node]
  have hnodup : (s.network.allEntries.map Entry.node).Nodup :=
    hs.network.nodup_nodes.sublist (CompiledRule.sublist_nodes s.network.rules)
  refine List.Perm.length_eq
    ((List.perm_ext_iff_of_nodup ((hs.network.nodup_candidates old new).filter _)
      (hnodup.sublist (List.filter_sublist.map _))).mpr fun n => ?_)
  simp only [List.mem_filter, List.mem_map, Bool.and_eq_true, List.contains_iff_mem,
    decide_eq_true_eq]
  constructor
  · rintro ⟨-, ⟨hin, hreached⟩, hpass⟩
    obtain ⟨e, he, rfl⟩ := hs.sound.coherent.mem_allEntries_of_holds hin
    exact ⟨e, ⟨he, hin, hreached, (passesBy_iff hs hskip htype he).mp hpass⟩, rfl⟩
  · rintro ⟨e, ⟨he, hin, hreached, hfields⟩, rfl⟩
    exact ⟨List.mem_append_left _ (hs.mem_entriesFor_of_holds hold hin), ⟨hin, hreached⟩,
      (passesBy_iff hs hskip htype he).mpr hfields⟩

/-- The plan is empty if there is nothing to do at any entry. -/
theorem Consistent.plan_eq_nil (hm : s.network.matchingEntries new = .ok reached)
    (hq : ∀ e ∈ s.network.allEntries, s.Quiet h old new reached e) :
    (s.planUpdate h old new reached).retract = [] ∧
    (s.planUpdate h old new reached).assert = [] := by
  constructor
  · rw [List.eq_nil_iff_forall_not_mem]
    intro n hn
    have hin := ((mem_retract_iff s h old new reached n).mp hn).2
    rw [Bool.and_eq_true] at hin
    obtain ⟨e, he, rfl⟩ := hs.sound.coherent.mem_allEntries_of_holds hin.1
    exact ((hq e he).not_mem_plan hs hskip htype hm he).1 hn
  · rw [List.eq_nil_iff_forall_not_mem]
    intro n hn
    obtain ⟨e, he, rfl, -⟩ := (hs.network.reached hm).2.2 n ((hs.mem_assert_iff hm h old n).mp hn).1
    exact ((hq e he).not_mem_plan hs hskip htype hm he).2 hn

end Plan

/-! ## Updates -/

/-- **An update that succeeds carries out its plan.** -/
theorem update_of_ok (hold : s.facts.get? h = some old) (hok : (s.update h new).2.result = .ok ()) :
    ∃ reached, s.network.matchingEntries new = .ok reached ∧
      s.update h new = (s.replaced h new (s.planUpdate h old new reached)).propagate h
        (s.planUpdate h old new reached).retract (s.planUpdate h old new reached).assert := by
  have hbranch := update_branch s h new
  generalize s.update h new = o at hok hbranch ⊢
  cases hbranch with
  | dead => cases hok
  | unroutable => cases hok
  | unreadable => cases hok
  | @checked old' l hold' hm hcheck =>
      obtain rfl : old' = old := Option.some.inj (hold'.symm.trans hold)
      exact ⟨l, hm, rfl⟩

section Update

variable (hs : s.Consistent) (hskip : s.network.config.skipUnaffected = true)
  (hold : s.facts.get? h = some old) (htype : old.factType = new.factType)

include hs hskip hold htype

/-- **An update that succeeds leaves the rules alone that it has nothing to do at**, and counts the
entries that the fact stays in untouched. -/
theorem Consistent.update_quiet
    (hids : ∀ r ∈ s.network.rules, ∀ r' ∈ s.network.rules, r'.id = r.id → r' = r)
    (hok : (s.update h new).2.result = .ok ()) :
    ∃ reached, s.network.matchingEntries new = .ok reached ∧
      (∀ r ∈ s.network.rules, (∀ e ∈ r.entries, s.Quiet h old new reached e) →
        s.state.SameAt r (s.update h new).1.state ∧
        (∀ e ∈ s.state.arena.tuplesOf r,
          (s.update h new).1.state.arena.handles e.1 = s.state.arena.handles e.1) ∧
        ∀ event ∈ (s.update h new).2.events, event.rule ≠ r.id) ∧
      (s.update h new).1.calls.skippedUpdates = s.calls.skippedUpdates +
        (s.network.allEntries.filter fun e => s.Stays h old new reached e).length := by
  have hadvances := (update_spec hs h new).1
  obtain ⟨reached, hm, heq⟩ := update_of_ok hold hok
  refine ⟨reached, hm, fun r hr hquiet => ?_, ?_⟩
  · have hplan : ∀ e ∈ r.entries, e.node ∉ (s.planUpdate h old new reached).retract ∧
        e.node ∉ (s.planUpdate h old new reached).assert := fun e he =>
      (hquiet e he).not_mem_plan hs hskip htype hm (List.mem_flatMap.mpr ⟨r, hr, he⟩)
    have htraffic :=
      hs.propagate_traffic (s.replaced h new (s.planUpdate h old new reached)) rfl rfl
      (hs.ready_update hold hm)
    rw [← heq] at htraffic
    obtain ⟨hsame, hsilent⟩ :=
      htraffic.spares hs hr (hids r hr) (fun ⟨e, he, hn⟩ => (hplan e he).1 hn)
        fun ⟨e, he, hn⟩ => (hplan e he).2 hn
    have hafter := hadvances.consistent.sound.coherent
    rw [hadvances.network] at hafter
    exact ⟨hsame, hs.sound.coherent.handles_of_sameAt hs.network hafter hr hsame, hsilent⟩
  · have hcalls := (propagate_facts_calls (s.replaced h new (s.planUpdate h old new reached)) h
      (s.planUpdate h old new reached).retract (s.planUpdate h old new reached).assert).2
    rw [← heq, hok] at hcalls
    rw [hcalls, ← hs.skipped_eq hskip htype hold]
    rfl

/-- **An update that has nothing to do at any entry leaves all matches as they are.** -/
theorem Consistent.update_nothing
    (hquiet : ∀ reached, s.network.matchingEntries new = .ok reached →
      ∀ e ∈ s.network.allEntries, s.Quiet h old new reached e) :
    (s.update h new).1.state = s.state ∧ (s.update h new).2.events = [] := by
  cases hm : s.network.matchingEntries new with
  | error failure =>
      rw [update_of_unroutable hold hm]
      exact ⟨rfl, rfl⟩
  | ok reached =>
      obtain ⟨hretract, hassert⟩ := hs.plan_eq_nil hskip htype hm (hquiet reached hm)
      have hcheck :
          checkEntries s.network new (s.planUpdate h old new reached).assert = .ok () := by
        rw [hassert]
        rfl
      rw [update_of_checked hold hm hcheck, hretract, hassert]
      exact ⟨rfl, rfl⟩

end Update

/-- A fact that is in at every entry that it reaches has nothing to do in an update without a
changed field. -/
theorem Consistent.quiet_of_identical (hs : s.Consistent) (hold : s.facts.get? h = some old)
    (hreached : s.network.matchingEntries old = .ok reached)
    (hin : ∀ n ∈ reached, s.state.holds n h = true) (hchanged : old.changedFields new = [])
    (e : Entry) : s.Quiet h old new reached e := by
  cases hh : s.state.holds e.node h with
  | false => exact Or.inl ⟨hh, fun hn => by rw [hin _ hn] at hh; cases hh⟩
  | true =>
      obtain ⟨f, hf, hadmitted⟩ := (hs.placed e.node h).mp hh
      rw [hold, Option.some.injEq] at hf
      rw [← hf, admitting_of_ok hreached] at hadmitted
      refine Or.inr ⟨hh, (checkEntry_of_mem_enterable hadmitted).1, ?_⟩
      rw [hchanged]
      exact fun _ hfield => nomatch hfield

/-- **Updates touch no rule that they do not concern.** Let updates pass by unaffected entries, in
the state that any run leads to, and let a fact be updated that keeps its type. If the update
succeeds, then every rule whose entries are all quiet has the same memories with the same counters,
the same tuples with the same records and facts, and is not reported of; and as many more entries
are counted as passed by as hold the fact, are reached by the new version and have no changed
relevant field. An update without a changed field, of a fact that is in at all entries that it
reaches, changes nothing at any node, if the named tests answer alike on identical values. -/
theorem untouched_run {rules : List Rule} {schemas : SchemaRegistry} {config : Config}
    {net : Network} (hbuild : Network.build rules schemas config = .ok net)
    (hskip : config.skipUnaffected = true) (calls : List Call) :
    let s := ((ofNetwork net).run calls).1
    ∀ h old new, s.get? h = some old → old.factType = new.factType → let t := s.update h new
      (t.2.result = .ok () → ∃ reached, net.matchingEntries new = .ok reached ∧
        (∀ r ∈ net.rules, (∀ e ∈ r.entries, s.Quiet h old new reached e) →
          s.state.SameAt r t.1.state ∧
          (∀ e ∈ s.state.arena.tuplesOf r,
            t.1.state.arena.handles e.1 = s.state.arena.handles e.1) ∧
          ∀ event ∈ t.2.events, event.rule ≠ r.id) ∧
        t.1.calls.skippedUpdates = s.calls.skippedUpdates +
          (net.allEntries.filter fun e => s.Stays h old new reached e).length) ∧
      ((∀ rule ∈ rules, ∀ p ∈ rule.patterns, ∀ c ∈ p.clauses, c.TestsAlike) →
        old.changedFields new = [] →
        (∀ reached, net.matchingEntries old = .ok reached → ∀ n ∈ reached,
          s.state.holds n h = true) →
        t.1.state = s.state ∧ t.2.events = []) := by
  intro s h old new hold htype t
  obtain ⟨hnet, hs, -⟩ := run_ofNetwork (wellFormed_build hbuild) calls
  have hskip' : s.network.config.skipUnaffected = true := by rw [hnet, config_build hbuild, hskip]
  have hids : ∀ r ∈ s.network.rules, ∀ r' ∈ s.network.rules, r'.id = r.id → r' = r := by
    rw [hnet]
    exact fun r hr r' hr' => eq_of_id_eq hbuild hr hr'
  refine ⟨fun hok => ?_, fun htests hchanged hin => ?_⟩
  · rw [← hnet]
    exact hs.update_quiet hskip' hold htype hids hok
  · refine hs.update_nothing hskip' hold htype fun reached hm e _ => ?_
    have hidentical := Fact.identical_of_changedFields_eq_nil htype hchanged
    have hsame : s.network.matchingEntries old = .ok reached := by
      rw [hnet] at hm ⊢
      exact (matchingEntries_identical hbuild htests hidentical reached).mpr hm
    exact hs.quiet_of_identical hold hsame (hin reached (hnet ▸ hsame)) hchanged e

/-- A new total concerns the pairs with related totals only, and an order that stays as it is
concerns none. -/
theorem untouched_orders :
    ∃ net r, Network.build [pairRule, customerRule] orderSchemas .standard = .ok net ∧
      net.rules[1]? = some r ∧
      let s := ((ofNetwork net).run [.insert (order 7 1), .insert (order 7 2)]).1
      let t := s.update 2 (order 7 3)
      t.2.result = .ok () ∧ t.2.events.length = 6 ∧ s.state.SameAt r t.1.state ∧
      t.1.calls.skippedUpdates = 2 ∧ (s.update 2 (order 7 2)).1.state = s.state := by
  obtain ⟨net, r, hnet, hr, hold, hreached, hquiet, hstays, hok, hevents, hreached', hheld⟩ :
      ∃ (net : Network) (r : CompiledRule),
      Network.build [pairRule, customerRule] orderSchemas .standard = .ok net ∧
      net.rules[1]? = some r ∧
      let s := ((ofNetwork net).run [.insert (order 7 1), .insert (order 7 2)]).1
      s.get? 2 = some (order 7 2) ∧ net.matchingEntries (order 7 3) = .ok [0, 1, 4, 5] ∧
      decide (∀ e ∈ r.entries, s.Quiet 2 (order 7 2) (order 7 3) [0, 1, 4, 5] e) = true ∧
      s.calls.skippedUpdates +
        (net.allEntries.filter fun e => s.Stays 2 (order 7 2) (order 7 3) [0, 1, 4, 5] e).length =
          2 ∧
      (s.update 2 (order 7 3)).2.result = .ok () ∧ (s.update 2 (order 7 3)).2.events.length = 6 ∧
      net.matchingEntries (order 7 2) = .ok [0, 1, 4, 5] ∧
      ∀ n ∈ [0, 1, 4, 5], s.state.holds n 2 = true :=
    ⟨_, _, rfl, rfl, by decide +kernel⟩
  obtain ⟨hsuccess, -⟩ := untouched_run hnet rfl _ 2 _ (order 7 3) hold rfl
  obtain ⟨reached, hm, hrules, hskipped⟩ := hsuccess hok
  rw [hreached, Except.ok.injEq] at hm
  subst hm
  obtain ⟨hsame, -⟩ := hrules r (List.mem_of_getElem? hr) (of_decide_eq_true hquiet)
  obtain ⟨-, hnothing⟩ := untouched_run hnet rfl _ 2 _ (order 7 2) hold rfl
  refine ⟨net, r, hnet, hr, hok, hevents, hsame, hskipped.trans hstays, ?_⟩
  refine (hnothing (by simp [pairRule, customerRule, Clause.TestsAlike]) (by decide)
    fun reached hm => ?_).1
  rw [hreached', Except.ok.injEq] at hm
  exact hm ▸ hheld

end Session

end RuleMatching
