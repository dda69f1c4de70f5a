import RuleMatching.Proofs.Network.Depth
import RuleMatching.Proofs.Session.Matches
import RuleMatching.Proofs.Session.Searches
import RuleMatching.Proofs.Session.Skipping
import RuleMatching.Proofs.Session.Traffic

set_option autoImplicit false

/-! # Results

Whether an insertion or an update succeeds is a question of the compiled rules and of the new
version of the fact alone: it fails where the fact cannot be routed, or else at the first entry
whose joins cannot read it. **Nothing else can go wrong in a call that the facts let through**, and
no search at a join ever fails (`Session.results_run`). -/

namespace RuleMatching

open Network

/-- The facts let the call through: a new fact comes under a handle that the store takes, any other
call is about a live fact. -/
def Call.Admitted (facts : FactStore) : Call → Prop
  | .insert f => ∃ facts', facts.insert facts.nextHandle f = .ok facts'
  | .insertAt h f => ∃ facts', facts.insert h f = .ok facts'
  | .update h _ | .delete h => ∃ f, facts.get? h = some f

section Answers

variable {net : Network} {facts : FactStore} {h : Handle} {f : Fact} {err : EngineError}

/-- A store that turns a fact down does so for its handle. -/
theorem FactStore.isInternal_of_insert {cause : ConsistencyError}
    (hi : facts.insert h f = .error cause) : cause.isInternal = false := by
  unfold insert at hi
  split at hi
  · cases hi
    rfl
  · split at hi
    · cases hi
      rfl
    · cases hi

namespace Session

theorem insertAnswer_error (herr : (insertAnswer net facts h f).2 = .error err) :
    err.isRecoverable = true ∧
      ((∃ facts', facts.insert h f = .ok facts') → ∃ failure, err = .propagation h failure) := by
  unfold insertAnswer at herr
  cases hi : facts.insert h f with
  | error cause =>
      rw [hi] at herr
      cases herr
      refine ⟨?_, ?_⟩
      · rw [EngineError.isRecoverable, FactStore.isInternal_of_insert hi]
        rfl
      · rintro ⟨facts', hok⟩
        cases hok
  | ok facts' =>
      rw [hi] at herr
      obtain ⟨failure, rfl, -⟩ := entering_eq_error_iff.mp herr
      exact ⟨rfl, fun _ => ⟨failure, rfl⟩⟩

theorem updateAnswer_of_live (hlive : ∃ old, facts.get? h = some old) :
    (updateAnswer net facts h f).2 = net.entering h f := by
  obtain ⟨old, hold⟩ := hlive
  unfold updateAnswer
  rw [hold]
  simp only
  cases net.entering h f <;> rfl

theorem updateAnswer_error (herr : (updateAnswer net facts h f).2 = .error err) :
    err.isRecoverable = true ∧
      ((∃ old, facts.get? h = some old) → ∃ failure, err = .propagation h failure) := by
  cases hold : facts.get? h with
  | none =>
      rw [updateAnswer, hold] at herr
      cases herr
      refine ⟨rfl, ?_⟩
      rintro ⟨old, hlive⟩
      cases hlive
  | some old =>
      rw [updateAnswer_of_live ⟨old, hold⟩] at herr
      obtain ⟨failure, rfl, -⟩ := entering_eq_error_iff.mp herr
      exact ⟨rfl, fun _ => ⟨failure, rfl⟩⟩

theorem deleteAnswer_error (herr : (deleteAnswer facts h).2 = .error err) :
    err.isRecoverable = true ∧ facts.get? h = none := by
  unfold deleteAnswer at herr
  cases hold : facts.get? h with
  | none =>
      rw [hold] at herr
      cases herr
      exact ⟨rfl, rfl⟩
  | some f =>
      rw [hold] at herr
      cases herr

/-- **An error says that the fact cannot enter at some node**, or that the call does not
fit the facts. -/
theorem answer_error {c : Call} (herr : (answer net facts c).2 = .error err) :
    err.isRecoverable = true ∧
      (c.Admitted facts → ∃ failure, err = .propagation (c.about facts) failure) := by
  cases c with
  | insert f => exact insertAnswer_error (Outcome.map_eq_error_iff.mp herr)
  | insertAt h f => exact insertAnswer_error (Outcome.map_eq_error_iff.mp herr)
  | update h f => exact updateAnswer_error (Outcome.map_eq_error_iff.mp herr)
  | delete h =>
      obtain ⟨hrecoverable, hnone⟩ := deleteAnswer_error (Outcome.map_eq_error_iff.mp herr)
      refine ⟨hrecoverable, ?_⟩
      rintro ⟨f, hf⟩
      rw [hnone] at hf
      cases hf

end Session

end Answers

/-- Networks of the same rules that differ in the length of index keys and in whether updates pass
entries by let the same facts enter. -/
theorem Network.entering_build {rules : List Rule} {schemas : SchemaRegistry} {config : Config}
    {net net' : Network} {d : Nat} {b : Bool} (hbuild : build rules schemas config = .ok net)
    (hbuild' : build rules schemas { config with keyDepth := d, skipUnaffected := b } = .ok net')
    (h : Handle) (f : Fact) : net'.entering h f = net.entering h f := by
  obtain ⟨hvalid, -⟩ := build_eq_ok_iff.mp hbuild'
  have hdepth : build rules schemas { config with keyDepth := d } = .ok (net.atDepth d) :=
    build_atDepth hbuild hvalid
  have hboth : build rules schemas { config with keyDepth := d, skipUnaffected := b } =
      .ok ((net.atDepth d).passingBy b) :=
    @build_passingBy rules schemas { config with keyDepth := d } _ config.skipUnaffected b hdepth
  rw [hboth, Except.ok.injEq] at hbuild'
  have hpass : (net.atDepth d).RoutesAlike net' := by
    rw [← hbuild']
    exact ⟨fun _ => rfl, fun _ _ => rfl⟩
  rw [hpass.entering, (routesAlike_atDepth net d).entering]

namespace Session

/-- **What a call answers depends on the compiled rules, the handle and the new version of the
fact.** In the state that any run leads to, an insertion or an update that the facts let through
answers what `Network.entering` says, whatever the length of index keys and whether or not updates
pass entries by; the deletion of a live fact succeeds. So no memory ever lacks what a call looks for
there, and no key and no test of a join fails to be computed while a call is at work. -/
theorem results_run {rules : List Rule} {schemas : SchemaRegistry} {config : Config}
    {net net' : Network} {d : Nat} {b : Bool}
    (hbuild : Network.build rules schemas config = .ok net)
    (hbuild' :
      Network.build rules schemas { config with keyDepth := d, skipUnaffected := b } = .ok net')
    (calls : List Call) :
    let s := ((ofNetwork net').run calls).1
    (∀ h f facts', s.facts.insert h f = .ok facts' → (s.insertAt h f).2.result = net.entering h f) ∧
    (∀ h f old, s.get? h = some old → (s.update h f).2.result = net.entering h f) ∧
    (∀ h old, s.get? h = some old → (s.delete h).2.result = .ok old) ∧
    (∀ h f err, net.entering h f = .error err ↔ ∃ failure, err = .propagation h failure ∧
      (net.matchingEntries f = .error failure ∨
        ∃ before n after, net.matchingEntries f = .ok (before ++ n :: after) ∧
          (∀ m ∈ before, net.checkEntry m f = .ok ()) ∧ net.checkEntry n f = .error failure)) ∧
    (∀ c err, (s.perform c).2.result = .error err →
      (c.Admitted s.facts → ∃ failure, err = .propagation (c.about s.facts) failure) ∧
        ∀ n k, err ≠ .consistency (.missingMemoryEntry n k) ∧
        err ≠ .consistency (.missingIndexKey n k)) ∧
    (∀ c, ∀ q ∈ s.searches c, q.Succeeds) := by
  intro s
  have hentering := entering_build hbuild hbuild'
  obtain ⟨hnet, hs, -⟩ := run_ofNetwork (wellFormed_build hbuild') calls
  refine ⟨fun h f facts' hi => ?_, fun h f old hold => ?_,
    fun h old hold => (delete_of_live hs hold).2,
    fun h f err => entering_eq_error_iff, fun c err herr => ?_, hs.succeeds⟩
  · rw [result_insertAt hs, insertAnswer, hi, hnet]
    exact hentering h f
  · rw [result_update hs, updateAnswer_of_live ⟨old, hold⟩, hnet]
    exact hentering h f
  · have hanswer : (s.perform c).2.result = (answer s.network s.facts c).2 :=
      congrArg Prod.snd (perform_spec hs c).2
    rw [hanswer] at herr
    obtain ⟨hrecoverable, hadmitted⟩ := answer_error herr
    refine ⟨hadmitted, fun n k => ⟨?_, ?_⟩⟩
    · rintro rfl
      cases hrecoverable
    · rintro rfl
      cases hrecoverable

/-- Orders are let in alike with an index and without one. -/
theorem results_orders : ∃ net net', Network.build [pairRule] orderSchemas .standard = .ok net ∧
    Network.build [pairRule] orderSchemas
      { Config.standard with keyDepth := 0, skipUnaffected := false } = .ok net' ∧
    let s := ((ofNetwork net').run orderCalls).1
    let f : Fact := ⟨"order", .ofList [("customer", .string "7"), ("total", .integer 2)]⟩
    (∃ old, s.get? 2 = some old) ∧ (s.update 2 f).2.result = net.entering 2 f := by
  obtain ⟨net, hnet⟩ : ∃ net, Network.build [pairRule] orderSchemas .standard = .ok net := ⟨_, rfl⟩
  obtain ⟨net', hnet', old, hold⟩ : ∃ net', Network.build [pairRule] orderSchemas
      { Config.standard with keyDepth := 0, skipUnaffected := false } = .ok net' ∧
      ∃ old, ((ofNetwork net').run orderCalls).1.get? 2 = some old := ⟨_, rfl, _, rfl⟩
  obtain ⟨-, hupdate, -⟩ := results_run hnet hnet' orderCalls
  exact ⟨net, net', hnet, hnet', ⟨old, hold⟩, hupdate 2 _ old hold⟩

end Session

end RuleMatching
