import RuleMatching.Proofs.Session.Branches
import RuleMatching.Proofs.Session.Plan
import RuleMatching.Proofs.Session.Several
import RuleMatching.Proofs.Session.Versions

set_option autoImplicit false

/-! # Calls

In a consistent session the matches are sound and every live fact is in at exactly those entries
that it belongs in. **Every call leads from a consistent session to a consistent one**
(`Session.insertAt_spec`, `Session.update_spec`, `Session.delete_spec`). What a call answers and
what becomes of the facts depends on the facts alone, not on the matches. -/

namespace RuleMatching

open Network Propagation

/-- The matches are sound, and every live fact is in where it belongs. -/
structure Session.Consistent (s : Session) : Prop where
  network : s.network.WellFormed
  sound : Sound s.network s.facts s.state
  placed : ∀ n h, s.state.holds n h = true ↔
    ∃ f, s.facts.get? h = some f ∧ n ∈ s.network.admitting f

/-- The session has exactly the matches that it should have. -/
def Session.Current (s : Session) : Prop := Exact s.network s.facts s.state

/-- A call leads from one session to the other with some events. -/
structure Session.Advances (s s' : Session) (events : List ActivationEvent) : Prop where
  network : s'.network = s.network
  changes : ∃ p p' : Propagation, Changes s.network s.facts ⟨s.state, []⟩ p ∧
    Sound s.network s'.facts p.toMatchState ∧ Changes s.network s'.facts p p' ∧
    p'.toMatchState = s'.state ∧ p'.events = events
  consistent : s'.Consistent
  current : s.network.RespectsIdentity → s.Current → s'.Current

variable {s : Session} {facts : FactStore} {h : Handle} {f : Fact}

/-- A call that changes nothing but its counters. -/
theorem Session.Consistent.advances (hs : s.Consistent) {s' : Session}
    (hnet : s'.network = s.network) (hfacts : s'.facts = s.facts) (hstate : s'.state = s.state) :
    s.Advances s' [] := by
  obtain ⟨net, facts, state, calls⟩ := s
  obtain ⟨net', facts', state', calls'⟩ := s'
  simp only at hnet hfacts hstate
  subst hnet hfacts hstate
  exact ⟨rfl, ⟨_, _, .refl, hs.sound, .refl, rfl, rfl⟩, ⟨hs.network, hs.sound, hs.placed⟩,
    fun _ hc => hc⟩

/-! ## Entries of a live fact -/

namespace Session.Consistent

variable (hs : s.Consistent)

include hs

/-- A fact that is in at an entry is live, and the joins can read it there. -/
theorem readable_of_holds {e : Entry} (he : e ∈ s.network.allEntries)
    (hh : s.state.holds e.node h = true) :
    ∃ f, s.facts.get? h = some f ∧ tryReads f e.reads = .ok () ∧ e.factType = f.factType := by
  obtain ⟨f, hf, hmem⟩ := (hs.placed e.node h).mp hh
  unfold admitting at hmem
  split at hmem
  · next l hl =>
    obtain ⟨hmem, hcheck⟩ := checkEntry_of_mem_enterable hmem
    obtain ⟨e', he', hn, ht⟩ := (hs.network.reached hl).2.2 _ hmem
    rw [hs.network.eq_of_node_eq he' he hn] at ht
    rw [hs.network.checkEntry_eq he] at hcheck
    exact ⟨f, hf, hcheck, ht⟩
  · cases hmem

/-- A fact with the same version in another store reads alike where it is in. -/
theorem alikeAt_of_get?_eq {e : Entry} (he : e ∈ s.network.allEntries)
    (hh : s.state.holds e.node h = true) (hget : facts.get? h = s.facts.get? h) :
    AlikeAt s.facts facts e h := by
  obtain ⟨f, hf, hread, _⟩ := hs.readable_of_holds he hh
  exact ⟨f, f, hf, hget.trans hf, .refl hread⟩

/-- A fact is in at entries for its own type. -/
theorem mem_entriesFor_of_holds {n : NodeId} (hf : s.facts.get? h = some f)
    (hh : s.state.holds n h = true) : n ∈ s.network.entriesFor f.factType := by
  obtain ⟨f', hf', hmem⟩ := (hs.placed n h).mp hh
  rw [hf, Option.some.injEq] at hf'
  subst hf'
  unfold admitting at hmem
  split at hmem
  · next l hl => exact (hs.network.reached hl).2.1 n (checkEntry_of_mem_enterable hmem).1
  · cases hmem

theorem not_holds_of_get?_eq_none (hf : s.facts.get? h = none) (n : NodeId) :
    s.state.holds n h = false := by
  rw [Bool.eq_false_iff, ne_eq, hs.placed]
  rintro ⟨f, hf', -⟩
  rw [hf] at hf'
  cases hf'

end Session.Consistent

/-! ## The work of a call -/

/-- A fact left some entries, its new version came into force, and it entered some entries. -/
def Moves (net : Network) (facts facts' : FactStore) (out into : List NodeId) (h : Handle)
    (p p' : Propagation) : Prop :=
  ∃ p₁, Leaves net facts out h p p₁ ∧ Sound net facts' p₁.toMatchState ∧
    (net.RespectsIdentity → Exact net facts p₁.toMatchState → Exact net facts' p₁.toMatchState) ∧
    Enters net facts' into h p₁ p'

/-- After the work of a call every fact is where the call wants it. -/
theorem Moves.holds {net : Network} {facts' : FactStore} {out into : List NodeId}
    {p p' : Propagation} (hm : Moves net facts facts' out into h p p') (n : NodeId) (k : Handle) :
    p'.holds n k = true ↔ (p.holds n k = true ∧ ¬(n ∈ out ∧ k = h)) ∨ (n ∈ into ∧ k = h) := by
  obtain ⟨p₁, hleaves, -, -, henters⟩ := hm
  rw [henters.holds, hleaves.holds]

/-- A call does its work: the session that it leads to is consistent if the facts are then in
where they belong. -/
theorem Session.Consistent.advances_of_moves (hs : s.Consistent) (s' : Session) {p' : Propagation}
    {out into : List NodeId} (hmoves : Moves s.network s.facts s'.facts out into h ⟨s.state, []⟩ p')
    (hnet : s'.network = s.network) (hstate : s'.state = p'.toMatchState)
    (hplaced : ∀ n k, (s.state.holds n k = true ∧ ¬(n ∈ out ∧ k = h)) ∨ (n ∈ into ∧ k = h) ↔
      ∃ f, s'.facts.get? k = some f ∧ n ∈ s.network.admitting f) : s.Advances s' p'.events := by
  have hholds := hmoves.holds
  obtain ⟨p₁, hleaves, hsound, hexact, henters⟩ := hmoves
  refine ⟨hnet, ⟨p₁, p', hleaves.changes, hsound, henters.changes, hstate.symm, rfl⟩,
    ⟨hnet ▸ hs.network, ?_, fun n k => ?_⟩, fun hid hcur => ?_⟩
  · rw [hnet, hstate]
    exact henters.sound
  · rw [hnet, hstate, hholds]
    exact hplaced n k
  · rw [Session.Current, hnet, hstate]
    exact henters.exact (hexact hid (hleaves.exact hcur))

/-- The work of a call can be done: the fact is to leave entries that it is in and to enter others,
and where facts stay in, their versions read alike. -/
structure Session.Ready (s : Session) (facts : FactStore) (h : Handle) (f : Fact)
    (out into : List NodeId) : Prop where
  version : facts.get? h = some f
  nodup_out : out.Nodup
  held : ∀ n ∈ out, s.state.holds n h = true
  nodup_into : into.Nodup
  entries : ∀ n ∈ into, ∃ e ∈ s.network.allEntries, e.node = n
  free : ∀ n ∈ into, s.state.holds n h = true → n ∈ out
  alike : ∀ e ∈ s.network.allEntries, ∀ k, s.state.holds e.node k = true →
    ¬(e.node ∈ out ∧ k = h) → AlikeAt s.facts facts e k

section Work

variable {out into : List NodeId} (hs : s.Consistent) (hready : s.Ready facts h f out into)

include hs hready

/-- The fact leaves its entries, and what is left is sound under the new facts. -/
theorem Session.Consistent.leaveAll_spec :
    ∃ p₁, leaveAll s.network h out ⟨s.state, []⟩ = (p₁, none) ∧
      Leaves s.network s.facts out h ⟨s.state, []⟩ p₁ ∧
      (∀ e ∈ s.network.allEntries, ∀ k, p₁.holds e.node k = true → AlikeAt s.facts facts e k) ∧
      Sound s.network facts p₁.toMatchState := by
  obtain ⟨p₁, hleave, hleaves⟩ :=
    Propagation.leaveAll_spec (p := ⟨s.state, []⟩) hs.network hs.sound hready.nodup_out hready.held
  have halike : ∀ e ∈ s.network.allEntries, ∀ k, p₁.holds e.node k = true →
      AlikeAt s.facts facts e k := by
    intro e he k hk
    obtain ⟨hk, hne⟩ := (hleaves.holds _ _).mp hk
    exact hready.alike e he k hk hne
  exact ⟨p₁, hleave, hleaves, halike, hleaves.sound.versions hs.network halike⟩

omit hs in
/-- Once it has left, the fact is in at none of the entries that it is to enter. -/
theorem Session.Ready.not_holds_of_leaves {p₁ : Propagation}
    (hleaves : Leaves s.network s.facts out h ⟨s.state, []⟩ p₁) :
    ∀ n ∈ into, p₁.holds n h = false := by
  intro n hn
  rw [Bool.eq_false_iff, ne_eq, hleaves.holds]
  exact fun hc => hc.2 ⟨hready.free n hn hc.1, rfl⟩

/-- The work on the matches succeeds as far as the fact can enter its entries. -/
theorem Session.Consistent.run_spec :
    ∃ p', run s.network facts h out into ⟨s.state, []⟩ =
        (p', match checkEntries s.network f into with
          | .ok () => none
          | .error failure => some (.propagation h failure)) ∧
      Moves s.network s.facts facts out (s.network.enterable f into) h ⟨s.state, []⟩ p' := by
  obtain ⟨p₁, hleave, hleaves, halike, hsound⟩ := hs.leaveAll_spec hready
  obtain ⟨p', henter, henters⟩ := enterAll_spec hs.network hsound hready.version hready.nodup_into
    hready.entries (hready.not_holds_of_leaves hleaves)
  refine ⟨p', ?_, p₁, hleaves, hsound, fun hid he => he.versions hs.network halike hid, henters⟩
  rw [Propagation.run, hleave]
  exact henter

end Work

/-- **The work on the matches succeeds as far as the fact can enter its entries.** Here `s₁` is the
session in the middle of the call, with its new facts and the matches of `s`. -/
theorem Session.Consistent.propagate_spec (hs : s.Consistent) (s₁ : Session)
    (out into : List NodeId) (hnet : s₁.network = s.network) (hstate : s₁.state = s.state)
    (hready : s.Ready s₁.facts h f out into)
    (hplaced : ∀ n k, (s.state.holds n k = true ∧ ¬(n ∈ out ∧ k = h)) ∨
      (n ∈ s.network.enterable f into ∧ k = h) ↔
        ∃ f, s₁.facts.get? k = some f ∧ n ∈ s.network.admitting f) :
    s.Advances (s₁.propagate h out into).1 (s₁.propagate h out into).2.events ∧
      (s₁.propagate h out into).1.facts = s₁.facts ∧
      (s₁.propagate h out into).2.result =
        (checkEntries s.network f into).mapError (.propagation h) := by
  obtain ⟨p', hrun, hmoves⟩ := hs.run_spec hready
  rw [Session.propagate_eq, hnet, hstate, hrun]
  cases checkEntries s.network f into with
  | ok u => exact ⟨hs.advances_of_moves _ hmoves hnet rfl hplaced, rfl, rfl⟩
  | error failure => exact ⟨hs.advances_of_moves _ hmoves hnet rfl hplaced, rfl, rfl⟩

/-! ## Facts that can enter -/

/-- Whether a fact can enter all entries that it reaches. -/
def Network.entering (net : Network) (h : Handle) (f : Fact) : Except EngineError Unit :=
  match net.matchingEntries f with
  | .ok l => (Session.checkEntries net f l).mapError (.propagation h)
  | .error failure => .error (.propagation h failure)

/-- **A fact that cannot enter fails where it is first found out**: on its way to the entries, or at
the first of them whose joins cannot read it. -/
theorem Network.entering_eq_error_iff {net : Network} {err : EngineError} :
    net.entering h f = .error err ↔ ∃ failure, err = .propagation h failure ∧
      (net.matchingEntries f = .error failure ∨
        ∃ before n after, net.matchingEntries f = .ok (before ++ n :: after) ∧
          (∀ m ∈ before, net.checkEntry m f = .ok ()) ∧ net.checkEntry n f = .error failure) := by
  unfold Network.entering
  cases hm : net.matchingEntries f with
  | error failure =>
      constructor
      · intro heq
        cases heq
        exact ⟨failure, rfl, Or.inl rfl⟩
      · rintro ⟨_, rfl, heq | ⟨_, _, _, heq, -⟩⟩
        · cases heq
          rfl
        · cases heq
  | ok l =>
      simp only
      constructor
      · intro heq
        cases hcheck : Session.checkEntries net f l with
        | ok u =>
            rw [hcheck] at heq
            cases heq
        | error failure =>
            rw [hcheck] at heq
            cases heq
            obtain ⟨before, n, after, rfl, hbefore, hn⟩ := checkEntries_eq_error_iff.mp hcheck
            exact ⟨failure, rfl, Or.inr ⟨before, n, after, rfl, hbefore, hn⟩⟩
      · rintro ⟨failure, rfl, heq | ⟨before, n, after, heq, hbefore, hn⟩⟩
        · cases heq
        · cases heq
          rw [checkEntries_eq_error_iff.mpr ⟨before, n, after, rfl, hbefore, hn⟩]
          rfl

theorem Network.RoutesAlike.entering {net net' : Network} (hr : net.RoutesAlike net') (h : Handle)
    (f : Fact) : net'.entering h f = net.entering h f := by
  unfold Network.entering
  simp only [hr.matching, hr.checkEntries]

namespace Session

/-- A fact that is in exactly where its version belongs, with all others where they were. -/
theorem Consistent.placed_of_version (hs : s.Consistent) {facts' : FactStore}
    (held : NodeId → Handle → Prop)
    (hget : ∀ k, facts'.get? k = if k = h then some f else s.facts.get? k)
    (hh : ∀ n, held n h ↔ n ∈ s.network.admitting f)
    (hother : ∀ n k, k ≠ h → (held n k ↔ s.state.holds n k = true)) (n : NodeId) (k : Handle) :
    held n k ↔ ∃ f, facts'.get? k = some f ∧ n ∈ s.network.admitting f := by
  rw [hget]
  by_cases hk : k = h
  · rw [hk, hh, if_pos rfl]
    simp
  · rw [hother n k hk, hs.placed, if_neg hk]

/-! ## Insertions -/

/-- What becomes of the facts in an insertion, and what it answers. -/
def insertAnswer (net : Network) (facts : FactStore) (h : Handle) (f : Fact) :
    FactStore × Except EngineError Unit :=
  match facts.insert h f with
  | .ok facts' => (facts', net.entering h f)
  | .error cause => (facts, .error (.consistency cause))

/-- The facts that are in when a fact is inserted are others, which the insertion does not touch. -/
theorem Consistent.alike_insert (hs : s.Consistent) {facts' : FactStore}
    (hi : s.facts.insert h f = .ok facts') : ∀ e ∈ s.network.allEntries, ∀ k,
      s.state.holds e.node k = true → AlikeAt s.facts facts' e k := by
  obtain ⟨hnone, hget⟩ := FactStore.get?_of_insert hi
  intro e he k hk
  refine hs.alikeAt_of_get?_eq he hk ?_
  rw [hget, if_neg]
  rintro rfl
  rw [hs.not_holds_of_get?_eq_none hnone] at hk
  cases hk

theorem Consistent.ready_insert (hs : s.Consistent) {facts' : FactStore}
    (hi : s.facts.insert h f = .ok facts') {l : List NodeId}
    (hm : s.network.matchingEntries f = .ok l) : s.Ready facts' h f [] l := by
  obtain ⟨hnone, hget⟩ := FactStore.get?_of_insert hi
  obtain ⟨hnodup, -, hentries⟩ := hs.network.reached hm
  refine ⟨(hget h).trans (if_pos rfl),
    List.nodup_nil, by simp, hnodup, fun n hn => ?_, fun n _ hn => ?_,
    fun e he k hk _ => hs.alike_insert hi e he k hk⟩
  · obtain ⟨e, he, hen, _⟩ := hentries n hn
    exact ⟨e, he, hen⟩
  · rw [hs.not_holds_of_get?_eq_none hnone] at hn
    cases hn

/-- **A fact is inserted.** -/
theorem insertAt_spec (hs : s.Consistent) (h : Handle) (f : Fact) :
    s.Advances (s.insertAt h f).1 (s.insertAt h f).2.events ∧
      ((s.insertAt h f).1.facts, (s.insertAt h f).2.result) =
        insertAnswer s.network s.facts h f := by
  have hbranch := insertAt_branch s h f
  generalize s.insertAt h f = o at hbranch ⊢
  unfold insertAnswer
  cases hbranch with
  | taken hi =>
      rw [hi]
      exact ⟨hs.advances rfl rfl rfl, rfl⟩
  | @unroutable facts' failure hi hm =>
      -- The fact stays in the store although it could not be routed; no memory has it.
      obtain ⟨hnone, hget⟩ := FactStore.get?_of_insert hi
      have halike := hs.alike_insert hi
      have hsound := hs.sound.versions hs.network halike
      have hmoves : Moves s.network s.facts facts' [] [] h ⟨s.state, []⟩ ⟨s.state, []⟩ :=
        ⟨_, .refl hs.network hs.sound h, hsound, fun hid he => he.versions hs.network halike hid,
          .refl hsound h⟩
      rw [hi]
      simp only [entering, hm]
      refine ⟨hs.advances_of_moves ((s.inserted facts').refuse _).1 hmoves rfl rfl
        (hs.placed_of_version _ hget (fun n => ?_) fun _ _ _ => by simp), rfl⟩
      rw [hs.not_holds_of_get?_eq_none hnone, admitting_of_error hm]
      simp
  | @routed facts' l hi hm =>
      obtain ⟨hnone, hget⟩ := FactStore.get?_of_insert hi
      obtain ⟨hadvances, hfacts, hresult⟩ := hs.propagate_spec (s.inserted facts') [] l rfl rfl
        (hs.ready_insert hi hm)
        (hs.placed_of_version _ hget (fun n => by
            rw [hs.not_holds_of_get?_eq_none hnone, admitting_of_ok hm]
            simp)
          fun n k hk => by simp [hk])
      rw [hi]
      simp only [entering, hm]
      exact ⟨hadvances, Prod.ext hfacts hresult⟩

/-! ## Updates -/

/-- What becomes of the facts in an update, and what it answers. -/
def updateAnswer (net : Network) (facts : FactStore) (h : Handle) (f : Fact) :
    FactStore × Except EngineError Unit :=
  match facts.get? h with
  | none => (facts, .error (.consistency (.unknownHandle h)))
  | some _ =>
    match net.entering h f with
    | .ok () => (facts.set h f, .ok ())
    | .error err => (facts, .error err)

section Update

variable {old : Fact} {reached : List NodeId} (hs : s.Consistent)

include hs

/-- A fact that an update passes by at an entry reads alike there in both versions. -/
theorem Consistent.versionsAlike_of_passesBy (hold : s.facts.get? h = some old) {e : Entry}
    (he : e ∈ s.network.allEntries) (hh : s.state.holds e.node h = true)
    (hpass : passesBy s.network old f e.node = true) : VersionsAlike e old f := by
  obtain ⟨f', hf', hread, -⟩ := hs.readable_of_holds he hh
  rw [hold, Option.some.injEq] at hf'
  subst hf'
  rw [passesBy, Bool.and_eq_true, Bool.and_eq_true, beq_iff_eq, Bool.not_eq_true'] at hpass
  exact hs.network.versionsAlike he hpass.1.2 hpass.2 hread

/-- The check of an update is the check of all entries that the new version reaches. -/
theorem Consistent.checkEntries_assert (hold : s.facts.get? h = some old)
    (hm : s.network.matchingEntries f = .ok reached) :
    checkEntries s.network f (s.planUpdate h old f reached).assert =
      checkEntries s.network f reached := by
  have hassert : (s.planUpdate h old f reached).assert =
      reached.filter fun n => !(s.state.holds n h && passesBy s.network old f n) := by
    conv_rhs => rw [← hs.network.candidates_filter old hm, List.filter_filter]
    rw [planUpdate_eq]
    exact List.filter_congr fun n _ => Bool.and_comm _ _
  rw [hassert]
  refine checkEntries_filter fun n hn hpass => ?_
  rw [Bool.not_eq_false', Bool.and_eq_true] at hpass
  obtain ⟨e, he, rfl⟩ := hs.sound.coherent.mem_allEntries_of_holds hpass.1
  rw [hs.network.checkEntry_eq he]
  exact (hs.versionsAlike_of_passesBy hold he hpass.1 hpass.2).readable

omit hs in
theorem mem_retract_iff (s : Session) (h : Handle) (old f : Fact) (reached : List NodeId)
    (n : NodeId) :
    n ∈ (s.planUpdate h old f reached).retract ↔ n ∈ candidates s.network old f ∧
      (s.state.holds n h && !(reached.contains n && passesBy s.network old f n)) = true := by
  rw [planUpdate_eq, List.mem_filter]

/-- An entry that an update enters is one that the new version reaches. -/
theorem Consistent.mem_assert_iff (hm : s.network.matchingEntries f = .ok reached) (h : Handle)
    (old : Fact) (n : NodeId) : n ∈ (s.planUpdate h old f reached).assert ↔ n ∈ reached ∧
      ¬(s.state.holds n h = true ∧ passesBy s.network old f n = true) := by
  rw [planUpdate_eq]
  simp only
  rw [List.mem_filter, Bool.and_eq_true, ← and_assoc, ← List.mem_filter (p := (reached.contains ·)),
    hs.network.candidates_filter old hm, Bool.not_eq_true', Bool.eq_false_iff, ne_eq,
    Bool.and_eq_true]

/-- An entry that the fact is in and does not leave is reached by the new version and passed by. -/
theorem Consistent.stays_of_not_mem_retract (hold : s.facts.get? h = some old) {n : NodeId}
    (hn : s.state.holds n h = true) (hnot : n ∉ (s.planUpdate h old f reached).retract) :
    n ∈ reached ∧ passesBy s.network old f n = true := by
  rw [mem_retract_iff, not_and] at hnot
  have hc : n ∈ candidates s.network old f :=
    List.mem_append_left _ (hs.mem_entriesFor_of_holds hold hn)
  have hb := hnot hc
  rw [hn, Bool.true_and, Bool.not_eq_true', Bool.not_eq_false, Bool.and_eq_true,
    List.contains_iff_mem] at hb
  exact hb

theorem Consistent.ready_update (hold : s.facts.get? h = some old)
    (hm : s.network.matchingEntries f = .ok reached) :
    s.Ready (s.facts.set h f) h f (s.planUpdate h old f reached).retract
      (s.planUpdate h old f reached).assert := by
  have hnodup := hs.network.nodup_candidates old f
  obtain ⟨-, -, hentries⟩ := hs.network.reached hm
  refine ⟨(FactStore.get?_set _ h f h).trans (if_pos rfl), ?_, fun n hn => ?_, ?_, fun n hn => ?_,
    fun n hn hh => ?_, fun e he k hk hne => ?_⟩
  · rw [planUpdate_eq]
    exact hnodup.filter _
  · have hb := ((mem_retract_iff s h old f reached n).mp hn).2
    rw [Bool.and_eq_true] at hb
    exact hb.1
  · rw [planUpdate_eq]
    exact hnodup.filter _
  · obtain ⟨e, he, hen, -⟩ := hentries n ((hs.mem_assert_iff hm h old n).mp hn).1
    exact ⟨e, he, hen⟩
  · by_contra hnot
    exact ((hs.mem_assert_iff hm h old n).mp hn).2 ⟨hh,
      (hs.stays_of_not_mem_retract hold hh hnot).2⟩
  -- Where the fact stays in, its entry was passed by, so it reads both versions alike.
  · by_cases hkh : k = h
    · subst hkh
      obtain ⟨-, hpass⟩ := hs.stays_of_not_mem_retract hold hk fun hc => hne ⟨hc, rfl⟩
      exact ⟨old, f, hold, (FactStore.get?_set _ k f k).trans (if_pos rfl),
        hs.versionsAlike_of_passesBy hold he hk hpass⟩
    · exact hs.alikeAt_of_get?_eq he hk ((FactStore.get?_set _ h f k).trans (if_neg hkh))

/-- A plan that passes the checks is carried out. -/
theorem Consistent.carryOut_spec (hold : s.facts.get? h = some old)
    (hm : s.network.matchingEntries f = .ok reached)
    (hcheck : checkEntries s.network f reached = .ok ()) :
    let plan := s.planUpdate h old f reached
    let s₁ := s.replaced h f plan
    s.Advances (s₁.propagate h plan.retract plan.assert).1
        (s₁.propagate h plan.retract plan.assert).2.events ∧
      (s₁.propagate h plan.retract plan.assert).1.facts = s.facts.set h f ∧
      (s₁.propagate h plan.retract plan.assert).2.result = .ok () := by
  intro plan s₁
  have hok := checkEntries_eq_ok_iff.mp hcheck
  have hassert : ∀ n ∈ plan.assert, n ∈ reached :=
    fun n hn => ((hs.mem_assert_iff hm h old n).mp hn).1
  -- The fact is in where its new version belongs: it was passed by there, or it entered.
  have hhere : ∀ n, (s.state.holds n h = true ∧ n ∉ plan.retract) ∨ n ∈ plan.assert ↔
      n ∈ reached := by
    intro n
    constructor
    · rintro (⟨hh, hnot⟩ | hn)
      · exact (hs.stays_of_not_mem_retract hold hh hnot).1
      · exact hassert n hn
    · intro hn
      by_cases hpass : s.state.holds n h = true ∧ passesBy s.network old f n = true
      · refine Or.inl ⟨hpass.1, fun hout => ?_⟩
        have hb := ((mem_retract_iff s h old f reached n).mp hout).2
        rw [hpass.1, hpass.2, List.contains_iff_mem.mpr hn] at hb
        cases hb
      · exact Or.inr ((hs.mem_assert_iff hm h old n).mpr ⟨hn, hpass⟩)
  obtain ⟨hadvances, hfacts, hresult⟩ := hs.propagate_spec s₁ plan.retract plan.assert rfl rfl
    (hs.ready_update hold hm)
    (hs.placed_of_version _ (FactStore.get?_set s.facts h f) (fun n => by
        rw [enterable_eq_self fun n hn => hok n (hassert n hn), admitting_of_ok hm,
          enterable_eq_self hok, ← hhere n]
        simp only [and_true])
      fun n k hk => by simp [hk])
  refine ⟨hadvances, hfacts, ?_⟩
  rw [hresult, checkEntries_eq_ok_iff.mpr fun n hn => hok n (hassert n hn)]
  rfl

end Update

/-- **A fact is updated.** -/
theorem update_spec (hs : s.Consistent) (h : Handle) (f : Fact) :
    s.Advances (s.update h f).1 (s.update h f).2.events ∧
      ((s.update h f).1.facts, (s.update h f).2.result) = updateAnswer s.network s.facts h f := by
  have hbranch := update_branch s h f
  generalize s.update h f = o at hbranch ⊢
  unfold updateAnswer
  cases hbranch with
  | dead hold =>
      rw [hold]
      exact ⟨hs.advances rfl rfl rfl, rfl⟩
  | unroutable hold hm =>
      rw [hold]
      simp only [entering, hm]
      exact ⟨hs.advances rfl rfl rfl, rfl⟩
  | unreadable hold hm hcheck =>
      rw [hs.checkEntries_assert hold hm] at hcheck
      rw [hold]
      simp only [entering, hm, hcheck]
      exact ⟨hs.advances rfl rfl rfl, rfl⟩
  | @checked old l hold hm hcheck =>
      rw [hs.checkEntries_assert hold hm] at hcheck
      obtain ⟨hadvances, hfacts, hresult⟩ := hs.carryOut_spec hold hm hcheck
      rw [hold]
      simp only [entering, hm, hcheck]
      exact ⟨hadvances, Prod.ext hfacts hresult⟩

/-! ## Deletions -/

/-- What becomes of the facts in a deletion, and what it answers. -/
def deleteAnswer (facts : FactStore) (h : Handle) : FactStore × Except EngineError Fact :=
  match facts.get? h with
  | none => (facts, .error (.consistency (.unknownHandle h)))
  | some f => (facts.drop h, .ok f)

/-- A fact is in only at entries of its type. -/
theorem Consistent.mem_leaving_iff (hs : s.Consistent) (hf : s.facts.get? h = some f) (n : NodeId) :
    n ∈ (s.network.entriesFor f.factType).filter (s.state.holds · h) ↔
    s.state.holds n h = true := by
  rw [List.mem_filter]
  exact ⟨fun hn => hn.2, fun hn => ⟨hs.mem_entriesFor_of_holds hf hn, hn⟩⟩

/-- A fact can leave all entries that it is in. -/
theorem Consistent.ready_delete (hs : s.Consistent) (hf : s.facts.get? h = some f) :
    s.Ready s.facts h f ((s.network.entriesFor f.factType).filter (s.state.holds · h)) [] := by
  refine ⟨hf, (hs.network.nodup_entriesFor _).filter _, fun n hn => (hs.mem_leaving_iff hf n).mp hn,
    List.nodup_nil, by simp, by simp, fun e he k hk _ => hs.alikeAt_of_get?_eq he hk rfl⟩

/-- **The deletion of a live fact succeeds**: the fact leaves its entries, and then the store. -/
theorem Consistent.delete_run (hs : s.Consistent) (hold : s.facts.get? h = some f) : ∃ p',
    LeaveRun s.network s.facts h ((s.network.entriesFor f.factType).filter (s.state.holds · h))
      ⟨s.state, []⟩ p' ∧
      s.delete h = ({ s with
        state := p'.toMatchState, facts := s.facts.drop h
        calls := { s.calls with deletes := s.calls.deletes + 1 } }, ⟨.ok f, p'.events⟩) := by
  have hready := hs.ready_delete hold
  obtain ⟨p', hleave, hrun⟩ :=
    leaveAll_run (p := ⟨s.state, []⟩) hs.network hs.sound hready.nodup_out hready.held
  have hwork : s.propagate h ((s.network.entriesFor f.factType).filter (s.state.holds · h)) [] =
      ({ s with state := p'.toMatchState }, ⟨.ok (), p'.events⟩) := by
    rw [propagate_eq, Propagation.run, hleave]
    rfl
  refine ⟨p', hrun, ?_⟩
  simp only [delete_of_live_eq hold, hwork, forget, FactStore.remove_eq hold]

/-- **A fact is deleted.** -/
theorem delete_spec (hs : s.Consistent) (h : Handle) :
    s.Advances (s.delete h).1 (s.delete h).2.events ∧
      ((s.delete h).1.facts, (s.delete h).2.result) = deleteAnswer s.facts h := by
  unfold deleteAnswer
  cases hold : s.facts.get? h with
  | none =>
      rw [delete_of_dead hold]
      exact ⟨hs.advances rfl rfl rfl, rfl⟩
  | some f =>
      obtain ⟨p', hrun, heq⟩ := hs.delete_run hold
      have hleaves := hrun.leaves hs.network
      have hmem := hs.mem_leaving_iff hold
      -- The fact that goes is in nowhere any more.
      have halike : ∀ e ∈ s.network.allEntries, ∀ k, p'.holds e.node k = true →
          AlikeAt s.facts (s.facts.drop h) e k := by
        intro e he k hk
        obtain ⟨hk, hne⟩ := (hleaves.holds _ _).mp hk
        refine hs.alikeAt_of_get?_eq he hk ((FactStore.get?_drop _ _ _).trans (if_neg ?_))
        rintro rfl
        exact hne ⟨(hmem e.node).mpr hk, rfl⟩
      have hsound := hleaves.sound.versions hs.network halike
      rw [heq]
      refine ⟨hs.advances_of_moves _ ⟨p', hleaves, hsound,
        fun hid he => he.versions hs.network halike hid, .refl hsound h⟩ rfl rfl fun n k => ?_, rfl⟩
      rw [FactStore.get?_drop, hmem]
      by_cases hk : k = h
      · simp [hk]
      · simp [hk, hs.placed]

/-! ## Answers -/

theorem result_insertAt (hs : s.Consistent) (h : Handle) (f : Fact) :
    (s.insertAt h f).2.result = (insertAnswer s.network s.facts h f).2 :=
  congrArg Prod.snd (insertAt_spec hs h f).2

theorem result_update (hs : s.Consistent) (h : Handle) (f : Fact) :
    (s.update h f).2.result = (updateAnswer s.network s.facts h f).2 :=
  congrArg Prod.snd (update_spec hs h f).2

/-- A live fact is deleted. -/
theorem delete_of_live (hs : s.Consistent) (hlive : s.facts.get? h = some f) :
    (s.delete h).1.facts = s.facts.drop h ∧ (s.delete h).2.result = .ok f := by
  have hanswer := (delete_spec hs h).2
  rw [deleteAnswer, hlive] at hanswer
  exact Prod.mk.inj hanswer

end Session

end RuleMatching
