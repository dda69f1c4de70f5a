import RuleMatching.Proofs.Session.Runs

set_option autoImplicit false

/-! # The searches of a call

When a fact enters, matches look for facts on the right of joins and facts for matches on their
left. Here the searches of a call are listed, each with the state in which it is made
(`Session.searches`). A search that fails stops the work, so work that comes to its end has made no
such search (`Propagation.succeeds_of_assertAt`); since only the check of an entry can stop the work
of a call, **no search of any call fails** (`Session.Consistent.succeeds`). -/

namespace RuleMatching

open Network Propagation

/-- A search at a join: of a match for facts on the right, or of a fact for matches on the left. -/
inductive Search where
  | left (ctx : PropagationContext) (e : Entry) (x : TupleId) (p : Propagation)
  | right (ctx : PropagationContext) (e : Entry) (h : Handle) (p : Propagation)

/-- Nothing that the search evaluates fails: all facts are there, the key can be computed, and the
tests give an answer for every candidate. -/
def Search.Succeeds : Search → Prop
  | .left ctx e x p =>
    ∃ bound key m, tupleFacts ctx p x = .ok bound ∧ e.condition.leftKey bound = .ok key ∧
      p.joins.get? e.node = some m ∧ ∀ h ∈ m.right.candidates key, ∃ f b,
        ctx.facts.get? h = some f ∧ e.condition.isAllowed bound f = .ok b
  | .right ctx e h p => ∃ f key m, ctx.facts.get? h = some f ∧ e.condition.rightKey f = .ok key ∧
      p.joins.get? e.node = some m ∧ ∀ x ∈ m.left.candidates key, ∃ bound b,
        tupleFacts ctx p x = .ok bound ∧ e.condition.isAllowed bound f = .ok b

namespace Propagation

/-! ## Searches of the work on one fact -/

/-- The searches of some work for every item in turn, up to the first error. -/
def eachSearches {α : Type} (work : α → Propagation → Result)
    (searches : α → Propagation → List Search) :
    List α → Propagation → List Search
  | [], _ => []
  | a :: rest, p =>
    searches a p ++
      match work a p with
      | (p, none) => eachSearches work searches rest p
      | (_, some _) => []

/-- The searches that are made when a match is handed on. -/
def leftSearches (ctx : PropagationContext) : List Entry → TupleId → Propagation → List Search
  | [], _, _ => []
  | e :: later, x, p =>
    .left ctx e x p ::
      match leftMatches ctx e x p with
      | .error _ => []
      | .ok (key, handles) =>
        match storeLeft? e.node key x p with
        | none => []
        | some p =>
          eachSearches (fun h p => extend ctx e.node (ctx.rule.sinkAfter later)
            (leftInsert ctx later) x h p) (fun h p =>
              leftSearches ctx later p.arena.next
                (addChild e.node (ctx.rule.sinkAfter later) x h p))
            handles p

/-- The searches that are made when a fact enters at the adapter. -/
def rootSearches (ctx : PropagationContext) (e : Entry) (later : List Entry) (h : Handle)
    (p : Propagation) : List Search :=
  match p.adapters.get? e.node with
  | none => []
  | some m =>
    if m.roots.contains h then []
    else
      leftSearches ctx later p.arena.next
        { p.createTuple h none (ctx.rule.sinkAfter later) none with
          adapters := p.adapters.insert e.node
            { m with roots := m.roots.insert h p.arena.next, counters := m.counters.addLeft } }

/-- The searches that are made when a fact enters on the right of a join. -/
def rightSearches (ctx : PropagationContext) (e : Entry) (later : List Entry) (h : Handle)
    (p : Propagation) : List Search :=
  .right ctx e h p ::
    match rightMatches ctx e h p with
    | .error _ => []
    | .ok (key, tuples) =>
      match storeRight? e.node key h p with
      | none => []
      | some p =>
        eachSearches (fun x p => extend ctx e.node (ctx.rule.sinkAfter later)
          (leftInsert ctx later) x h p) (fun x p =>
            leftSearches ctx later p.arena.next (addChild e.node (ctx.rule.sinkAfter later) x h p))
          tuples p

/-- The searches that are made when a fact enters at one entry, if the joins of the
rule can read it. -/
def assertSearches (facts : FactStore) (place : Place) (h : Handle) (p : Propagation) :
    List Search :=
  let ctx : PropagationContext := ⟨facts, h, place.rule⟩
  match fact ctx h with
  | .error _ => []
  | .ok f =>
    match tryReads f place.entry.reads with
    | .error _ => []
    | .ok () =>
      if place.entry.position = 0 then rootSearches ctx place.entry place.later h p
      else rightSearches ctx place.entry place.later h p

/-- The searches that are made when a fact enters some entries. -/
def enterSearches (net : Network) (facts : FactStore) (h : Handle) :
    List NodeId → Propagation → List Search :=
  eachSearches
    (fun node p =>
      match net.place? node with
      | some place => assertAt facts place h p
      | none => (p, none))
    fun node p =>
      match net.place? node with
      | some place => assertSearches facts place h p
      | none => []

/-- The searches that are made when a fact leaves some entries and enters some;
leaving makes none. -/
def runSearches (net : Network) (facts : FactStore) (h : Handle) (retract assert : List NodeId)
    (p : Propagation) : List Search :=
  match leaveAll net h retract p with
  | (p, none) => enterSearches net facts h assert p
  | (_, some _) => []

end Propagation

namespace Session

/-- The searches that are made in an insertion. -/
def insertSearches (s : Session) (h : Handle) (f : Fact) : List Search :=
  match s.facts.insert h f with
  | .error _ => []
  | .ok facts =>
    match s.network.matchingEntries f with
    | .error _ => []
    | .ok entries => runSearches s.network facts h [] entries ⟨s.state, []⟩

/-- The searches that are made in an update. -/
def updateSearches (s : Session) (h : Handle) (f : Fact) : List Search :=
  match s.facts.get? h with
  | none => []
  | some old =>
    match s.network.matchingEntries f with
    | .error _ => []
    | .ok reached =>
      let plan := s.planUpdate h old f reached
      match checkEntries s.network f plan.assert with
      | .error _ => []
      | .ok () =>
        match s.facts.replace h f with
        | .error _ => []
        | .ok (_, facts) => runSearches s.network facts h plan.retract plan.assert ⟨s.state, []⟩

/-- The searches that are made in a deletion. -/
def deleteSearches (s : Session) (h : Handle) : List Search :=
  match s.facts.get? h with
  | none => []
  | some f =>
    runSearches s.network s.facts h ((s.network.entriesFor f.factType).filter (s.state.holds · h))
      [] ⟨s.state, []⟩

/-- The searches that are made in a call. -/
def searches (s : Session) : Call → List Search
  | .insert f => s.insertSearches s.facts.nextHandle f
  | .insertAt h f => s.insertSearches h f
  | .update h f => s.updateSearches h f
  | .delete h => s.deleteSearches h

end Session

/-! ## Work that comes to its end -/

namespace Propagation

variable {ctx : PropagationContext} {p : Propagation}

/-- A search that gives an answer had one for every candidate. -/
theorem exists_eq_ok_of_select {α ε : Type} {test : α → Except ε Bool} {l found : List α}
    (h : select test l = .ok found) : ∀ a ∈ l, ∃ b, test a = .ok b := by
  induction l generalizing found with
  | nil => exact List.forall_mem_nil _
  | cons a rest ih =>
      rw [select, Outcome.bind_eq_ok_iff] at h
      obtain ⟨b, hb, h⟩ := h
      have hrest : ∃ found', select test rest = .ok found' := by
        cases b with
        | false => exact ⟨found, h⟩
        | true =>
            obtain ⟨found', hfound, -⟩ := Outcome.bind_eq_ok_iff.mp h
            exact ⟨found', hfound⟩
      obtain ⟨found', hfound⟩ := hrest
      intro c hc
      rcases List.mem_cons.mp hc with rfl | hc
      · exact ⟨b, hb⟩
      · exact ih hfound c hc

theorem atNode_eq_ok_iff {α : Type} {node : NodeId} {r : Except ReadError α} {a : α} :
    atNode ctx node r = .ok a ↔ r = .ok a := by
  cases r with
  | ok b => exact ⟨fun h => by cases h; rfl, fun h => by cases h; rfl⟩
  | error err => exact ⟨fun h => (nomatch h), fun h => (nomatch h)⟩

theorem fact_eq_ok_iff {h : Handle} {f : Fact} :
    fact ctx h = .ok f ↔ ctx.facts.get? h = some f := by
  unfold fact
  cases ctx.facts.get? h with
  | none => exact ⟨fun h => (nomatch h), fun h => (nomatch h)⟩
  | some g => exact ⟨fun h => by cases h; rfl, fun h => by cases h; rfl⟩

theorem atJoin_eq_ok_iff {α : Type} {node : NodeId} {o : Option α} {a : α} :
    atJoin ctx node o = .ok a ↔ o = some a := by
  cases o with
  | none => exact ⟨fun h => (nomatch h), fun h => (nomatch h)⟩
  | some b => exact ⟨fun h => by cases h; rfl, fun h => by cases h; rfl⟩

theorem succeeds_of_leftMatches {e : Entry} {x : TupleId} {found : Option IndexKey × List Handle}
    (h : leftMatches ctx e x p = .ok found) : (Search.left ctx e x p).Succeeds := by
  obtain ⟨bound, hbound, h⟩ := Outcome.bind_eq_ok_iff.mp h
  obtain ⟨key, hkey, h⟩ := Outcome.bind_eq_ok_iff.mp h
  obtain ⟨facing, hfacing, h⟩ := Outcome.bind_eq_ok_iff.mp h
  obtain ⟨handles, hselect, -⟩ := Outcome.bind_eq_ok_iff.mp h
  obtain ⟨m, hm, rfl⟩ := Option.map_eq_some_iff.mp (atJoin_eq_ok_iff.mp hfacing)
  refine ⟨bound, key, m, hbound, atNode_eq_ok_iff.mp hkey, hm, fun h hh => ?_⟩
  obtain ⟨b, hb⟩ := exists_eq_ok_of_select hselect h hh
  obtain ⟨f, hf, hb⟩ := Outcome.bind_eq_ok_iff.mp hb
  exact ⟨f, b, fact_eq_ok_iff.mp hf, atNode_eq_ok_iff.mp hb⟩

theorem succeeds_of_rightMatches {e : Entry} {h : Handle} {found : Option IndexKey × List TupleId}
    (hfound : rightMatches ctx e h p = .ok found) : (Search.right ctx e h p).Succeeds := by
  obtain ⟨f, hf, hfound⟩ := Outcome.bind_eq_ok_iff.mp hfound
  obtain ⟨key, hkey, hfound⟩ := Outcome.bind_eq_ok_iff.mp hfound
  obtain ⟨waiting, hwaiting, hfound⟩ := Outcome.bind_eq_ok_iff.mp hfound
  obtain ⟨m, hm, rfl⟩ := Option.map_eq_some_iff.mp (atJoin_eq_ok_iff.mp hwaiting)
  refine ⟨f, key, m, fact_eq_ok_iff.mp hf, atNode_eq_ok_iff.mp hkey, hm, fun x hx => ?_⟩
  cases hcontains : MatchStore.hasRight p e.node h with
  | true =>
      rw [hcontains] at hfound
      cases hfound
  | false =>
      rw [hcontains] at hfound
      obtain ⟨tuples, hselect, -⟩ := Outcome.bind_eq_ok_iff.mp hfound
      obtain ⟨b, hb⟩ := exists_eq_ok_of_select hselect x hx
      obtain ⟨bound, hbound, hb⟩ := Outcome.bind_eq_ok_iff.mp hb
      exact ⟨bound, b, hbound, atNode_eq_ok_iff.mp hb⟩

/-- Work for every item in turn that comes to its end did so for every item. -/
theorem succeeds_of_each {α : Type} {work : α → Propagation → Result}
    {searches : α → Propagation → List Search}
    (hwork : ∀ a p, (work a p).2 = none → ∀ q ∈ searches a p, q.Succeeds) {l : List α}
    {p : Propagation} (h : (each work l p).2 = none) :
    ∀ q ∈ eachSearches work searches l p, q.Succeeds := by
  induction l generalizing p with
  | nil => exact List.forall_mem_nil _
  | cons a rest ih =>
      intro q hq
      rw [each] at h
      rw [eachSearches] at hq
      have ha := hwork a p
      rcases hresult : work a p with ⟨p', _ | err⟩
      · rw [hresult] at h hq ha
        rcases List.mem_append.mp hq with hq | hq
        · exact ha rfl q hq
        · exact ih h q hq
      · rw [hresult] at h
        cases h

/-- An extension that stays was handed on. -/
theorem eq_none_of_extend {node sink : NodeId} {next : TupleId → Propagation → Result} {x : TupleId}
    {h : Handle} (hextend : (extend ctx node sink next x h p).2 = none) :
    (next p.arena.next (addChild node sink x h p)).2 = none := by
  obtain ⟨p₁, hp₁⟩ : ∃ p₁, p₁ = addChild node sink x h p := ⟨_, rfl⟩
  rw [extend, newTuple_eq] at hextend
  simp only [linkMade_createTuple, ← hp₁] at hextend
  rw [← hp₁]
  rcases hresult : next p.arena.next p₁ with ⟨p', _ | err⟩
  · rfl
  · rw [hresult] at hextend
    cases hextend

/-- **A match that is handed on to the end made no search that fails.** -/
theorem succeeds_of_leftInsert {later : List Entry} {x : TupleId} {p : Propagation}
    (h : (leftInsert ctx later x p).2 = none) : ∀ q ∈ leftSearches ctx later x p, q.Succeeds := by
  induction later generalizing x p with
  | nil => exact List.forall_mem_nil _
  | cons e later ih =>
      rw [leftInsert] at h
      intro q hq
      rw [leftSearches] at hq
      rcases hfound : leftMatches ctx e x p with err | ⟨key, handles⟩
      · rw [hfound] at h
        cases h
      · rw [hfound] at h hq
        simp only at h hq
        rcases List.mem_cons.mp hq with rfl | hq
        · exact succeeds_of_leftMatches hfound
        · simp only [MatchStore.storeLeft?] at h
          cases hstore : storeLeft? e.node key x p with
          | none =>
              rw [hstore] at h
              cases h
          | some p' =>
              rw [hstore] at h hq
              exact succeeds_of_each (fun k p hk => ih (eq_none_of_extend hk)) h q hq

theorem succeeds_of_assertRoot {e : Entry} {later : List Entry} {h : Handle}
    (hwork : (assertRoot ctx e later h p).2 = none) :
    ∀ q ∈ rootSearches ctx e later h p, q.Succeeds := by
  simp only [assertRoot, MatchStore.adapters] at hwork
  unfold rootSearches
  cases hm : p.adapters.get? e.node with
  | none => exact List.forall_mem_nil _
  | some m =>
      rw [hm] at hwork
      simp only at hwork ⊢
      split
      · exact List.forall_mem_nil _
      · next hnot =>
        rw [if_neg hnot] at hwork
        split at hwork
        · next hnext => exact succeeds_of_leftInsert (congrArg Prod.snd hnext)
        · cases hwork

theorem succeeds_of_rightInsert {e : Entry} {later : List Entry} {h : Handle}
    (hwork : (rightInsert ctx e later h p).2 = none) :
    ∀ q ∈ rightSearches ctx e later h p, q.Succeeds := by
  unfold rightInsert at hwork
  intro q hq
  unfold rightSearches at hq
  rcases hfound : rightMatches ctx e h p with err | ⟨key, tuples⟩
  · rw [hfound] at hwork
    cases hwork
  · rw [hfound] at hwork hq
    simp only at hwork hq
    rcases List.mem_cons.mp hq with rfl | hq
    · exact succeeds_of_rightMatches hfound
    · simp only [MatchStore.storeRight?] at hwork
      cases hstore : storeRight? e.node key h p with
      | none =>
          rw [hstore] at hwork
          cases hwork
      | some p' =>
          rw [hstore] at hwork hq
          exact succeeds_of_each (fun x p hx => succeeds_of_leftInsert (eq_none_of_extend hx))
            hwork q hq

/-- **A fact that entered made no search that fails.** -/
theorem succeeds_of_assertAt {facts : FactStore} {place : Place} {h : Handle}
    (hwork : (assertAt facts place h p).2 = none) :
    ∀ q ∈ assertSearches facts place h p, q.Succeeds := by
  unfold assertAt at hwork
  unfold assertSearches
  simp only at hwork ⊢
  cases hf : fact ⟨facts, h, place.rule⟩ h with
  | error err => exact List.forall_mem_nil _
  | ok f =>
      rw [hf] at hwork
      simp only at hwork ⊢
      cases hread : tryReads f place.entry.reads with
      | error failure => exact List.forall_mem_nil _
      | ok u =>
          rw [hread] at hwork
          simp only at hwork ⊢
          split
          · next hpos =>
            rw [if_pos hpos] at hwork
            exact succeeds_of_assertRoot hwork
          · next hpos =>
            rw [if_neg hpos] at hwork
            exact succeeds_of_rightInsert hwork

/-! ## The work of a call -/

variable {net : Network} {facts : FactStore}

/-- A fact that the joins of the rule cannot read makes no search. -/
theorem assertSearches_of_error {place : Place} {h : Handle} {f : Fact} {failure : NodeFailure}
    (hf : facts.get? h = some f) (hread : tryReads f place.entry.reads = .error failure) :
    assertSearches facts place h p = [] := by
  have hfact : fact ⟨facts, h, place.rule⟩ h = .ok f := fact_eq hf
  unfold assertSearches
  simp only [hfact, hread]

/-- The property holds of all searches with which a fact that may enter at one entry of a sound
state does so. -/
def AtEntries (net : Network) (P : Search → Prop) : Prop :=
  ∀ {facts : FactStore} {p : Propagation} {n : NodeId} {place : Place} {h : Handle} {f : Fact},
    Sound net facts p.toMatchState → net.place? n = some place → facts.get? h = some f →
    net.checkEntry n f = .ok () → p.holds n h = false → ∀ q ∈ assertSearches facts place h p, P q

/-- What holds of the searches at one entry, holds of all searches with which a fact enters some
entries, whether or not it can enter all of them. -/
theorem EnterRun.forall_searches {P : Search → Prop} (hP : AtEntries net P) (hnet : net.WellFormed)
    {h : Handle} {f : Fact} (hf : facts.get? h = some f) {l : List NodeId} {o : Result}
    (hrun : EnterRun net facts h f l p o) : ∀ q ∈ enterSearches net facts h l p, P q := by
  induction hrun with
  | nil => exact List.forall_mem_nil _
  | @stop n rest place p failure hs hplace _ hcheck hassert =>
      -- The entry that refuses the fact does so before any search, and ends the work.
      obtain ⟨rfl, before, hcut⟩ := WellFormed.cut_of_place? hplace
      rw [hnet.checkEntry_eq (mem_allEntries_iff.mpr ⟨_, _, _, hcut⟩)] at hcheck
      have hnone := assertSearches_of_error (p := p) hf hcheck
      intro q hq
      rw [enterSearches, eachSearches, hplace] at hq
      simp only [hassert, hnone, List.append_nil, List.not_mem_nil] at hq
  | @cons n rest place p q o hs hplace hnot hcheck hassert _ _ ih =>
      intro search hsearch
      rw [enterSearches, eachSearches, hplace] at hsearch
      simp only [hassert] at hsearch
      rcases List.mem_append.mp hsearch with hfirst | hrest
      · exact hP hs hplace hf hcheck hnot search hfirst
      · exact ih search hrest

/-- **No search at one entry fails.** -/
theorem atEntries_succeeds (hnet : net.WellFormed) : AtEntries net Search.Succeeds := by
  intro facts p n place h f hs hplace hf hcheck hnot
  have hspec := assertAt_spec hnet hs hplace hf hnot
  rw [hcheck] at hspec
  obtain ⟨p₁, hrun, -⟩ := hspec
  exact succeeds_of_assertAt (by rw [hrun])

end Propagation

namespace Session

variable {s : Session} (hs : s.Consistent) {P : Search → Prop} (hP : AtEntries s.network P)

include hs hP

/-- The searches of work that can be done. -/
theorem Consistent.forall_runSearches {facts : FactStore} {h : Handle} {f : Fact}
    {out into : List NodeId} (hready : s.Ready facts h f out into) :
    ∀ q ∈ runSearches s.network facts h out into ⟨s.state, []⟩, P q := by
  obtain ⟨p₁, hleave, hleaves, -, hsound⟩ := hs.leaveAll_spec hready
  unfold runSearches
  rw [hleave]
  have hrun := enterAll_run hs.network hsound hready.version hready.nodup_into hready.entries
    (hready.not_holds_of_leaves hleaves)
  exact hrun.forall_searches hP hs.network hready.version

theorem Consistent.forall_insertSearches (h : Handle) (f : Fact) :
    ∀ q ∈ s.insertSearches h f, P q := by
  unfold insertSearches
  cases hi : s.facts.insert h f with
  | error cause => exact List.forall_mem_nil _
  | ok facts' =>
      simp only
      cases hm : s.network.matchingEntries f with
      | error failure => exact List.forall_mem_nil _
      | ok l => exact hs.forall_runSearches hP (hs.ready_insert hi hm)

theorem Consistent.forall_updateSearches (h : Handle) (f : Fact) :
    ∀ q ∈ s.updateSearches h f, P q := by
  unfold updateSearches
  cases hold : s.facts.get? h with
  | none => exact List.forall_mem_nil _
  | some old =>
      simp only
      cases hm : s.network.matchingEntries f with
      | error failure => exact List.forall_mem_nil _
      | ok reached =>
          simp only [FactStore.replace_eq hold]
          cases checkEntries s.network f (s.planUpdate h old f reached).assert with
          | error failure => exact List.forall_mem_nil _
          | ok u => exact hs.forall_runSearches hP (hs.ready_update hold hm)

theorem Consistent.forall_deleteSearches (h : Handle) : ∀ q ∈ s.deleteSearches h, P q := by
  unfold deleteSearches
  cases hold : s.facts.get? h with
  | none => exact List.forall_mem_nil _
  | some f => exact hs.forall_runSearches hP (hs.ready_delete hold)

/-- **What holds of the searches at one entry, holds of all searches of a call.** -/
theorem Consistent.forall_searches (c : Call) : ∀ q ∈ s.searches c, P q := by
  cases c with
  | insert f => exact hs.forall_insertSearches hP s.facts.nextHandle f
  | insertAt h f => exact hs.forall_insertSearches hP h f
  | update h f => exact hs.forall_updateSearches hP h f
  | delete h => exact hs.forall_deleteSearches hP h

omit hP in
/-- **No search of a call fails.** -/
theorem Consistent.succeeds (c : Call) : ∀ q ∈ s.searches c, q.Succeeds :=
  hs.forall_searches (atEntries_succeeds hs.network) c

end Session

end RuleMatching
