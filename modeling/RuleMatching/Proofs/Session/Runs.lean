import RuleMatching.Proofs.Session.Calls

set_option autoImplicit false

/-! # Runs

A run is a list of calls of a fresh session. **Every session that a run leads to is consistent**,
and if the tests respect identity it has exactly the matches that it should have
(`Session.run_ofNetwork`). -/

namespace RuleMatching

open Network

/-- A call of a session. -/
inductive Call where
  | insert (f : Fact)
  | insertAt (h : Handle) (f : Fact)
  | update (h : Handle) (f : Fact)
  | delete (h : Handle)

/-- What a call that succeeds gives back. -/
inductive Answer where
  | done
  | handle (h : Handle)
  | fact (f : Fact)

/-- The reply with another form of its result. -/
def Reply.map {α β : Type} (g : α → β) (r : Reply α) : Reply β := ⟨r.result.map g, r.events⟩

namespace Session

section Run

variable {σ π : Type} [MatchStore π] [SessionState σ π]

/-- Makes a call. -/
def perform (s : Session σ) : Call → Session σ × Reply Answer
  | .insert f => ((s.insert f).1, (s.insert f).2.map .handle)
  | .insertAt h f => ((s.insertAt h f).1, (s.insertAt h f).2.map fun _ => .done)
  | .update h f => ((s.update h f).1, (s.update h f).2.map fun _ => .done)
  | .delete h => ((s.delete h).1, (s.delete h).2.map .fact)

/-- Makes some calls, and answers with their replies. -/
def run (s : Session σ) : List Call → Session σ × List (Reply Answer)
  | [] => (s, [])
  | c :: rest => (((s.perform c).1.run rest).1, (s.perform c).2 :: ((s.perform c).1.run rest).2)

end Run

/-- What becomes of the facts in a call, and what it answers. -/
def answer (net : Network) (facts : FactStore) : Call → FactStore × Except EngineError Answer
  | .insert f =>
    ((insertAnswer net facts facts.nextHandle f).1,
      (insertAnswer net facts facts.nextHandle f).2.map fun _ => .handle facts.nextHandle)
  | .insertAt h f =>
    ((insertAnswer net facts h f).1, (insertAnswer net facts h f).2.map fun _ => .done)
  | .update h f =>
    ((updateAnswer net facts h f).1, (updateAnswer net facts h f).2.map fun _ => .done)
  | .delete h => ((deleteAnswer facts h).1, (deleteAnswer facts h).2.map .fact)

theorem answer_congr {net net' : Network} (h : net.RoutesAlike net') (facts : FactStore)
    (c : Call) : answer net' facts c = answer net facts c := by
  cases c <;> simp only [answer, insertAnswer, updateAnswer, h.entering]

/-- **What a call answers and what becomes of the facts depends on the facts alone.** -/
theorem perform_spec {s : Session} (hs : s.Consistent) (c : Call) :
    s.Advances (s.perform c).1 (s.perform c).2.events ∧
      ((s.perform c).1.facts, (s.perform c).2.result) = answer s.network s.facts c := by
  cases c with
  | insert f =>
      obtain ⟨hadvances, hanswer⟩ := insertAt_spec hs s.facts.nextHandle f
      refine ⟨hadvances, ?_⟩
      rw [answer, ← hanswer]
      refine Prod.ext rfl ?_
      show (Except.map Answer.handle (Except.map _ (s.insertAt s.facts.nextHandle f).2.result)) = _
      cases (s.insertAt s.facts.nextHandle f).2.result <;> rfl
  | insertAt h f =>
      obtain ⟨hadvances, hanswer⟩ := insertAt_spec hs h f
      refine ⟨hadvances, ?_⟩
      rw [answer, ← hanswer]
      rfl
  | update h f =>
      obtain ⟨hadvances, hanswer⟩ := update_spec hs h f
      refine ⟨hadvances, ?_⟩
      rw [answer, ← hanswer]
      rfl
  | delete h =>
      obtain ⟨hadvances, hanswer⟩ := delete_spec hs h
      refine ⟨hadvances, ?_⟩
      rw [answer, ← hanswer]
      rfl

/-- What holds of a session and is preserved by calls holds after a run. -/
theorem run_induction {P : Session → Prop} (hstep : ∀ s c, P s → P (s.perform c).1) {s : Session}
    (hs : P s) (calls : List Call) : P (s.run calls).1 := by
  induction calls generalizing s with
  | nil => exact hs
  | cons c rest ih => exact ih (hstep s c hs)

end Session

/-! ## What becomes of a store -/

/-- The handle under which the store took a fact in, if the call answers so. A fact that cannot
enter the network was taken in all the same. -/
def Call.accepted? : Call → Except EngineError Answer → Option Handle
  | .insert _, .ok (.handle h) => some h
  | .insertAt h _, .ok _ => some h
  | .insert _, .error (.propagation h _) => some h
  | .insertAt h _, .error (.propagation _ _) => some h
  | _, _ => none

/-- One store becomes another in a call, and takes a fact in under a handle or under none. -/
inductive FactStore.Becomes (facts : FactStore) : FactStore → Option Handle → Prop
  | same : Becomes facts facts none
  | insert {facts' : FactStore} {h : Handle} {f : Fact} (hi : facts.insert h f = .ok facts') :
      Becomes facts facts' (some h)
  | set {h : Handle} {old : Fact} (hold : facts.get? h = some old) (f : Fact) :
      Becomes facts (facts.set h f) none
  | drop (h : Handle) : Becomes facts (facts.drop h) none

theorem Network.entering_cases (net : Network) (h : Handle) (f : Fact) :
    net.entering h f = .ok () ∨ ∃ failure, net.entering h f = .error (.propagation h failure) := by
  cases he : net.entering h f with
  | ok u => exact Or.inl rfl
  | error err =>
      obtain ⟨failure, rfl, -⟩ := entering_eq_error_iff.mp he
      exact Or.inr ⟨failure, rfl⟩

/-- **What a call makes of the store shows in what it answers.** -/
theorem Session.answer_becomes (net : Network) (facts : FactStore) (c : Call) :
    facts.Becomes (answer net facts c).1 (c.accepted? (answer net facts c).2) := by
  cases c with
  | insert f =>
      simp only [answer, insertAnswer]
      cases hi : facts.insert facts.nextHandle f with
      | error cause => exact .same
      | ok facts' =>
          rcases net.entering_cases facts.nextHandle f with
            he | ⟨failure, he⟩ <;> simp only [he] <;> exact .insert hi
  | insertAt h f =>
      simp only [answer, insertAnswer]
      cases hi : facts.insert h f with
      | error cause => exact .same
      | ok facts' =>
          rcases net.entering_cases h f with
            he | ⟨failure, he⟩ <;> simp only [he] <;> exact .insert hi
  | update h f =>
      simp only [answer, updateAnswer]
      cases hold : facts.get? h with
      | none => exact .same
      | some old =>
          rcases net.entering_cases h f with he | ⟨failure, he⟩ <;> simp only [he]
          · exact .set hold f
          · exact .same
  | delete h =>
      simp only [answer, deleteAnswer]
      cases facts.get? h with
      | none => exact .same
      | some f => exact .drop h

namespace Session

theorem Consistent.becomes_perform {s : Session} (hs : s.Consistent) (c : Call) :
    s.facts.Becomes (s.perform c).1.facts (c.accepted? (s.perform c).2.result) := by
  have hanswer := (perform_spec hs c).2
  rw [show (s.perform c).1.facts = _ from congrArg Prod.fst hanswer,
    show (s.perform c).2.result = _ from congrArg Prod.snd hanswer]
  exact answer_becomes s.network s.facts c

end Session

/-! ## Fresh sessions -/

/-- A map to which a value is added for each of a list of sites. -/
theorem FiniteMap.covers_foldl_insert {κ α σ : Type} [DecidableEq κ] {sites : List σ} {key : σ → κ}
    {value : σ → α} {fits : σ → α → Prop} (hfits : ∀ i ∈ sites, fits i (value i))
    (hinj : ∀ i ∈ sites, ∀ j ∈ sites, key j = key i → j = i) :
    (sites.foldl (fun m i => m.insert (key i) (value i)) (.empty : FiniteMap κ α)).Covers
      sites key fits := by
  -- The map covers those sites that were added so far.
  have hfold : ∀ (later done : List σ) (m : FiniteMap κ α), (∀ i ∈ done ++ later, i ∈ sites) →
      m.Covers done key fits →
      (later.foldl (fun m i => m.insert (key i) (value i)) m).Covers (done ++ later) key fits := by
    intro later
    induction later with
    | nil =>
        intro done m _ hm
        rwa [List.append_nil]
    | cons i later ih =>
        intro done m hmem hm
        rw [show done ++ i :: later = (done ++ [i]) ++ later by simp] at hmem ⊢
        have hi : i ∈ sites := hmem i (by simp)
        refine ih (done ++ [i]) _ hmem ⟨fun j hj => ?_, fun k v hk => ?_⟩
        · have hj' : j ∈ sites := hmem j (List.mem_append_left _ hj)
          by_cases hji : key j = key i
          · rw [hinj i hi j hj' hji]
            exact ⟨value i, get?_insert_self m (key i) (value i), hfits i hi⟩
          · have hdone : j ∈ done := by
              rcases List.mem_append.mp hj with hj | hj
              · exact hj
              · exact absurd (congrArg key (List.mem_singleton.mp hj)) hji
            obtain ⟨v, hv, hv'⟩ := hm.at_site j hdone
            exact ⟨v, by rw [get?_insert_ne m _ hji, hv], hv'⟩
        · rw [get?_insert] at hk
          split at hk
          · next hki => exact ⟨i, by simp, hki.symm⟩
          · obtain ⟨j, hj, hjk⟩ := hm.only_sites k v hk
            exact ⟨j, List.mem_append_left _ hj, hjk⟩
  refine hfold sites [] .empty (fun i hi => hi) ⟨fun i hi => (List.not_mem_nil hi).elim,
    fun k v hk => ?_⟩
  cases hk

section Fresh

variable {net : Network}

theorem MatchState.ofNetwork_eq (net : Network) : MatchState.ofNetwork net =
    ⟨.empty, net.rules.foldl (fun m r => m.insert r.first.node emptyAdapter) .empty,
      net.allJoins.foldl (fun m e => m.insert e.node (emptyJoin e.condition)) .empty,
      net.rules.foldl (fun m r => m.insert r.terminal emptyTerminal) .empty, {}⟩ := by
  rw [allJoins, List.foldl_flatMap]
  unfold ofNetwork
  generalize net.rules = rules
  -- The memories of each kind grow on their own.
  have hfold : ∀ (l : List CompiledRule) (s : MatchState), l.foldl addRule s =
      ⟨s.arena, l.foldl (fun m r => m.insert r.first.node emptyAdapter) s.adapters,
        l.foldl (fun m r => r.joins.foldl (fun m e => m.insert e.node (emptyJoin e.condition))
          m) s.joins,
        l.foldl (fun m r => m.insert r.terminal emptyTerminal) s.terminals, s.counters⟩ := by
    intro l
    induction l with
    | nil =>
        intro s
        rfl
    | cons r rest ih =>
        intro s
        rw [List.foldl_cons, ih]
        rfl
  exact hfold rules _

theorem joinFits_empty (facts : FactStore) (e : Entry) :
    JoinFits facts .empty e (MatchState.emptyJoin e.condition) := by
  have hkind : ∀ {α : Type}, (Memory.ofKind e.condition.memoryKind : Memory α).isIndexed =
      e.condition.isIndexed := by
    intro α
    rw [Memory.isIndexed_ofKind, JoinCondition.memoryKind]
    cases e.condition.isIndexed <;> rfl
  refine ⟨⟨?_, hkind, fun x hx => ?_⟩, ⟨Memory.Holds.ofKind _ _, hkind, fun h entry hh => ?_,
    fun h entry hh => ?_⟩, fun h entry hh => ?_⟩
  · exact Memory.Holds.ofKind _ _
  · cases hx
  all_goals cases hh

/-- **A fresh session has no matches, and needs none.** -/
theorem Network.WellFormed.exact_ofNetwork (hnet : net.WellFormed) :
    Exact net .empty (MatchState.ofNetwork net) := by
  rw [MatchState.ofNetwork_eq]
  have hnone : ∀ x t, SlotMap.get? (.empty : Arena) x ≠ some t := fun x t h => nomatch h
  refine ⟨⟨Arena.wellFormed_empty, fun x t h => (hnone x t h).elim, ?_, ?_, ?_⟩,
    fun x t h => (hnone x t h).elim⟩
  · refine FiniteMap.covers_foldl_insert (fun r _ => ⟨fun h x hx => ?_⟩)
      fun r hr r' hr' => hnet.first_inj hr hr'
    cases hx
  · exact FiniteMap.covers_foldl_insert (fun e _ => joinFits_empty _ e)
      fun e he e' he' => hnet.join_inj he he'
  · refine FiniteMap.covers_foldl_insert (fun r _ => ⟨SlotMap.valid_empty, rfl, fun x hx => ?_⟩)
      fun r hr r' hr' => hnet.terminal_inj hr hr'
    cases hx

theorem Network.WellFormed.consistent_ofNetwork (hnet : net.WellFormed) :
    (Session.ofNetwork net).Consistent := by
  have hexact := hnet.exact_ofNetwork
  refine ⟨hnet, hexact.sound, fun n h => ?_⟩
  have harena : (MatchState.ofNetwork net).arena = .empty := by rw [MatchState.ofNetwork_eq]
  constructor
  · intro hh
    rcases (holds_iff _ n h).mp hh with ⟨m, x, hm, hx⟩ | ⟨m, entry, hm, hentry⟩
    · obtain ⟨r, hr, rfl⟩ := hexact.coherent.adapters.only_sites n m hm
      obtain ⟨t, ht, -⟩ := (hexact.coherent.adapters.fits_of_get? hr hm).root h x hx
      rw [harena] at ht
      cases ht
    · obtain ⟨e, he, rfl⟩ := hexact.coherent.joins.only_sites n m hm
      obtain ⟨f, hf, -⟩ := (hexact.coherent.joins.fits_of_get? he hm).right.readable h entry hentry
      cases hf
  · rintro ⟨f, hf, -⟩
    cases hf

/-- **Every session that a run leads to is consistent, and it has exactly the matches that it should
have if the tests respect identity.** -/
theorem Session.run_ofNetwork (hnet : net.WellFormed) (calls : List Call) :
    ((ofNetwork net).run calls).1.network = net ∧ ((ofNetwork net).run calls).1.Consistent ∧
      (net.RespectsIdentity → ((ofNetwork net).run calls).1.Current) := by
  refine run_induction (P := fun s => s.network = net ∧ s.Consistent ∧
    (net.RespectsIdentity → s.Current)) (fun s c hs => ?_) ?_ calls
  · obtain ⟨rfl, hconsistent, hcurrent⟩ := hs
    obtain ⟨hadvances, -⟩ := perform_spec hconsistent c
    exact ⟨hadvances.network, hadvances.consistent, fun hid => hadvances.current hid (hcurrent hid)⟩
  · exact ⟨rfl, hnet.consistent_ofNetwork, fun _ => hnet.exact_ofNetwork⟩

end Fresh

end RuleMatching
