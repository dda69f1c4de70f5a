import RuleMatching.Proofs.Network.Routing
import RuleMatching.Proofs.Session.Leaving

set_option autoImplicit false

/-! # A fact at several entries

A fact leaves entries that it is in, one after the other (`Propagation.leaveAll_spec`), and it
enters others up to the first whose joins cannot read it (`Propagation.enterAll_spec`). -/

namespace RuleMatching

open Network

variable {net : Network} {facts : FactStore} {p : Propagation}

/-- A fact is in at entries only. -/
theorem Coherent.mem_allEntries_of_holds {s : MatchState} (hs : Coherent net facts s) {n : NodeId}
    {h : Handle} (hh : s.holds n h = true) : ∃ e ∈ net.allEntries, e.node = n := by
  rcases (holds_iff s n h).mp hh with ⟨m, -, hm, -⟩ | ⟨m, -, hm, -⟩
  · obtain ⟨r, hr, rfl⟩ := hs.adapters.only_sites n m hm
    exact ⟨r.first, mem_allEntries_iff.mpr ⟨r, [], r.joins, .first hr⟩, rfl⟩
  · obtain ⟨e, he, rfl⟩ := hs.joins.only_sites n m hm
    exact ⟨e, mem_allEntries_of_mem_allJoins he, rfl⟩

theorem Network.WellFormed.place?_of_mem (hnet : net.WellFormed) {e : Entry}
    (he : e ∈ net.allEntries) : ∃ place, net.place? e.node = some place := by
  obtain ⟨r, before, later, hcut⟩ := mem_allEntries_iff.mp he
  exact ⟨_, hnet.place?_eq hcut⟩

/-- A fact that has left one entry is still in at the others. -/
theorem Leaves.held_of_not_mem {p' : Propagation} {n : NodeId} {h : Handle} {rest : List NodeId}
    (hleaves : Leaves net facts [n] h p p') (hn : n ∉ rest)
    (hheld : ∀ n' ∈ n :: rest, p.holds n' h = true) : ∀ n' ∈ rest, p'.holds n' h = true := by
  intro n' hn'
  rw [hleaves.holds]
  refine ⟨hheld n' (List.mem_cons_of_mem n hn'), fun heq => hn ?_⟩
  rw [← List.mem_singleton.mp heq.1]
  exact hn'

/-- A fact that has entered one entry is still in at no other. -/
theorem Enters.not_held_of_not_mem {p' : Propagation} {n : NodeId} {h : Handle} {rest : List NodeId}
    (henters : Enters net facts [n] h p p') (hn : n ∉ rest)
    (hnot : ∀ n' ∈ n :: rest, p.holds n' h = false) : ∀ n' ∈ rest, p'.holds n' h = false := by
  intro n' hn'
  rw [Bool.eq_false_iff, ne_eq, henters.holds, not_or, List.mem_singleton]
  refine ⟨?_, fun heq => hn (heq.1 ▸ hn')⟩
  rw [hnot n' (List.mem_cons_of_mem n hn')]
  exact Bool.false_ne_true

namespace Propagation

/-! ## Runs over the entries

What is proved about a fact at several entries is proved by induction on these runs: one entry after
the other, in sound states. -/

/-- A run in which a fact leaves entries, each of which it is in at. -/
inductive LeaveRun (net : Network) (facts : FactStore) (h : Handle) :
    List NodeId → Propagation → Propagation → Prop where
  | nil {p : Propagation} (hs : Sound net facts p.toMatchState) : LeaveRun net facts h [] p p
  | cons {n : NodeId} {rest : List NodeId} {place : Place} {p q p' : Propagation}
      (hs : Sound net facts p.toMatchState) (hplace : net.place? n = some place)
        (hheld : p.holds n h = true)
      (hretract : retractAt place h p = (q, none)) (hleaves : Leaves net facts [n] h p q)
      (hrest : LeaveRun net facts h rest q p') : LeaveRun net facts h (n :: rest) p p'

/-- A run in which a fact enters entries that it is not in at, up to the first that refuses it. -/
inductive EnterRun (net : Network) (facts : FactStore) (h : Handle) (f : Fact) :
    List NodeId → Propagation → Result → Prop where
  | nil {p : Propagation} (hs : Sound net facts p.toMatchState) :
      EnterRun net facts h f [] p (p, none)
  | stop {n : NodeId} {rest : List NodeId} {place : Place} {p : Propagation} {failure : NodeFailure}
      (hs : Sound net facts p.toMatchState) (hplace : net.place? n = some place)
        (hnot : p.holds n h = false)
      (hcheck : net.checkEntry n f = .error failure)
      (hassert : assertAt facts place h p = (p, some (.propagation h failure))) :
      EnterRun net facts h f (n :: rest) p (p, some (.propagation h failure))
  | cons {n : NodeId} {rest : List NodeId} {place : Place} {p q : Propagation} {o : Result}
      (hs : Sound net facts p.toMatchState) (hplace : net.place? n = some place)
        (hnot : p.holds n h = false)
      (hcheck : net.checkEntry n f = .ok ()) (hassert : assertAt facts place h p = (q, none))
      (henters : Enters net facts [n] h p q) (hrest : EnterRun net facts h f rest q o) :
      EnterRun net facts h f (n :: rest) p o

section Steps

variable {π : Type} [MatchStore π]

theorem leaveAll_cons {n : NodeId} {place : Place} (hplace : net.place? n = some place) {h : Handle}
    {p q : π} (hretract : retractAt place h p = (q, none)) (rest : List NodeId) :
    leaveAll net h (n :: rest) p = leaveAll net h rest q := by
  rw [leaveAll, each, hplace]
  simp only [hretract]

theorem enterAll_cons {n : NodeId} {place : Place} (hplace : net.place? n = some place) {h : Handle}
    {p q : π} (hassert : assertAt facts place h p = (q, none)) (rest : List NodeId) :
    enterAll net facts h (n :: rest) p = enterAll net facts h rest q := by
  rw [enterAll, each, hplace]
  simp only [hassert]

/-- The first entry that refuses the fact ends the work. -/
theorem enterAll_stop {n : NodeId} {place : Place} (hplace : net.place? n = some place) {h : Handle}
    {p q : π} {err : EngineError} (hassert : assertAt facts place h p = (q, some err))
    (rest : List NodeId) : enterAll net facts h (n :: rest) p = (q, some err) := by
  rw [enterAll, each, hplace]
  simp only [hassert]

end Steps

/-- Leaving entries that the fact is in at is such a run. -/
theorem leaveAll_run (hnet : net.WellFormed) (hs : Sound net facts p.toMatchState) {h : Handle}
    {l : List NodeId} (hl : l.Nodup) (hheld : ∀ n ∈ l, p.holds n h = true) :
    ∃ p', leaveAll net h l p = (p', none) ∧ LeaveRun net facts h l p p' := by
  induction l generalizing p with
  | nil => exact ⟨p, rfl, .nil hs⟩
  | cons n rest ih =>
      rw [List.nodup_cons] at hl
      have hn := hheld n List.mem_cons_self
      obtain ⟨e, he, rfl⟩ := hs.coherent.mem_allEntries_of_holds hn
      obtain ⟨place, hplace⟩ := hnet.place?_of_mem he
      obtain ⟨q, hretract, hleaves⟩ := retractAt_spec hnet hs hplace hn
      obtain ⟨p', hrest, hrun⟩ := ih hleaves.sound hl.2 (hleaves.held_of_not_mem hl.1 hheld)
      exact ⟨p', (leaveAll_cons hplace hretract rest).trans hrest,
        .cons hs hplace hn hretract hleaves hrun⟩

/-- Entering entries that the fact is not in at is such a run. -/
theorem enterAll_run (hnet : net.WellFormed) (hs : Sound net facts p.toMatchState) {h : Handle}
    {f : Fact} (hf : facts.get? h = some f) {l : List NodeId} (hl : l.Nodup)
    (hmem : ∀ n ∈ l, ∃ e ∈ net.allEntries, e.node = n) (hnot : ∀ n ∈ l, p.holds n h = false) :
    EnterRun net facts h f l p (enterAll net facts h l p) := by
  induction l generalizing p with
  | nil => exact .nil hs
  | cons n rest ih =>
      rw [List.nodup_cons] at hl
      have hn := hnot n List.mem_cons_self
      obtain ⟨e, he, rfl⟩ := hmem n List.mem_cons_self
      obtain ⟨place, hplace⟩ := hnet.place?_of_mem he
      have hspec := assertAt_spec hnet hs hplace hf hn
      cases hcheck : net.checkEntry e.node f with
      | error failure =>
          rw [hcheck] at hspec
          rw [enterAll_stop hplace hspec]
          exact .stop hs hplace hn hcheck hspec
      | ok u =>
          rw [hcheck] at hspec
          obtain ⟨q, hassert, henters⟩ := hspec
          rw [enterAll_cons hplace hassert]
          exact .cons hs hplace hn hcheck hassert henters (ih henters.sound hl.2
            (fun n' hn' => hmem n' (List.mem_cons_of_mem _ hn'))
              (henters.not_held_of_not_mem hl.1 hnot))

theorem LeaveRun.leaves (hnet : net.WellFormed) {h : Handle} {l : List NodeId} {p' : Propagation}
    (hrun : LeaveRun net facts h l p p') : Leaves net facts l h p p' := by
  induction hrun with
  | nil hs => exact .refl hnet hs h
  | cons _ _ _ _ hleaves _ ih => exact hleaves.trans ih

theorem EnterRun.enters {h : Handle} {f : Fact} {l : List NodeId} {o : Result}
    (hrun : EnterRun net facts h f l p o) :
    ∃ p', o = (p', match Session.checkEntries net f l with
      | .ok () => none
      | .error failure =>
        some (.propagation h failure)) ∧ Enters net facts (net.enterable f l) h p p' := by
  induction hrun with
  | @nil p hs => exact ⟨p, rfl, .refl hs h⟩
  | @stop n rest place p failure hs hplace hnot hcheck hassert =>
      rw [checkEntries_cons, enterable_cons, hcheck]
      exact ⟨p, rfl, .refl hs h⟩
  | cons hs hplace hnot hcheck hassert henters _ ih =>
      obtain ⟨p', rfl, henters'⟩ := ih
      rw [checkEntries_cons, enterable_cons, hcheck]
      exact ⟨p', rfl, henters.trans henters'⟩

/-- **A fact leaves all entries of a list that it is in.** -/
theorem leaveAll_spec (hnet : net.WellFormed) (hs : Sound net facts p.toMatchState) {h : Handle}
    {l : List NodeId} (hl : l.Nodup) (hheld : ∀ n ∈ l, p.holds n h = true) :
    ∃ p', leaveAll net h l p = (p', none) ∧ Leaves net facts l h p p' := by
  obtain ⟨p', heq, hrun⟩ := leaveAll_run hnet hs hl hheld
  exact ⟨p', heq, hrun.leaves hnet⟩

/-- **A fact enters the entries of a list up to the first whose joins cannot read it.** -/
theorem enterAll_spec (hnet : net.WellFormed) (hs : Sound net facts p.toMatchState) {h : Handle}
    {f : Fact} (hf : facts.get? h = some f) {l : List NodeId} (hl : l.Nodup)
    (hmem : ∀ n ∈ l, ∃ e ∈ net.allEntries, e.node = n) (hnot : ∀ n ∈ l, p.holds n h = false) :
    ∃ p', enterAll net facts h l p = (p', match Session.checkEntries net f l with
      | .ok () => none
      | .error failure =>
        some (.propagation h failure)) ∧ Enters net facts (net.enterable f l) h p p' :=
  (enterAll_run hnet hs hf hl hmem hnot).enters

end Propagation

end RuleMatching
