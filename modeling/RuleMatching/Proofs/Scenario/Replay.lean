import RuleMatching.Proofs.Session.Matches
import RuleMatching.Proofs.Session.Renaming
import RuleMatching.Proofs.Session.Results
import RuleMatching.Proofs.Session.Story
import RuleMatching.Proofs.Value.Json
import RuleMatching.Scenario.Replay

set_option autoImplicit false

/-! # Replays of events

A replay turns each event into a call of its session. Its identifiers name the live facts, each fact
by one identifier (`FactStore.NamedBy`), so a call never asks for a fact that is not there. **A
replay fails iff an event is malformed where it stands, and then at the first such event; otherwise
the steps tell of every event in order, and what they activate and deactivate adds up to the
activations in force at the end** (`Replay.replay_run`). -/

namespace RuleMatching

open Network

/-! ## Malformed events -/

namespace Scenario

/-- After these events the identifier names a fact: the fact was inserted and not deleted since. -/
def InUse (before : List Event) (id : String) : Prop :=
  ∃ earlier factType fields later, before = earlier ++ .insert id factType fields :: later ∧
    .delete id ∉ later

theorem not_inUse_nil (id : String) : ¬ InUse [] id := by
  rintro ⟨earlier, factType, fields, later, heq, -⟩
  simp at heq

/-- An insertion brings its identifier into use, a deletion frees it. -/
theorem inUse_concat_iff {before : List Event} {e : Event} {id : String} :
    InUse (before ++ [e]) id ↔
      (∃ factType fields, e = .insert id factType fields) ∨ (InUse before id ∧ e ≠ .delete id) := by
  constructor
  · rintro ⟨earlier, factType, fields, later, heq, hlater⟩
    rcases List.eq_nil_or_concat later with rfl | ⟨later', last, rfl⟩
    · exact Or.inl ⟨factType, fields, (List.cons.inj (List.append_inj' heq rfl).2).1⟩
    · rw [List.concat_eq_append, ← List.cons_append, ← List.append_assoc] at heq
      obtain ⟨hbefore, hlast⟩ := List.append_inj' heq rfl
      rw [List.concat_eq_append, List.mem_append, not_or, List.mem_singleton] at hlater
      refine Or.inr ⟨⟨earlier, factType, fields, later', hbefore, hlater.1⟩, ?_⟩
      rw [(List.cons.inj hlast).1]
      exact fun h => hlater.2 h.symm
  · rintro (⟨factType, fields, rfl⟩ | ⟨⟨earlier, factType, fields, later, rfl, hlater⟩, hne⟩)
    · exact ⟨before, factType, fields, [], rfl, List.not_mem_nil⟩
    · refine ⟨earlier, factType, fields, later ++ [e], by simp, ?_⟩
      rw [List.mem_append, not_or, List.mem_singleton]
      exact ⟨hlater, fun h => hne h.symm⟩

namespace Event

/-- The raw fields that come with an event. -/
def fields : Event → NameMap Json
  | insert _ _ fields | update _ _ fields => fields
  | delete _ => .empty

/-- The cause for which an event cannot be carried out after the given ones. -/
inductive Fault (before : List Event) : Event → Cause → Prop
  | identifierInUse {id factType : String} {fields : NameMap Json} (h : InUse before id) :
      Fault before (.insert id factType fields) (.identifierInUse id)
  | updateUnknown {id : String} {factType : Option String} {fields : NameMap Json}
      (h : ¬ InUse before id) :
      Fault before (.update id factType fields) (.unknownIdentifier id)
  | deleteUnknown {id : String} (h : ¬ InUse before id) :
      Fault before (.delete id) (.unknownIdentifier id)
  | nested {e : Event} {field : String} {raw : Json} (hfield : (field, raw) ∈ e.fields.entries)
      (h : raw.IsNested) : Fault before e (.content (.nested raw))

/-- The event cannot be carried out after the given ones. -/
def Malformed (before : List Event) (e : Event) : Prop := ∃ cause, e.Fault before cause

end Event

/-- None of the events is malformed where it stands, after the events `before`. -/
def Clean (before events : List Event) : Prop :=
  ∀ earlier e later, events = earlier ++ e :: later → ¬ e.Malformed (before ++ earlier)

theorem clean_nil (before : List Event) : Clean before [] := fun _ _ _ h => by simp at h

theorem clean_cons {before rest : List Event} {e : Event} (he : ¬ e.Malformed before)
    (hrest : Clean (before ++ [e]) rest) : Clean before (e :: rest) := by
  intro earlier e' later heq
  cases earlier with
  | nil =>
      rw [List.append_nil, ← (List.cons.inj heq).1]
      exact he
  | cons e'' earlier =>
      obtain ⟨rfl, hsplit⟩ := List.cons.inj heq
      rw [show before ++ e :: earlier = (before ++ [e]) ++ earlier by simp]
      exact hrest earlier e' later hsplit

end Scenario

open Scenario

/-! ## The log in order -/

theorem SlotRef.compare_eq_lt_iff {a b : SlotRef} : a.compare b = .lt ↔
    a.index < b.index ∨ (a.index = b.index ∧ a.generation < b.generation) := by
  simp only [SlotRef.compare, Ordering.then_eq_lt, Nat.compare_eq_lt, Nat.compare_eq_eq]

theorem SlotRef.compare_eq_gt_iff {a b : SlotRef} : a.compare b = .gt ↔ b.compare a = .lt := by
  rw [SlotRef.compare_eq_lt_iff]
  simp only [SlotRef.compare, Ordering.then_eq_gt, Nat.compare_eq_gt, Nat.compare_eq_eq]
  omega

/-- The activations are in the order of their tuples, and there is one of each tuple. -/
def InTupleOrder (l : List Activation) : Prop := l.Pairwise fun a b => a.tuple.compare b.tuple = .lt

theorem InTupleOrder.nodup {l : List Activation} (h : InTupleOrder l) : l.Nodup := by
  refine List.Pairwise.imp (fun {a b} hlt heq => ?_) h
  rw [heq, SlotRef.compare_eq_lt_iff] at hlt
  omega

theorem Activation.mem_insertByTuple {a b : Activation} {l : List Activation}
    (h : b ∈ a.insertByTuple l) : b = a ∨ b ∈ l := by
  induction l with
  | nil => exact Or.inl (List.mem_singleton.mp h)
  | cons c rest ih =>
      rw [insertByTuple] at h
      split at h
      · exact List.mem_cons.mp h
      · rcases List.mem_cons.mp h with rfl | h
        · exact Or.inl rfl
        · exact Or.inr (List.mem_cons_of_mem c h)
      · rcases List.mem_cons.mp h with rfl | h
        · exact Or.inr List.mem_cons_self
        · exact (ih h).imp_right (List.mem_cons_of_mem c)

theorem InTupleOrder.insertByTuple {l : List Activation} (h : InTupleOrder l) (a : Activation) :
    InTupleOrder (a.insertByTuple l) := by
  induction l with
  | nil => exact List.pairwise_singleton _ a
  | cons c rest ih =>
      obtain ⟨hc, hrest⟩ := List.pairwise_cons.mp h
      rw [Activation.insertByTuple]
      split
      · next hlt =>
        refine List.pairwise_cons.mpr ⟨fun b hb => ?_, h⟩
        rcases List.mem_cons.mp hb with rfl | hb
        · exact hlt
        · have hcb := hc b hb
          rw [SlotRef.compare_eq_lt_iff] at hlt hcb ⊢
          omega
      · next heq =>
        refine List.pairwise_cons.mpr ⟨fun b hb => ?_, hrest⟩
        rw [SlotRef.eq_of_compare_eq heq]
        exact hc b hb
      · next hgt =>
        refine List.pairwise_cons.mpr ⟨fun b hb => ?_, ih hrest⟩
        rcases Activation.mem_insertByTuple hb with rfl | hb
        · exact SlotRef.compare_eq_gt_iff.mp hgt
        · exact hc b hb

/-- **A log keeps the activations in the order of their tuples.** -/
theorem ActivationLog.inTupleOrder_recordAll {log : ActivationLog} (h : InTupleOrder log.active)
    (events : List ActivationEvent) : InTupleOrder (log.recordAll events).active := by
  induction events generalizing log with
  | nil => exact h
  | cons event rest ih =>
      refine ih ?_
      cases event with
      | activated a => exact h.insertByTuple a
      | deactivated a => exact h.sublist List.filter_sublist

/-! ## What the steps add up to -/

/-- The activations after a step: those that the step ends are gone, those that it brings
about are there. -/
def StepOutcome.applyTo (active : List Activation) (o : StepOutcome) : List Activation :=
  active.filter (· ∉ o.deactivated) ++ o.activated

theorem activated_turnover (gone come : List Activation) :
    Replay.activated (turnover gone come) = come := by
  simp [Replay.activated, turnover, List.filterMap_append, List.filterMap_map]

theorem deactivated_turnover (gone come : List Activation) :
    Replay.deactivated (turnover gone come) = gone := by
  simp [Replay.deactivated, turnover, List.filterMap_append, List.filterMap_map]

/-- The log has the full matches of the session in force, in the order of their tuples, and the
steps so far add up to the same. -/
structure AddsUp (s : Session) (log : ActivationLog) (steps : List StepOutcome) : Prop where
  consistent : s.Consistent
  logs : s.Logs log
  ordered : InTupleOrder log.active
  told : ∃ stream, s.Told stream
  nodup : (steps.foldl StepOutcome.applyTo []).Nodup
  mem_iff : ∀ a, a ∈ steps.foldl StepOutcome.applyTo [] ↔ FullMatch s.network s.state.arena a

namespace AddsUp

variable {s : Session} {log : ActivationLog} {steps : List StepOutcome}

theorem perm (h : AddsUp s log steps) : (steps.foldl StepOutcome.applyTo []).Perm log.active :=
  (List.perm_ext_iff_of_nodup h.nodup h.ordered.nodup).mpr fun a =>
    (h.mem_iff a).trans (h.logs a).symm

/-- **The outcome of a call is what the call does to the full matches.** -/
theorem perform (h : AddsUp s log steps) (c : Call) {o : StepOutcome}
    (hactivated : o.activated = Replay.activated (s.perform c).2.events)
    (hdeactivated : o.deactivated = Replay.deactivated (s.perform c).2.events) :
    AddsUp (s.perform c).1 (log.recordAll (s.perform c).2.events) (steps ++ [o]) := by
  obtain ⟨stream, htold⟩ := h.told
  obtain ⟨gone, come, hevents, htold', -⟩ := Session.told_perform h.consistent htold c
  have hadvances := (Session.perform_spec h.consistent c).1
  have hnext := htold'
  rw [Session.Told, hadvances.network] at hnext
  rw [hevents, activated_turnover] at hactivated
  rw [hevents, deactivated_turnover] at hdeactivated
  have hfold : (steps ++ [o]).foldl StepOutcome.applyTo [] =
      (steps.foldl StepOutcome.applyTo []).filter (· ∉ gone) ++ come := by
    rw [List.foldl_append, List.foldl_cons, List.foldl_nil, StepOutcome.applyTo, hactivated,
      hdeactivated]
  refine ⟨hadvances.consistent, hadvances.logs h.consistent h.logs,
    ActivationLog.inTupleOrder_recordAll h.ordered _, ⟨_, htold'⟩, ?_, fun a => ?_⟩
  · rw [hfold, List.nodup_append]
    refine ⟨h.nodup.filter _, htold'.orderly.nodup_come, fun a ha b hb heq => ?_⟩
    have hold := (h.mem_iff a).mp (List.mem_filter.mp ha).1
    exact ((htold.mem_come_iff hnext b).mp hb).2 (heq ▸ hold)
  · rw [hfold, List.mem_append, List.mem_filter, decide_eq_true_eq, h.mem_iff,
      htold.mem_gone_iff hnext, htold.mem_come_iff hnext, hadvances.network]
    by_cases hbefore : FullMatch s.network s.state.arena a <;> simp [hbefore]

end AddsUp

/-! ## Identifiers -/

/-- The identifiers name the live facts, each fact by one identifier. -/
structure FactStore.NamedBy (facts : FactStore) (ids : FiniteMap String Handle) : Prop where
  injective : ∀ id id' h, ids.get? id = some h → ids.get? id' = some h → id = id'
  live : ∀ h, (∃ id, ids.get? id = some h) ↔ ∃ f, facts.get? h = some f

namespace FactStore.NamedBy

variable {facts facts' : FactStore} {ids : FiniteMap String Handle} {id : String} {h : Handle}

/-- The versions of the facts do not matter. -/
theorem congr (hn : facts.NamedBy ids)
    (hlive : ∀ k, (∃ f, facts'.get? k = some f) ↔ ∃ f, facts.get? k = some f) :
    facts'.NamedBy ids :=
  ⟨hn.injective, fun k => (hn.live k).trans (hlive k).symm⟩

theorem set (hn : facts.NamedBy ids) {old : Fact} (hold : facts.get? h = some old) (f : Fact) :
    (facts.set h f).NamedBy ids := by
  refine hn.congr fun k => ?_
  rw [get?_set]
  by_cases hk : k = h
  · simp [hk, hold]
  · rw [if_neg hk]

theorem add (hn : facts.NamedBy ids) (hi : facts.Issued) (hid : ids.get? id = none) (f : Fact) :
    (facts.add f).NamedBy (ids.insert id facts.nextHandle) := by
  -- The handle is new, so no identifier stands for it yet.
  have hnew : ∀ id', ids.get? id' ≠ some facts.nextHandle := by
    intro id' hid'
    obtain ⟨g, hg⟩ := (hn.live _).mp ⟨id', hid'⟩
    rw [hi.get?_nextHandle] at hg
    cases hg
  refine ⟨fun a b k ha hb => ?_, fun k => ?_⟩
  · rw [FiniteMap.get?_insert] at ha hb
    split at ha <;> split at hb
    · next haid hbid => exact haid.trans hbid.symm
    · cases ha
      exact absurd hb (hnew b)
    · cases hb
      exact absurd ha (hnew a)
    · exact hn.injective a b k ha hb
  · rw [get?_add]
    by_cases hk : k = facts.nextHandle
    · rw [if_pos hk, hk]
      exact ⟨fun _ => ⟨f, rfl⟩, fun _ => ⟨id, FiniteMap.get?_insert_self ids id _⟩⟩
    · rw [if_neg hk, ← hn.live k]
      refine exists_congr fun a => ?_
      rw [FiniteMap.get?_insert]
      split
      · next ha =>
        rw [ha, hid]
        exact ⟨fun heq => absurd (Option.some.inj heq).symm hk,
          fun heq => absurd heq.symm (Option.some_ne_none k)⟩
      · exact Iff.rfl

theorem drop (hn : facts.NamedBy ids) (hid : ids.get? id = some h) :
    (facts.drop h).NamedBy (ids.erase id) := by
  refine ⟨fun a b k ha hb => ?_, fun k => ?_⟩
  · rw [FiniteMap.get?_erase] at ha hb
    split at ha
    · cases ha
    · split at hb
      · cases hb
      · exact hn.injective a b k ha hb
  · rw [get?_drop]
    constructor
    · rintro ⟨a, ha⟩
      rw [FiniteMap.get?_erase] at ha
      split at ha
      · cases ha
      · next hne =>
        have hk : k ≠ h := fun heq => hne (hn.injective a id h (heq ▸ ha) hid)
        rw [if_neg hk]
        exact (hn.live k).mp ⟨a, ha⟩
    · rintro ⟨f, hf⟩
      split at hf
      · cases hf
      · next hk =>
        obtain ⟨a, ha⟩ := (hn.live k).mpr ⟨f, hf⟩
        have hne : a ≠ id := fun heq => hk (Option.some.inj (ha.symm.trans (heq ▸ hid)))
        exact ⟨a, by rw [FiniteMap.get?_erase, if_neg hne, ha]⟩

end FactStore.NamedBy

/-! ## One event -/

namespace Replay

/-- A fact is built from its raw fields, unless one of them is nested; then the error
names the field. -/
theorem buildFact_cases (r : Replay) (factType : String) (fields : NameMap Json) :
    (∃ f, r.buildFact factType fields = .ok f ∧ ∀ field raw, (field, raw) ∈ fields.entries →
      ¬ raw.IsNested) ∨
      ∃ field raw, (field, raw) ∈ fields.entries ∧ raw.IsNested ∧
        r.buildFact factType fields = .error ⟨[.convertField factType field],
          .content (.nested raw)⟩ := by
  obtain ⟨schema, hschema⟩ : ∃ schema, schema = r.session.network.schemas.get? factType := ⟨_, rfl⟩
  -- Only a nested text is refused: a value that the kind of its field does not fit is
  -- taken as it is.
  have hvalue : ∀ field raw, (∃ v, fieldValue schema factType field raw = .ok v ∧ ¬ raw.IsNested) ∨
      (raw.IsNested ∧ fieldValue schema factType field raw =
        .error ⟨[.convertField factType field], .content (.nested raw)⟩) := by
    intro field raw
    unfold fieldValue
    rcases Value.ofJson_cases raw with ⟨v, hv, hraw⟩ | ⟨hraw, herr⟩
    · rw [hv]
      cases schema.bind (·.kind? field) with
      | none => exact Or.inl ⟨_, rfl, hraw⟩
      | some kind => exact Or.inl ⟨_, rfl, hraw⟩
    · rw [herr]
      exact Or.inr ⟨hraw, rfl⟩
  unfold buildFact
  simp only [← hschema]
  rcases Outcome.mapM_cases (fun (e : String × Json) => do
      return (e.1, ← fieldValue schema factType e.1 e.2)) fields.entries with
    ⟨bs, hbs, hall⟩ | ⟨⟨field, raw⟩, hmem, err, herr, hmap⟩
  · refine Or.inl ⟨_, by rw [hbs]; rfl, fun field raw hmem hraw => ?_⟩
    obtain ⟨b, hb⟩ := hall (field, raw) hmem
    rcases hvalue field raw with ⟨-, -, hnot⟩ | ⟨-, hfail⟩
    · exact hnot hraw
    · simp only [hfail] at hb
      cases hb
  · refine Or.inr ⟨field, raw, hmem, ?_⟩
    rcases hvalue field raw with ⟨v, hv, -⟩ | ⟨hraw, hfail⟩
    · simp only [hv] at herr
      cases herr
    · simp only [hfail] at herr
      cases herr
      exact ⟨hraw, by rw [hmap]; rfl⟩

/-- The insertion of a fact under an identifier that is free. -/
theorem apply_insert {r : Replay} {id : String} (hid : r.ids.get? id = none) (step : Nat)
    (factType : String) (fields : NameMap Json) :
    r.apply step (.insert id factType fields) = (r.buildFact factType fields).map fun f =>
      { r with
        ids := r.ids.insert id (r.lastHandle + 1)
        lastHandle := r.lastHandle + 1 }.finish step (.insert id factType fields) (r.lastHandle + 1)
          (r.session.insertAt (r.lastHandle + 1) f).1
        (r.session.insertAt (r.lastHandle + 1) f).2 := by
  have hcontains : ¬ r.ids.contains id = true :=
    Bool.eq_false_iff.mp ((FiniteMap.contains_eq_false_iff _ _).mpr hid)
  show (if r.ids.contains id then _ else _) = _
  rw [if_neg hcontains]
  cases r.buildFact factType fields <;> rfl

/-- The update of a live fact. Its new version has the type that the event tells, or else that
of the old one. -/
theorem apply_update {r : Replay} {id : String} {h : Handle} {old : Fact} (hh : r.handle id = .ok h)
    (hold : r.session.facts.get? h = some old) (step : Nat) (factType : Option String)
    (fields : NameMap Json) :
    r.apply step (.update id factType fields) =
      (r.buildFact (factType.getD old.factType) fields).map fun f =>
        r.finish step (.update id factType fields) h (r.session.update h f).1
          (r.session.update h f).2 := by
  have hlive : r.session.get? h = some old := hold
  cases factType with
  | some t =>
      simp only [apply, hh, bind, Except.bind, Option.getD_some]
      cases r.buildFact t fields <;> rfl
  | none =>
      simp only [apply, hh, hlive, bind, Except.bind, Option.getD_none]
      cases r.buildFact old.factType fields <;> rfl

/-- The replay has carried out the given events in the given steps. -/
structure Carried (net : Network) (before : List Event) (r : Replay) (steps : List StepOutcome) :
    Prop where
  network : r.session.network = net
  addsUp : AddsUp r.session r.log steps
  named : r.session.facts.NamedBy r.ids
  inUse : ∀ id, (∃ h, r.ids.get? id = some h) ↔ InUse before id
  issued : r.session.facts.Issued
  last : r.lastHandle = r.session.facts.lastIssued
  numbered : steps.map (fun o => (o.step, o.operation, o.id)) =
    before.mapIdx fun i e => (i + 1, e.operation, e.id)
  inserted : (steps.filter (·.operation = "insert")).map (·.handle) = List.range' 1 r.lastHandle
  errors : ∀ o ∈ steps, ∀ err, o.error = some err → ∃ failure, err = .propagation o.handle failure

namespace Carried

variable {net : Network} {before : List Event} {r : Replay} {steps : List StepOutcome}

/-- An event that becomes a call which the facts let through. -/
theorem finish (hr : Carried net before r steps) (e : Event) (c : Call) {α : Type} (reply : Reply α)
    (ids : FiniteMap String Handle) (last : Handle) (hadmitted : c.Admitted r.session.facts)
    (hevents : reply.events = (r.session.perform c).2.events)
    (hresult : ∀ err, reply.result = .error err → (r.session.perform c).2.result = .error err)
    (hnamed : (r.session.perform c).1.facts.NamedBy ids)
    (hinUse : ∀ id, (∃ h, ids.get? id = some h) ↔ InUse (before ++ [e]) id)
    (hlast : last = (r.session.perform c).1.facts.lastIssued)
    (hinserted : List.range' 1 last = List.range' 1 r.lastHandle ++
      if e.operation = "insert" then [c.about r.session.facts] else []) :
    Carried net (before ++ [e])
      ({ r with ids := ids, lastHandle := last }.finish (before.length + 1) e
        (c.about r.session.facts) (r.session.perform c).1 reply).1
      (steps ++ [({ r with ids := ids, lastHandle := last }.finish (before.length + 1) e
        (c.about r.session.facts) (r.session.perform c).1 reply).2]) := by
  have hs := hr.addsUp.consistent
  obtain ⟨hadvances, hanswer⟩ := Session.perform_spec hs c
  refine ⟨hadvances.network.trans hr.network, ?_, hnamed, hinUse, hs.issued_perform hr.issued c,
    hlast, ?_, ?_, fun o ho err herr => ?_⟩
  · unfold Replay.finish
    simp only [hevents]
    exact hr.addsUp.perform c rfl rfl
  · rw [List.map_append, hr.numbered, List.mapIdx_append]
    simp [Replay.finish]
  · rw [List.filter_append, List.map_append, hr.inserted]
    show _ = List.range' 1 last
    rw [hinserted, Replay.finish]
    by_cases hinsert : e.operation = "insert" <;> simp [hinsert]
  · -- An error in a step was answered by the session, and a call that the facts let through fails
    -- in the network only.
    rcases List.mem_append.mp ho with ho | ho
    · exact hr.errors o ho err herr
    · obtain rfl := List.mem_singleton.mp ho
      have hreply : reply.result = .error err := by
        unfold Replay.finish at herr
        cases hres : reply.result with
        | ok a =>
            rw [hres] at herr
            cases herr
        | error err' =>
            rw [hres] at herr
            cases herr
            rfl
      have hfails : (Session.answer r.session.network r.session.facts c).2 = .error err := by
        rw [← hanswer]
        exact hresult err hreply
      exact (Session.answer_error hfails).2 hadmitted

/-- The next event is malformed and the replay fails for its fault, or it is carried out. -/
def Next (net : Network) (before : List Event) (r : Replay) (steps : List StepOutcome) (e : Event) :
    Prop :=
  (∃ contexts cause, e.Fault before cause ∧
    r.apply (before.length + 1) e = .error ⟨contexts, cause⟩) ∨
    (¬ e.Malformed before ∧ ∃ r' o, r.apply (before.length + 1) e = .ok (r', o) ∧
      Carried net (before ++ [e]) r' (steps ++ [o]))

theorem next_insert (hr : Carried net before r steps) (id factType : String)
    (fields : NameMap Json) : Next net before r steps (.insert id factType fields) := by
  have hs := hr.addsUp.consistent
  -- The identifier is looked up before the fields are read, so an identifier in use is the fault
  -- that is told.
  by_cases hid : r.ids.contains id = true
  · refine Or.inl ⟨[], .identifierInUse id, .identifierInUse ?_, if_pos hid⟩
    exact (hr.inUse id).mp ((FiniteMap.contains_iff _ _).mp hid)
  have hnone := (FiniteMap.contains_eq_false_iff _ _).mp (Bool.eq_false_iff.mpr hid)
  rcases r.buildFact_cases factType fields with ⟨f, hf, hflat⟩ | ⟨field, raw, hmem, hraw, herr⟩
  · refine Or.inr ⟨?_, ?_⟩
    · rintro ⟨cause, hfault⟩
      cases hfault with
      | identifierInUse h =>
          obtain ⟨k, hk⟩ := (hr.inUse id).mpr h
          rw [hnone] at hk
          cases hk
      | nested hfield h => exact hflat _ _ hfield h
    · -- The handle of the replay is the next one of the store, which therefore takes the fact.
      have hnext : r.lastHandle + 1 = r.session.facts.nextHandle := by
        rw [hr.last]
        rfl
      have htaken := hr.issued.insert_nextHandle f
      have hfacts : (r.session.perform (.insertAt (r.lastHandle + 1) f)).1.facts =
          r.session.facts.add f := by
        rw [hs.facts_perform, hnext]
        show (Session.insertAnswer r.session.network r.session.facts
          r.session.facts.nextHandle f).1 = _
        rw [Session.insertAnswer, htaken]
      refine ⟨_, _, ?_, hr.finish (.insert id factType fields) (.insertAt (r.lastHandle + 1) f)
        (r.session.insertAt (r.lastHandle + 1) f).2 (r.ids.insert id (r.lastHandle + 1))
          (r.lastHandle + 1)
        ⟨_, hnext ▸ htaken⟩ rfl (fun err herr => Outcome.map_eq_error_iff.mpr herr) ?_
          (fun id' => ?_) ?_ ?_⟩
      · rw [apply_insert hnone, hf]
        rfl
      · rw [hfacts, hnext]
        exact hr.named.add hr.issued hnone f
      · rw [inUse_concat_iff, ← hr.inUse, FiniteMap.get?_insert]
        by_cases hid' : id' = id
        · simp [hid']
        · simp [hid', Ne.symm hid']
      · rw [hfacts, hnext]
        rfl
      · rw [List.range'_1_concat, Nat.add_comm 1]
        rfl
  · refine Or.inl ⟨[.convertField factType field], _, .nested hmem hraw, ?_⟩
    rw [apply_insert hnone, herr]
    rfl

/-- An identifier that names nothing. -/
theorem handle_of_not_inUse (hr : Carried net before r steps) {id : String}
    (hid : ¬ InUse before id) : r.handle id = .error ⟨[], .unknownIdentifier id⟩ := by
  rw [← hr.inUse] at hid
  unfold Replay.handle
  cases hget : r.ids.get? id with
  | none => rfl
  | some h => exact absurd ⟨h, hget⟩ hid

/-- An identifier in use names a live fact. -/
theorem handle_of_inUse (hr : Carried net before r steps) {id : String} (hid : InUse before id) :
    ∃ h f, r.ids.get? id = some h ∧ r.handle id = .ok h ∧ r.session.facts.get? h = some f := by
  obtain ⟨h, hget⟩ := (hr.inUse id).mpr hid
  obtain ⟨f, hf⟩ := (hr.named.live h).mp ⟨id, hget⟩
  exact ⟨h, f, hget, by rw [Replay.handle, hget], hf⟩

theorem next_update (hr : Carried net before r steps) (id : String) (factType : Option String)
    (fields : NameMap Json) : Next net before r steps (.update id factType fields) := by
  have hs := hr.addsUp.consistent
  by_cases hid : InUse before id
  swap
  · refine Or.inl ⟨[], _, .updateUnknown hid, ?_⟩
    simp only [Replay.apply, hr.handle_of_not_inUse hid, bind, Except.bind]
  obtain ⟨h, old, hget, hhandle, hold⟩ := hr.handle_of_inUse hid
  -- Without a type of its own the event keeps the type of the fact.
  rcases r.buildFact_cases (factType.getD old.factType) fields with
    ⟨f, hf, hflat⟩ | ⟨field, raw, hmem, hraw, herr⟩
  · refine Or.inr ⟨?_, ?_⟩
    · rintro ⟨cause, hfault⟩
      cases hfault with
      | updateUnknown h => exact h hid
      | nested hfield h => exact hflat _ _ hfield h
    · have hfacts : (r.session.perform (.update h f)).1.facts =
          (Session.updateAnswer r.session.network r.session.facts h f).1 := hs.facts_perform _
      refine ⟨_, _, ?_,
        hr.finish (.update id factType fields) (.update h f) (r.session.update h f).2 r.ids
        r.lastHandle ⟨old, hold⟩ rfl (fun err herr => Outcome.map_eq_error_iff.mpr herr) ?_
        (fun id' => ?_) ?_ ?_⟩
      · rw [apply_update hhandle hold, hf]
        rfl
      · -- A version that cannot enter is refused, and then the old one stays under the handle.
        rw [hfacts, Session.updateAnswer, hold]
        simp only
        split
        · exact hr.named.set hold f
        · exact hr.named
      · rw [inUse_concat_iff, ← hr.inUse]
        simp
      · rw [hfacts, Session.updateAnswer, hold, hr.last]
        simp only
        split <;> rfl
      · exact (List.append_nil _).symm
  · refine Or.inl ⟨[.convertField (factType.getD old.factType) field], _, .nested hmem hraw, ?_⟩
    rw [apply_update hhandle hold, herr]
    rfl

theorem next_delete (hr : Carried net before r steps) (id : String) :
    Next net before r steps (.delete id) := by
  have hs := hr.addsUp.consistent
  by_cases hid : InUse before id
  swap
  · refine Or.inl ⟨[], _, .deleteUnknown hid, ?_⟩
    simp only [Replay.apply, hr.handle_of_not_inUse hid, bind, Except.bind]
  obtain ⟨h, old, hget, hhandle, hold⟩ := hr.handle_of_inUse hid
  obtain ⟨hfacts, hresult⟩ := Session.delete_of_live hs hold
  refine Or.inr ⟨?_, ?_⟩
  · rintro ⟨cause, hfault⟩
    cases hfault with
    | deleteUnknown h => exact h hid
    | nested hfield h => exact List.not_mem_nil hfield
  · refine ⟨_, _, ?_, hr.finish (.delete id) (.delete h) (r.session.delete h).2 (r.ids.erase id)
      r.lastHandle ⟨old, hold⟩ rfl (fun err herr => Outcome.map_eq_error_iff.mpr herr) ?_
      (fun id' => ?_) ?_ ?_⟩
    · simp only [Replay.apply, hhandle, hresult, bind, Except.bind]
      rfl
    · show (r.session.delete h).1.facts.NamedBy _
      rw [hfacts]
      exact hr.named.drop hget
    · rw [inUse_concat_iff, ← hr.inUse, FiniteMap.get?_erase]
      by_cases hid' : id' = id
      · simp [hid']
      · simp [hid', Ne.symm hid']
    · show r.lastHandle = (r.session.delete h).1.facts.lastIssued
      rw [hfacts, hr.last]
      rfl
    · exact (List.append_nil _).symm

/-- **One event.** If it is malformed the replay fails for its fault; if not, it is carried out. -/
theorem next (hr : Carried net before r steps) (e : Event) : Next net before r steps e := by
  cases e with
  | insert id factType fields => exact hr.next_insert id factType fields
  | update id factType fields => exact hr.next_update id factType fields
  | delete id => exact hr.next_delete id

/-! ## All events -/

/-- **The events one after the other.** The replay fails at the first malformed one; if there is
none, it carries all of them out. -/
theorem run_cases (hr : Carried net before r steps) (events : List Event) :
    (∃ earlier e later contexts cause, events = earlier ++ e :: later ∧ Clean before earlier ∧
        e.Fault (before ++ earlier) cause ∧ r.run (before.length + 1) events =
          .error ⟨.replayEvent ((before ++ earlier).length + 1) e.operation :: contexts, cause⟩) ∨
      (Clean before events ∧ ∃ r' more, r.run (before.length + 1) events = .ok (r', more) ∧
        Carried net (before ++ events) r' (steps ++ more)) := by
  induction events generalizing before r steps with
  | nil =>
      refine Or.inr ⟨clean_nil before, r, [], rfl, ?_⟩
      rw [List.append_nil, List.append_nil]
      exact hr
  | cons e rest ih =>
      rcases hr.next e with ⟨contexts, cause, hfault, herr⟩ | ⟨hwell, r', o, hok, hr'⟩
      · -- The first event is the malformed one.
        refine Or.inl ⟨[], e, rest, contexts, cause, rfl, clean_nil before, ?_, ?_⟩
        · rw [List.append_nil]
          exact hfault
        · rw [Replay.run, herr, List.append_nil]
          rfl
      · have hstep : (before ++ [e]).length + 1 = before.length + 1 + 1 := by
          rw [List.length_append, List.length_singleton]
        rcases ih hr' with ⟨earlier, e', later, contexts, cause, rfl, hclean, hfault, herr⟩ |
          ⟨hclean, r'', more, hrun, hr''⟩
        · refine Or.inl ⟨e :: earlier, e', later, contexts, cause, rfl,
            clean_cons hwell hclean, ?_, ?_⟩
          · rw [show before ++ e :: earlier = before ++ [e] ++ earlier by simp]
            exact hfault
          · rw [hstep] at herr
            rw [Replay.run, hok, show before ++ e :: earlier = before ++ [e] ++ earlier by simp]
            simp only [herr, bind, Except.bind]
        · refine Or.inr ⟨clean_cons hwell hclean, r'', o :: more, ?_, ?_⟩
          · rw [hstep] at hrun
            rw [Replay.run, hok]
            simp only [hrun, bind, Except.bind, pure, Except.pure]
          · rw [show before ++ e :: rest = before ++ [e] ++ rest by simp,
              show steps ++ o :: more = steps ++ [o] ++ more by simp]
            exact hr''

end Carried

theorem carried_nil {net : Network} (hnet : net.WellFormed) :
    Carried net [] (ofNetwork net) [] where
  network := rfl
  addsUp := {
    consistent := hnet.consistent_ofNetwork
    logs := Session.logs_ofNetwork net
    ordered := List.Pairwise.nil
    told := ⟨[], Session.told_ofNetwork net⟩
    nodup := List.nodup_nil
    mem_iff := Session.logs_ofNetwork net }
  named := {
    injective := fun _ _ _ hid => nomatch hid
    live := fun _ => ⟨fun ⟨_, hid⟩ => (nomatch hid), fun ⟨_, hf⟩ => (nomatch hf)⟩ }
  inUse := fun id => ⟨fun ⟨_, hid⟩ => (nomatch hid), fun hid => (not_inUse_nil id hid).elim⟩
  issued := fun _ _ hf => nomatch hf
  last := rfl
  numbered := rfl
  inserted := rfl
  errors := fun _ ho => nomatch ho

end Replay

/-- The report tells of the events: of each one in its place, with the handles of the insertions
counted from one on and with no error but those of a fact that does not fit, and its steps add up to
the activations that it ends with. -/
structure ReplayReport.TellsOf (report : ReplayReport) (events : List Event) : Prop where
  numbered : report.steps.map (fun o => (o.step, o.operation, o.id)) =
    events.mapIdx fun i e => (i + 1, e.operation, e.id)
  inserted : (report.steps.filter (·.operation = "insert")).map (·.handle) =
    List.range' 1 (events.filter (·.operation = "insert")).length
  errors : ∀ o ∈ report.steps, ∀ err, o.error = some err →
    ∃ failure, err = .propagation o.handle failure
  adds_up : (report.steps.foldl StepOutcome.applyTo []).Perm report.active
  ordered : InTupleOrder report.active

namespace Replay

variable {net : Network} {events : List Event} {r : Replay} {steps : List StepOutcome}

theorem Carried.tellsOf (hr : Carried net events r steps) :
    ReplayReport.TellsOf ⟨steps, r.log.active, r.session.statistics⟩ events := by
  have hops : steps.map (·.operation) = events.map Event.operation := by
    have hmap := congrArg (List.map fun t => t.2.1) hr.numbered
    rw [List.map_map] at hmap
    refine hmap.trans (List.ext_getElem? fun i => ?_)
    rw [List.getElem?_map, List.getElem?_mapIdx, Option.map_map, List.getElem?_map]
    rfl
  have hcount : (steps.filter (·.operation = "insert")).length =
      (events.filter (·.operation = "insert")).length := by
    have hlength := congrArg (fun l => (l.filter (· = "insert")).length) hops
    simpa [List.filter_map, Function.comp_def] using hlength
  have hlast := congrArg List.length hr.inserted
  rw [List.length_map, List.length_range', hcount] at hlast
  exact ⟨hr.numbered, hlast ▸ hr.inserted, hr.errors, hr.addsUp.perm, hr.addsUp.ordered⟩

/-- **What a replay does.** Up to any point the identifiers in use name the live facts, each fact by
one identifier, and no step met a handle without a fact. The replay fails iff some event is
malformed where it stands; the failure names the first such event and its fault. If it does not
fail, its report tells of all events. -/
theorem replay_run {rules : List Rule} {schemas : SchemaRegistry} {config : Config}
    (hbuild : Network.build rules schemas config = .ok net) (events : List Event) :
    (∀ before, before <+: events → ∀ r steps, (ofNetwork net).run 1 before = .ok (r, steps) →
      r.session.facts.NamedBy r.ids ∧ (∀ id, (∃ h, r.ids.get? id = some h) ↔ InUse before id) ∧
        ∀ o ∈ steps, ∀ err, o.error = some err → ∃ failure, err = .propagation o.handle failure) ∧
    ((∃ failure, net.replay events = .error failure) ↔
      ∃ before e after, events = before ++ e :: after ∧ e.Malformed before) ∧
    (∀ failure, net.replay events = .error failure →
      ∃ before e after contexts cause, events = before ++ e :: after ∧ Clean [] before ∧
        e.Fault before cause ∧ failure = ⟨.replayEvent (before.length + 1) e.operation :: contexts,
          cause⟩) ∧
    ∀ report, net.replay events = .ok report → report.TellsOf events := by
  have hnil := carried_nil (wellFormed_build hbuild)
  refine ⟨fun before _ r steps hrun => ?_, ?_⟩
  · rcases hnil.run_cases before with ⟨_, _, _, _, _, _, _, _, herr⟩ | ⟨_, r', more, hok, hr⟩
    · rw [List.length_nil, Nat.zero_add, hrun] at herr
      cases herr
    · rw [List.length_nil, Nat.zero_add, hrun] at hok
      cases hok
      rw [List.nil_append, List.nil_append] at hr
      exact ⟨hr.named, hr.inUse, hr.errors⟩
  · rcases hnil.run_cases events with
      ⟨earlier, e, later, contexts, cause, hsplit, hclean, hfault, herr⟩
        | ⟨hclean, r, steps, hok, hr⟩
    · rw [List.nil_append] at hfault herr
      have hfails : net.replay events =
          .error ⟨.replayEvent (earlier.length + 1) e.operation :: contexts, cause⟩ := by
        rw [Network.replay, ← Nat.zero_add 1]
        exact Outcome.bind_eq_error_iff.mpr (Or.inl herr)
      refine ⟨⟨fun _ => ⟨earlier, e, later, hsplit, cause, hfault⟩, fun _ => ⟨_, hfails⟩⟩,
        fun failure hfailure => ?_, fun report hreport => ?_⟩
      · rw [hfails] at hfailure
        cases hfailure
        exact ⟨earlier, e, later, contexts, cause, hsplit, hclean, hfault, rfl⟩
      · rw [hfails] at hreport
        cases hreport
    · rw [List.nil_append, List.nil_append] at hr
      have hdone : net.replay events = .ok ⟨steps, r.log.active, r.session.statistics⟩ := by
        rw [Network.replay, ← Nat.zero_add 1]
        exact Outcome.bind_eq_ok_iff.mpr ⟨_, hok, rfl⟩
      refine ⟨⟨fun ⟨failure, hfailure⟩ => ?_, fun ⟨before, e, after, hsplit, hmalformed⟩ => ?_⟩,
        fun failure hfailure => ?_, fun report hreport => ?_⟩
      · rw [hdone] at hfailure
        cases hfailure
      · exact absurd hmalformed (hclean before e after hsplit)
      · rw [hdone] at hfailure
        cases hfailure
      · rw [hdone] at hreport
        cases hreport
        exact hr.tellsOf

/-- Two orders of one customer; the first is deleted and its identifier used for a third one. -/
def orderEvents : List Event :=
  let fields : NameMap Json := .ofList [("customer", .integer 7), ("total", .integer 1)]
  [.insert "a" "order" fields, .insert "b" "order" fields, .delete "a", .insert "a" "order" fields]

/-- The two orders that are left pair with each other and with themselves. The identifier of a live
order names no other one: there the replay fails. -/
theorem replay_orders :
    ∃ net, Network.build [Session.pairRule] Session.orderSchemas .standard = .ok net ∧
    (∃ report, net.replay orderEvents = .ok report ∧ report.TellsOf orderEvents ∧
      report.active.length = 4) ∧
    ∃ before e after, orderEvents ++ [.insert "b" "order" .empty] = before ++ e :: after ∧
      e.Malformed before := by
  obtain ⟨net, hnet, ⟨report, hreport, hactive⟩, hfails⟩ :
      ∃ net, Network.build [Session.pairRule] Session.orderSchemas .standard = .ok net ∧
        (∃ report, net.replay orderEvents = .ok report ∧ report.active.length = 4) ∧
        ∃ failure, net.replay (orderEvents ++ [.insert "b" "order" .empty]) = .error failure :=
    ⟨_, rfl, ⟨_, rfl, rfl⟩, _, rfl⟩
  obtain ⟨-, -, -, htells⟩ := replay_run hnet orderEvents
  obtain ⟨-, hmalformed, -⟩ := replay_run hnet (orderEvents ++ [.insert "b" "order" .empty])
  exact ⟨net, hnet, ⟨report, hreport, htells report hreport, hactive⟩, hmalformed.mp hfails⟩

end Replay

end RuleMatching
