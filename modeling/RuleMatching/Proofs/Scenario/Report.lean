import RuleMatching.Proofs.Scenario.Replay
import RuleMatching.Proofs.Session.Refusals
import RuleMatching.Scenario.Report

set_option autoImplicit false

/-! # What the text of a report announces

A report is given as a text and as a document. The document lists the changes of every step, and the
matches can be read back from it (`StepOutcome.activations_toJson`). The line of a step has a mark
for each of them, but the line of a step that fails has its error instead. An update or a deletion
that fails changes nothing, so no mark is missing there. An insertion that fails may have brought
about matches before it did, which stay. **So a match in force at the end was announced, or else it
came with an insertion that failed** (`Network.replay_tells`). -/

namespace RuleMatching

open Scenario

/-! ## Documents of changes -/

namespace Json

/-- The natural number that a document is. -/
def nat? : Json → Option Nat
  | number (.integer n) => n.toNat?
  | _ => none

/-- The text that a document is. -/
def string? : Json → Option String
  | string s => some s
  | _ => none

theorem mapM_nat? (l : List Nat) : (l.map nat).mapM nat? = some l := by
  induction l with
  | nil => rfl
  | cons n rest ih =>
      rw [List.map_cons, List.mapM_cons, ih]
      rfl

end Json

/-- Reads a match from its document. -/
def Activation.ofJson? (doc : Json) : Option Activation := do
  let rule ← (← doc.member? "rule").nat?
  let ruleName ← (← doc.member? "rule_name").string?
  let tuple ← doc.member? "tuple"
  let index ← (← tuple.member? "index").nat?
  let generation ← (← tuple.member? "generation").nat?
  let facts ← (← doc.member? "facts").items.mapM Json.nat?
  return ⟨rule, ruleName, ⟨index, generation⟩, facts⟩

theorem Activation.ofJson?_toJson (a : Activation) : ofJson? a.toJson = some a := by
  have hfacts := Json.mapM_nat? a.facts
  simp only [ofJson?, toJson, Json.member?]
  show ((a.facts.map Json.nat).mapM Json.nat?).bind _ = _
  rw [hfacts]
  rfl

/-- The matches that a document lists under a name. -/
def Json.activations (doc : Json) (name : String) : List Activation :=
  ((doc.member? name).map Json.items).getD [] |>.filterMap Activation.ofJson?

namespace StepOutcome

variable {o : StepOutcome}

/-- **The document of a step has its changes.** -/
theorem activations_toJson (o : StepOutcome) :
    o.toJson.activations "activated" = o.activated ∧
    o.toJson.activations "deactivated" = o.deactivated := by
  have hall : ∀ l : List Activation,
      (l.map Activation.toJson).filterMap Activation.ofJson? = l := by
    intro l
    rw [List.filterMap_map]
    simp [Activation.ofJson?_toJson]
  unfold toJson Json.activations
  cases o.error with
  | none => exact ⟨hall _, hall _⟩
  | some e => exact ⟨hall _, hall _⟩

/-! ## Lines -/

/-- What the line of a step begins with. -/
def heading (o : StepOutcome) : String :=
  "[" ++ toString o.step ++ "] " ++ o.operation ++ " " ++ o.id ++ " (" ++
    Handle.display o.handle ++ "):"

/-- The marks of some changes, those of the matches that end first. -/
def marksOf (deactivated activated : List Activation) : List String :=
  deactivated.map (fun a => " -" ++ a.display) ++ activated.map fun a => " +" ++ a.display

/-- The marks of the changes that a document lists. -/
def marksIn (doc : Json) : List String :=
  marksOf (doc.activations "deactivated") (doc.activations "activated")

theorem marksIn_toJson (o : StepOutcome) :
    marksIn o.toJson = marksOf o.deactivated o.activated := by
  rw [marksIn, o.activations_toJson.1, o.activations_toJson.2]

/-- **The line of a step that succeeds has the marks of the changes in its document.** -/
theorem line_of_ok (h : o.error = none) :
    o.line = o.heading ++
      if marksIn o.toJson = [] then " no change" else String.join (marksIn o.toJson) := by
  have hmarks : o.changes =
      if marksIn o.toJson = [] then " no change" else String.join (marksIn o.toJson) := by
    rw [marksIn_toJson]
    simp only [changes, marksOf, Bool.and_eq_true, List.isEmpty_iff, List.append_eq_nil_iff,
      List.map_eq_nil_iff, String.join_append]
    simp only [and_comm]
  rw [line, h, ← hmarks]
  rfl

/-- The line of a step that fails has the error. -/
theorem line_of_error {err : EngineError} (h : o.error = some err) :
    o.line = o.heading ++ (" error: " ++ err.message) := by
  rw [line, h]
  rfl

end StepOutcome

/-! ## Announcements -/

/-- The match is announced in the text. -/
def Announces (text : String) (a : Activation) : Prop := (" +" ++ a.display).toList <:+: text.toList

instance (text : String) (a : Activation) : Decidable (Announces text a) :=
  inferInstanceAs (Decidable (_ <:+: _))

/-- What is joined is part of the whole. -/
theorem isInfix_join {s : String} {l : List String} (h : s ∈ l) :
    s.toList <:+: (String.join l).toList := by
  obtain ⟨before, after, rfl⟩ := List.append_of_mem h
  rw [String.toList_join, List.flatMap_append, List.flatMap_cons, ← List.append_assoc]
  exact ⟨_, _, rfl⟩

/-- The line of a step that succeeds announces the matches that it brings about. -/
theorem StepOutcome.announces_line {o : StepOutcome} (h : o.error = none) {a : Activation}
    (ha : a ∈ o.activated) : Announces o.line a := by
  have hmark : " +" ++ a.display ∈ marksIn o.toJson := by
    rw [marksIn_toJson]
    exact List.mem_append_right _ (List.mem_map_of_mem ha)
  have hline : (String.join (marksIn o.toJson)).toList <:+: o.line.toList := by
    rw [line_of_ok h, if_neg (List.ne_nil_of_mem hmark), String.toList_append]
    exact (List.suffix_append o.heading.toList _).isInfix
  exact (isInfix_join hmark).trans hline

namespace ReplayReport

/-- The lines of the steps, with which the text begins. -/
def story (report : ReplayReport) : String := String.join (report.steps.map fun o => o.line ++ "\n")

theorem text_eq (report : ReplayReport) :
    ∃ rest, report.text = report.story ++ ("\nActive matches: " ++ rest) := by
  refine ⟨toString report.active.length ++ "\n" ++
    String.join (report.active.map fun a => "  " ++ a.display ++ "\n") ++
    "\n" ++ report.statistics.report, ?_⟩
  simp only [text, story, String.append_assoc]

/-- What the line of a step announces is announced in the story. -/
theorem announces_story {report : ReplayReport} {o : StepOutcome} (ho : o ∈ report.steps)
    {a : Activation} (h : Announces o.line a) : Announces report.story a := by
  have hline : o.line.toList <:+: (o.line ++ "\n").toList := by
    rw [String.toList_append]
    exact (List.prefix_append _ _).isInfix
  exact (h.trans hline).trans
    (isInfix_join (List.mem_map_of_mem (f := fun o : StepOutcome => o.line ++ "\n") ho))

end ReplayReport

/-! ## Steps that fail -/

/-- A refused update or deletion has no events. -/
theorem Session.events_of_refused {s : Session} (hs : s.Consistent) {c : Call} {err : EngineError}
    (hresult : (s.perform c).2.result = .error err) (hc : c.isInsertion = false) :
    (s.perform c).2.events = [] := by
  cases c with
  | insert f => cases hc
  | insertAt h f => cases hc
  | update h f =>
      show (s.update h f).2.events = []
      rw [update_refused hs (Outcome.map_eq_error_iff.mp hresult)]
  | delete h =>
      show (s.delete h).2.events = []
      rw [delete_refused hs (Outcome.map_eq_error_iff.mp hresult)]

/-- If the step fails, it ends no match, and it brings about matches only if it is an insertion. -/
def StepOutcome.FailsSafely (o : StepOutcome) : Prop :=
  o.error ≠ none → o.deactivated = [] ∧ (o.operation ≠ "insert" → o.activated = [])

namespace Replay

variable {r r' : Replay} {o : StepOutcome} {c : Call}

/-- The outcome is that of a call of the session. -/
structure Makes (r r' : Replay) (o : StepOutcome) (c : Call) : Prop where
  session : r'.session = (r.session.perform c).1
  activated : o.activated = Replay.activated (r.session.perform c).2.events
  deactivated : o.deactivated = Replay.deactivated (r.session.perform c).2.events
  error : ∀ err, o.error = some err → (r.session.perform c).2.result = .error err
  isInsertion_iff : c.isInsertion = true ↔ o.operation = "insert"

theorem makes_finish {α : Type} {s : Session} {reply : Reply α} {g : α → Answer}
    (hc : r.session.perform c = (s, reply.map g)) {e : Event}
    (he : c.isInsertion = true ↔ e.operation = "insert") (step : Nat) (h : Handle) :
    Makes r (r'.finish step e h s reply).1 (r'.finish step e h s reply).2 c := by
  refine ⟨by rw [hc]; rfl, by rw [hc]; rfl, by rw [hc]; rfl, fun err herr => ?_, he⟩
  rw [hc]
  unfold finish at herr
  show reply.result.map g = .error err
  cases hresult : reply.result with
  | ok a =>
      rw [hresult] at herr
      cases herr
  | error err' =>
      rw [hresult] at herr
      cases herr
      rfl

/-- **An event becomes a call of the session.** -/
theorem makes_apply {step : Nat} {e : Event} (h : r.apply step e = .ok (r', o)) :
    ∃ c, Makes r r' o c := by
  cases e with
  | insert id factType fields =>
      simp only [apply] at h
      split at h
      · cases h
      · obtain ⟨f, -, h⟩ := Outcome.bind_eq_ok_iff.mp h
        cases h
        exact ⟨.insertAt (r.lastHandle + 1) f, makes_finish rfl (iff_of_true rfl rfl) ..⟩
  | update id factType fields =>
      simp only [apply] at h
      obtain ⟨k, -, h⟩ := Outcome.bind_eq_ok_iff.mp h
      -- Whether the event or the old version tells the type, the rest is the same.
      have hrest : ∃ t, (do
          let f ← r.buildFact t fields
          return r.finish step (.update id factType fields) k (r.session.update k f).1
            (r.session.update k f).2) =
            .ok (r', o) := by
        split at h
        · exact ⟨_, h⟩
        · exact ⟨_, h⟩
        · cases h
      obtain ⟨t, h⟩ := hrest
      obtain ⟨f, -, h⟩ := Outcome.bind_eq_ok_iff.mp h
      cases h
      exact ⟨.update k f,
        makes_finish (c := .update k f) rfl (by simp [Call.isInsertion, Event.operation]) ..⟩
  | delete id =>
      simp only [apply] at h
      obtain ⟨k, -, h⟩ := Outcome.bind_eq_ok_iff.mp h
      cases h
      exact ⟨.delete k,
        makes_finish (c := .delete k) rfl (by simp [Call.isInsertion, Event.operation]) ..⟩

theorem Makes.failsSafely (h : Makes r r' o c) (hs : r.session.Consistent)
    {stream : List ActivationEvent} (ht : r.session.Told stream) : o.FailsSafely := by
  intro hfails
  obtain ⟨err, herr⟩ := Option.ne_none_iff_exists'.mp hfails
  cases hc : c.isInsertion with
  | true =>
      obtain ⟨gone, come, hevents, -, hgone, -⟩ := Session.told_perform hs ht c
      refine ⟨?_, fun hop => absurd (h.isInsertion_iff.mp hc) hop⟩
      rw [h.deactivated, hevents, deactivated_turnover, hgone hc]
  | false =>
      rw [h.activated, h.deactivated, Session.events_of_refused hs (h.error err herr) hc]
      exact ⟨rfl, fun _ => rfl⟩

/-- **No step of a replay fails but safely.** -/
theorem failsSafely_run {step : Nat} {events : List Event} {steps : List StepOutcome}
    {stream : List ActivationEvent} (hs : r.session.Consistent) (ht : r.session.Told stream)
    (h : r.run step events = .ok (r', steps)) : ∀ o ∈ steps, o.FailsSafely := by
  induction events generalizing r step steps stream with
  | nil =>
      cases h
      exact fun o ho => absurd ho List.not_mem_nil
  | cons e rest ih =>
      rw [run] at h
      split at h
      · cases h
      · next r₁ o₁ happly =>
        obtain ⟨⟨r₂, more⟩, hmore, h⟩ := Outcome.bind_eq_ok_iff.mp h
        cases h
        obtain ⟨c, hmakes⟩ := makes_apply happly
        obtain ⟨gone, come, -, htold, -⟩ := Session.told_perform hs ht c
        obtain ⟨hadvances, -⟩ := Session.perform_spec hs c
        rw [← hmakes.session] at htold hadvances
        exact List.forall_mem_cons.mpr ⟨hmakes.failsSafely hs ht,
          ih hadvances.consistent htold hmore⟩

end Replay

/-- What the steps add up to came with one of them. -/
theorem StepOutcome.mem_activated_of_mem_foldl {steps : List StepOutcome} {active : List Activation}
    {a : Activation} (h : a ∈ steps.foldl StepOutcome.applyTo active) :
    a ∈ active ∨ ∃ o ∈ steps, a ∈ o.activated := by
  induction steps generalizing active with
  | nil => exact Or.inl h
  | cons o rest ih =>
      rcases ih h with h | ⟨o', ho', ha⟩
      · rcases List.mem_append.mp h with h | h
        · exact Or.inl (List.mem_filter.mp h).1
        · exact Or.inr ⟨o, List.mem_cons_self, h⟩
      · exact Or.inr ⟨o', List.mem_cons_of_mem o ho', ha⟩

/-- What the text of the report tells of the changes that its document lists. -/
structure ReplayReport.TextTells (report : ReplayReport) : Prop where
  /-- The lines of the steps come first. -/
  begins : ∃ rest, report.text = report.story ++ ("\nActive matches: " ++ rest)
  /-- The line of a step that succeeds has all its changes. -/
  of_ok : ∀ o ∈ report.steps, o.error = none → o.line = o.heading ++
    if StepOutcome.marksIn o.toJson = [] then " no change"
    else String.join (StepOutcome.marksIn o.toJson)
  /-- The line of a step that fails has the error. -/
  of_error : ∀ o ∈ report.steps, ∀ err, o.error = some err →
    o.line = o.heading ++ (" error: " ++ err.message)
  fails_safely : ∀ o ∈ report.steps, o.FailsSafely
  /-- A match in force at the end was announced, or it came with an insertion that failed. -/
  announced : ∀ a ∈ report.active, ∃ o ∈ report.steps, a ∈ o.activated ∧
    (o.error = none ∧ Announces o.line a ∨ o.error ≠ none ∧ o.operation = "insert")
  /-- All is told if no step that fails brings about a match. -/
  complete : (∀ o ∈ report.steps, o.error ≠ none → o.activated = []) →
    (∀ o ∈ report.steps, o.error ≠ none → StepOutcome.marksIn o.toJson = []) ∧
      ∀ a ∈ report.active, Announces report.story a

theorem ReplayReport.textTells_of_failsSafely {report : ReplayReport}
    (hfails : ∀ o ∈ report.steps, o.FailsSafely)
    (hadds : (report.steps.foldl StepOutcome.applyTo []).Perm report.active) :
    report.TextTells := by
  have hcame : ∀ a ∈ report.active, ∃ o ∈ report.steps, a ∈ o.activated := by
    intro a ha
    rcases StepOutcome.mem_activated_of_mem_foldl (hadds.mem_iff.mpr ha) with h | h
    · exact absurd h List.not_mem_nil
    · exact h
  refine ⟨report.text_eq, fun o _ => StepOutcome.line_of_ok,
    fun o _ err => StepOutcome.line_of_error, hfails, fun a ha => ?_,
    fun hnone => ⟨fun o ho herr => ?_, fun a ha => ?_⟩⟩
  · -- A step that failed may have activated on the way, but only an insertion does.
    obtain ⟨o, ho, hact⟩ := hcame a ha
    refine ⟨o, ho, hact, ?_⟩
    by_cases herr : o.error = none
    · exact Or.inl ⟨herr, o.announces_line herr hact⟩
    · refine Or.inr ⟨herr, ?_⟩
      by_contra hop
      rw [(hfails o ho herr).2 hop] at hact
      cases hact
  · rw [StepOutcome.marksIn_toJson, (hfails o ho herr).1, hnone o ho herr]
    rfl
  · obtain ⟨o, ho, hact⟩ := hcame a ha
    have herr : o.error = none := by
      by_contra herr
      rw [hnone o ho herr] at hact
      cases hact
    exact announces_story ho (o.announces_line herr hact)

namespace Network

/-- **What the text of a report tells.** The line of a step that succeeds has the changes that the
document of the step lists, and announces the matches that the step brings about. The line of a step
that fails has the error alone. So the text tells all changes and announces all matches in force at
the end, if no insertion that fails brings about a match; for other steps that fail do not. -/
theorem replay_tells {rules : List Rule} {schemas : SchemaRegistry} {config : Config}
    {net : Network} (hbuild : build rules schemas config = .ok net) {events : List Event}
    {report : ReplayReport} (hreport : net.replay events = .ok report) : report.TextTells := by
  have hnet := wellFormed_build hbuild
  obtain ⟨⟨r, steps⟩, hrun, hdone⟩ := Outcome.bind_eq_ok_iff.mp hreport
  cases hdone
  have hfails := Replay.failsSafely_run hnet.consistent_ofNetwork (Session.told_ofNetwork net) hrun
  refine ReplayReport.textTells_of_failsSafely hfails ?_
  rcases (Replay.carried_nil hnet).run_cases events with
    ⟨_, _, _, _, _, _, _, _, herr⟩ | ⟨-, r', more, hok, hr⟩
  · rw [List.length_nil, Nat.zero_add, hrun] at herr
    cases herr
  · rw [List.length_nil, Nat.zero_add, hrun] at hok
    cases hok
    exact hr.tellsOf.adds_up

/-- Of the orders of one customer all four pairs are announced. -/
theorem replay_tells_orders :
    ∃ net report, build [Session.pairRule] Session.orderSchemas .standard = .ok net ∧
    net.replay Replay.orderEvents = .ok report ∧ report.active.length = 4 ∧
    ∀ a ∈ report.active, Announces report.story a := by
  obtain ⟨net, hnet, report, hreport, hactive, hsteps⟩ :
      ∃ net, build [Session.pairRule] Session.orderSchemas .standard = .ok net ∧
        ∃ report, net.replay Replay.orderEvents = .ok report ∧ report.active.length = 4 ∧
          (report.steps.all fun o => o.error.isNone) = true :=
    ⟨_, rfl, _, rfl, rfl, rfl⟩
  have htells := replay_tells hnet hreport
  refine ⟨net, report, hnet, hreport, hactive, (htells.complete fun o ho herr => ?_).2⟩
  exact absurd (Option.isNone_iff_eq_none.mp (List.all_eq_true.mp hsteps o ho)) herr

/-- A rule for every order. -/
def everyOrder : Rule := ⟨"every", [⟨"order", none, []⟩]⟩

/-- An order with a customer that no join can read. -/
def unreadableEvents : List Event :=
  [.insert "a" "order" (.ofList [("customer", .string "unknown"), ("total", .integer 1)])]

/-- The text of a report does not announce all matches. The order comes into force with
the first rule before the join of the second cannot read it. The line of the step has the
error and no mark. -/
theorem replay_unannounced :
    ¬ ∀ (rules : List Rule) (schemas : SchemaRegistry) (config : Config) (net : Network)
      (events : List Event) (report : ReplayReport), build rules schemas config = .ok net →
      net.replay events = .ok report →
      (∀ o ∈ report.steps, ∀ a ∈ o.activated, Announces o.line a) ∧
        ∀ a ∈ report.active, Announces report.story a := by
  intro hall
  obtain ⟨net, hnet, report, hreport, hmissing⟩ :
      ∃ net, build [everyOrder, Session.pairRule] Session.orderSchemas .standard = .ok net ∧
        ∃ report, net.replay unreadableEvents = .ok report ∧
          (report.active.all fun a => Announces report.story a) = false :=
    ⟨_, rfl, _, rfl, by decide +kernel⟩
  have hannounced := (hall _ _ _ net _ report hnet hreport).2
  rw [List.all_eq_false] at hmissing
  obtain ⟨a, ha, hnot⟩ := hmissing
  exact hnot (decide_eq_true (hannounced a ha))

end Network

end RuleMatching
