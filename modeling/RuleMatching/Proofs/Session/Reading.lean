import RuleMatching.Proofs.Network.Acceptance
import RuleMatching.Proofs.Session.Matches
import RuleMatching.Proofs.Session.Searches

set_option autoImplicit false

/-! # What the searches of a call read

A declaration at a position that a match does not have reads as null, without an error. In a network
that was compiled this never happens: a match that waits at a join has a fact for each pattern
before the join, and the tests of the join read none but those (`Search.ReadsWithin`). **A rule set
compiles iff it is admissible, and in no run of its network does a search read beyond the facts of a
match** (`Session.reading_run`). -/

namespace RuleMatching

open Network Propagation

/-- All facts of the match are there, and the tests of the entry read facts of the match only. -/
def Entry.ReadsWithin (ctx : PropagationContext) (e : Entry) (p : Propagation) (x : TupleId) :
    Prop :=
  ∃ bound, tupleFacts ctx p x = .ok bound ∧
    ∀ t ∈ e.condition.tests, t.declaration.pattern < bound.length

/-- The tests of the join read facts of the matches only that the search is about: of the match that
it is made for, or of every match that the fact is tried with. -/
def Search.ReadsWithin : Search → Prop
  | .left ctx e x p => e.ReadsWithin ctx p x
  | .right ctx e _ p => ∀ m, p.joins.get? e.node = some m → ∀ key, ∀ x ∈ m.left.candidates key,
      e.ReadsWithin ctx p x

namespace Propagation

variable {net : Network} {ctx : PropagationContext} {p : Propagation} (hnet : net.WellFormed)

include hnet

/-- **A match that waits at a join has what the join reads.** -/
theorem readsWithin_of_sink (hs : Coherent net ctx.facts p.toMatchState) {before later : List Entry}
    {e : Entry} (hcut : net.Cut ctx.rule before (e :: later)) {x : TupleId} {t : Tuple}
    (hx : p.arena.get? x = some t) (hsink : t.sink = e.node) : e.ReadsWithin ctx p x := by
  have hread := hs.readable_of_sink hnet hx hcut hsink
  refine ⟨_, tupleFacts_eq hread, fun t ht => ?_⟩
  obtain ⟨-, b, hb, -⟩ := (hnet.rule _ hcut.mem).reads before e later hcut.split t ht
  rw [← (factsOf_eq_of_forall₂ hread).2.length_eq]
  exact (List.getElem?_eq_some_iff.mp hb).1

/-! ## A match that is handed on -/

/-- The searches that are made for a new match read within matches. -/
def HandsOnWithin (net : Network) (ctx : PropagationContext) (later : List Entry)
    (searches : TupleId → Propagation → List Search) : Prop :=
  ∀ x t p, Coherent net ctx.facts p.toMatchState → Pending net p x t ctx.rule later →
    ∀ q ∈ searches x p, q.ReadsWithin

theorem eachSearches_readsWithin {before later : List Entry} {e : Entry}
    {next : TupleId → Propagation → Result} {searches : TupleId → Propagation → List Search}
    (hnext : HandsOn net ctx.facts ctx.rule later next)
    (hwithin : HandsOnWithin net ctx later searches) (hcut : net.Cut ctx.rule before (e :: later))
    {α : Type} (pair : α → TupleId × Handle) {l : List α}
    (hs : Coherent net ctx.facts p.toMatchState)
    (hlive : ∀ a ∈ l, ∃ t, p.arena.get? (pair a).1 = some t ∧ t.sink = e.node)
    (hheld : ∀ a ∈ l, p.holds e.node (pair a).2 = true) :
    ∀ q ∈ eachSearches
      (fun a p => extend ctx e.node (ctx.rule.sinkAfter later) next (pair a).1 (pair a).2 p)
      (fun a p => searches p.arena.next (addChild e.node (ctx.rule.sinkAfter later) (pair a).1
        (pair a).2 p))
      l p, q.ReadsWithin := by
  induction l generalizing p with
  | nil => exact List.forall_mem_nil _
  | cons a rest ih =>
      obtain ⟨t, hx, hsink⟩ := hlive a List.mem_cons_self
      have hk := hheld a List.mem_cons_self
      obtain ⟨p', hrun, hgrows⟩ := extend_spec hnet hs hnext hcut hx hsink hk
      intro q hq
      rw [eachSearches, hrun] at hq
      rcases List.mem_append.mp hq with hq | hq
      · exact hwithin _ _ _ ((change_addChild hnet hs hcut hx hsink hk).coherent hnet hs)
          (pending_addChild hnet hs hcut hx hk) q hq
      · refine ih (hgrows.changes.coherent hnet hs) (fun b hb => ?_) (fun b hb => ?_) q hq
        · exact hgrows.live_sink (hlive b (List.mem_cons_of_mem a hb))
        · rw [hgrows.same.holds]
          exact hheld b (List.mem_cons_of_mem a hb)

/-- **The searches for a new match read within matches.** -/
theorem leftSearches_readsWithin {before later : List Entry}
    (hcut : net.Cut ctx.rule before later) :
    HandsOnWithin net ctx later (leftSearches ctx later) := by
  induction later generalizing before with
  | nil => exact fun _ _ _ _ _ => List.forall_mem_nil _
  | cons e later ih =>
      intro x t p hs hpending q hq
      have hx := Arena.get?_newest hs.arena.valid hpending.newest
      have hsink : t.sink = e.node := hpending.sink
      have he := hs.join_of_sink hnet hx hcut hsink
      obtain ⟨m, l, left, hm, hstore, -⟩ :=
        hs.storeLeft hnet he hpending.newest hsink hpending.unstored
      rw [leftSearches, leftMatches_eq hnet hs rfl hcut he hx hsink hm] at hq
      simp only [hstore] at hq
      rcases List.mem_cons.mp hq with rfl | hq
      · exact readsWithin_of_sink hnet hs hcut hx hsink
      · have hchange := Change.storeLeft he hpending.newest hsink hpending.unstored hstore
        refine eachSearches_readsWithin hnet (leftInsert_spec hnet rfl hcut.next)
          (ih hcut.next) hcut (fun k => (x, k)) (hchange.coherent hnet hs)
          (fun k _ => ⟨_, get?_stored hs hpending rfl, hsink⟩) (fun k hk => ?_) q hq
        exact holds_putLeft hnet hs he hm x l left (List.mem_of_mem_filter hk)

/-! ## A fact that enters -/

theorem rootSearches_readsWithin (hr : ctx.rule ∈ net.rules)
    (hs : Coherent net ctx.facts p.toMatchState) {h : Handle}
    (hread : Readable ctx.facts ctx.rule.first h) (hnot : p.holds ctx.rule.first.node h = false) :
    ∀ q ∈ rootSearches ctx ctx.rule.first ctx.rule.joins h p, q.ReadsWithin := by
  obtain ⟨m, -, hm, hnew, hchange, -⟩ := assertRoot_eq ctx hnet rfl hr hs hread hnot
  have hcontains : m.roots.contains h = false := (FiniteMap.contains_eq_false_iff _ _).mpr hnew
  intro q hq
  rw [rootSearches, hm] at hq
  simp only [hcontains, Bool.false_eq_true, if_false] at hq
  exact leftSearches_readsWithin hnet (Cut.first hr).next _ _ _ (hchange.coherent hnet hs)
    (pending_addRoot hnet hs hr hm h) q hq

theorem rightSearches_readsWithin {before later : List Entry} {e : Entry}
    (hcut : net.Cut ctx.rule before (e :: later)) (he : e ∈ net.allJoins)
    (hs : Sound net ctx.facts p.toMatchState) {h : Handle} (hread : Readable ctx.facts e h)
    (hnot : p.holds e.node h = false) : ∀ q ∈ rightSearches ctx e later h p, q.ReadsWithin := by
  obtain ⟨m, hm, -⟩ := hs.coherent.joins.at_site e he
  have hnew := hs.coherent.rightEntry_eq_none hnet he hm hnot
  have hmade := hs.madeBy_eq_nil hnet he hnot
  obtain ⟨l, right, hstore, -⟩ := hs.coherent.storeRight hnet he hread hm hnew hmade
  have hchange := Change.storeRight he hread hm hnew hmade hstore
  have hwaits : ∀ x ∈ p.arena.storedAt e.node, ∃ t, p.arena.get? x = some t ∧ t.sink = e.node := by
    intro x hx
    obtain ⟨t, -, ht, hsink, -⟩ := (Arena.mem_storedAt hs.coherent.arena.valid).mp hx
    exact ⟨t, ht, hsink⟩
  intro q hq
  rw [rightSearches, rightMatches_eq hnet hs.coherent rfl hcut he hread hm hnew] at hq
  simp only [hstore] at hq
  rcases List.mem_cons.mp hq with rfl | hq
  · intro m' hm' key x hx
    have hfits := hs.coherent.joins.fits_of_get? he hm'
    obtain ⟨t, ht, hsink⟩ := hwaits x (hfits.left.holds.mem_of_candidates hx)
    exact readsWithin_of_sink hnet hs.coherent hcut ht hsink
  · exact eachSearches_readsWithin hnet (leftInsert_spec hnet rfl hcut.next)
      (leftSearches_readsWithin hnet hcut.next) hcut (fun x => (x, h))
        (hchange.coherent hnet hs.coherent)
      (fun x hx => hwaits x (List.mem_filter.mp hx).1)
      (fun x _ => (holds_putRight hnet hs.coherent he hm h l right _ _).mpr (Or.inr ⟨rfl, rfl⟩))
      q hq

/-- **The searches with which a fact enters at one entry read within matches.** -/
theorem atEntries_readsWithin : AtEntries net Search.ReadsWithin := by
  intro facts p n place h f hs hplace hf hcheck hnot
  obtain ⟨rfl, before, hcut⟩ := WellFormed.cut_of_place? hplace
  have hok : tryReads f place.entry.reads = .ok () := by
    rw [← hnet.checkEntry_eq (mem_allEntries_iff.mpr ⟨_, _, _, hcut⟩)]
    exact hcheck
  have hread : Readable facts place.entry h := ⟨f, hf, hok⟩
  have hfact : fact ⟨facts, h, place.rule⟩ h = .ok f := fact_eq hf
  unfold assertSearches
  simp only [hfact, hok]
  rcases hnet.first_or_join hcut with ⟨hpos, hfirst, hlater⟩ | ⟨hpos, he⟩
  · rw [if_pos hpos, ← hfirst, ← hlater]
    rw [← hfirst] at hread hnot
    exact rootSearches_readsWithin hnet hcut.mem hs.coherent hread hnot
  · rw [if_neg hpos]
    exact rightSearches_readsWithin hnet hcut he hs hread hnot

end Propagation

namespace Session

/-- **Which rule sets compile, and what their joins read.** A rule set compiles iff it is
admissible. The tests of its joins are then those of the clauses, each reads the fact of an earlier
pattern, as the schema of this pattern declares it, and in no run does a search read beyond the
facts of a match. -/
theorem reading_run (rules : List Rule) (schemas : SchemaRegistry) (config : Config) :
    ((∃ net, Network.build rules schemas config = .ok net) ↔ Admissible rules schemas config) ∧
    ∀ net, Network.build rules schemas config = .ok net → net.rules.length = rules.length ∧
      (∀ (k : Nat) r, net.rules[k]? = some r → ∃ rule, rules[k]? = some rule ∧
        CarriesOut schemas rule r) ∧
      ∀ calls c, ∀ q ∈ ((ofNetwork net).run calls).1.searches c, q.ReadsWithin := by
  refine ⟨exists_build_iff, fun net hbuild => ⟨length_rules_build hbuild,
    fun k r => carriesOut_build hbuild k, fun calls c => ?_⟩⟩
  obtain ⟨-, hs, -⟩ := run_ofNetwork (wellFormed_build hbuild) calls
  exact hs.forall_searches (atEntries_readsWithin hs.network) c

/-- A rule whose pattern refers to its own fact. -/
def selfRule : Rule := ⟨"self", [⟨"order", some "a", [.join "total" .equal "a" "customer"]⟩]⟩

/-- The rule of `pairRule` is admissible, and a third order is tried with the two that are there. A
pattern cannot refer to its own fact. -/
theorem reading_orders : Admissible [pairRule] orderSchemas .standard ∧
    (∃ net, Network.build [pairRule] orderSchemas .standard = .ok net ∧
      let searches := ((ofNetwork net).run orderCalls).1.searches (.insert (order 7 4))
      searches.length = 2 ∧ ∀ q ∈ searches, q.ReadsWithin) ∧
    ¬ Admissible [selfRule] orderSchemas .standard := by
  obtain ⟨net, hnet, hlength⟩ : ∃ net, Network.build [pairRule] orderSchemas .standard = .ok net ∧
      (((ofNetwork net).run orderCalls).1.searches (.insert (order 7 4))).length = 2 :=
        ⟨_, rfl, rfl⟩
  have hself : Network.build [selfRule] orderSchemas .standard =
    .error (.unboundDeclaration "self" 0 "a") := rfl
  obtain ⟨hiff, hruns⟩ := reading_run [pairRule] orderSchemas .standard
  obtain ⟨-, -, hreads⟩ := hruns net hnet
  refine ⟨hiff.mp ⟨net, hnet⟩, ⟨net, hnet, hlength, hreads orderCalls _⟩, fun hadmissible => ?_⟩
  obtain ⟨net', hnet'⟩ := (reading_run [selfRule] orderSchemas .standard).1.mpr hadmissible
  rw [hself] at hnet'
  cases hnet'

end Session

end RuleMatching
