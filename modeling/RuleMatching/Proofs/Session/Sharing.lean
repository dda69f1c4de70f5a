import RuleMatching.Proofs.Session.Course
import RuleMatching.Proofs.Session.Matches

set_option autoImplicit false

/-! # Sessions of twin networks

Two sessions of twin networks are in tandem if they have the same facts and their states mirror each
other (`InTandem`). A call makes its fact leave and enter at the same places of both networks, so
**sessions in tandem stay in tandem and answer alike** (`InTandem.perform`), except that an update
that is refused may name another node, and another insertion may fail halfway at another place.
Hence as long as no insertion fails, **nobody can see whether patterns share tests**
(`Session.sharing_run`). -/

namespace RuleMatching

open Network Session

/-! ## Replies -/

/-- Some event tells that a match of the rule has come about. -/
def Activates (events : List ActivationEvent) (rule : String) (l : List Handle) : Prop :=
  ∃ act, .activated act ∈ events ∧ act.ruleName = rule ∧ act.facts = l

/-- Some event tells that a match of the rule has ended. -/
def Deactivates (events : List ActivationEvent) (rule : String) (l : List Handle) : Prop :=
  ∃ act, .deactivated act ∈ events ∧ act.ruleName = rule ∧ act.facts = l

/-- The same outcome, but for the node at which a fact could not pass. -/
def SameOutcome {α : Type} (r r' : Except EngineError α) : Prop :=
  r' = r ∨ ∃ h failure failure', r = .error (.propagation h failure) ∧
    r' = .error (.propagation h failure')

theorem SameOutcome.map {α β : Type} {r r' : Except EngineError α} (h : SameOutcome r r')
    (g : α → β) : SameOutcome (r.map g) (r'.map g) := by
  rcases h with rfl | ⟨k, failure, failure', rfl, rfl⟩
  · exact Or.inl rfl
  · exact Or.inr ⟨k, failure, failure', rfl, rfl⟩

theorem SameOutcome.refused {reply reply' : Reply Answer}
    (h : SameOutcome reply.result reply'.result) (hrefused : reply'.Refused) : reply.Refused := by
  obtain ⟨k, failure, heq⟩ := hrefused
  rcases h with hsame | ⟨j, failure', -, heq', -⟩
  · exact ⟨k, failure, hsame ▸ heq⟩
  · exact ⟨j, failure', heq'⟩

/-- A call has the same outcome, and it ends and brings about the same matches. -/
structure SameReply (reply reply' : Reply Answer) : Prop where
  outcome : SameOutcome reply.result reply'.result
  activates : ∀ rule l, Activates reply'.events rule l ↔ Activates reply.events rule l
  deactivates : ∀ rule l, Deactivates reply'.events rule l ↔ Deactivates reply.events rule l

theorem activates_turnover (gone come : List Activation) (rule : String) (l : List Handle) :
    Activates (turnover gone come) rule l ↔ ∃ act, act ∈ come ∧ act.ruleName = rule ∧
    act.facts = l := by
  simp [Activates, turnover]

theorem deactivates_turnover (gone come : List Activation) (rule : String) (l : List Handle) :
    Deactivates (turnover gone come) rule l ↔ ∃ act, act ∈ gone ∧ act.ruleName = rule ∧
    act.facts = l := by
  simp [Deactivates, turnover]

/-! ## Where facts go in twin networks -/

namespace Network.Twins

variable {net net' : Network} (h : net.Twins net')

include h

/-- A fact can enter both networks or neither. -/
theorem entering_ok (k : Handle) (f : Fact) :
    net'.entering k f = .ok () ↔ net.entering k f = .ok () := by
  have himp : ∀ {a b : Network}, a.Twins b → a.entering k f = .ok () → b.entering k f = .ok () := by
    intro a b hab ha
    obtain ⟨l, hm, hcheck⟩ := entering_eq_ok_iff.mp ha
    obtain ⟨l', hm'⟩ := hab.matchingEntries_ok hm
    exact entering_eq_ok_iff.mpr ⟨l', hm', hab.checkEntries_ok hm hm' hcheck⟩
  exact ⟨himp h.symm, himp h⟩

theorem entering (k : Handle) (f : Fact) : SameOutcome (net.entering k f) (net'.entering k f) := by
  cases henter : net.entering k f with
  | ok u => exact Or.inl ((h.entering_ok k f).mpr henter)
  | error err =>
      cases henter' : net'.entering k f with
      | ok u =>
          rw [(h.entering_ok k f).mp henter'] at henter
          cases henter
      | error err' =>
          obtain ⟨failure, rfl, -⟩ := entering_eq_error_iff.mp henter
          obtain ⟨failure', rfl, -⟩ := entering_eq_error_iff.mp henter'
          exact Or.inr ⟨k, failure, failure', rfl, rfl⟩

/-- **What becomes of the facts in a call, and what it answers.** -/
theorem answer (facts : FactStore) (c : Call) :
    (Session.answer net' facts c).1 = (Session.answer net facts c).1 ∧
      SameOutcome (Session.answer net facts c).2 (Session.answer net' facts c).2 := by
  have hinsert : ∀ k f, (insertAnswer net' facts k f).1 = (insertAnswer net facts k f).1 ∧
      SameOutcome (insertAnswer net facts k f).2 (insertAnswer net' facts k f).2 := by
    intro k f
    unfold insertAnswer
    cases facts.insert k f with
    | error cause => exact ⟨rfl, Or.inl rfl⟩
    | ok facts' => exact ⟨rfl, h.entering k f⟩
  cases c with
  | insert f => exact ⟨(hinsert _ f).1, (hinsert _ f).2.map _⟩
  | insertAt k f => exact ⟨(hinsert k f).1, (hinsert k f).2.map _⟩
  | update k f =>
      simp only [Session.answer, updateAnswer]
      cases facts.get? k with
      | none => exact ⟨rfl, Or.inl rfl⟩
      | some old =>
          rcases h.entering k f with heq | ⟨j, failure, failure', heq, heq'⟩
          · simp only [heq]
            exact ⟨trivial, Or.inl rfl⟩
          · simp only [heq, heq']
            exact ⟨trivial, Or.inr ⟨j, failure, failure', rfl, rfl⟩⟩
  | delete k => exact ⟨rfl, Or.inl rfl⟩

section Place

variable {r r' : CompiledRule} {before later before' later' : List Entry} {e e' : Entry}
  (hplace : net.SamePlace net' r before (e :: later) r' before' (e' :: later'))

include hplace

theorem receives_iff (f : Fact) : net'.Receives f e'.node ↔ net.Receives f e.node := by
  constructor
  · rintro ⟨l', hm', hcheck', hn⟩
    obtain ⟨l, hm⟩ := h.symm.matchingEntries_ok hm'
    exact ⟨l, hm, h.symm.checkEntries_ok hm' hm hcheck', (h.reached hplace hm hm').mp hn⟩
  · rintro ⟨l, hm, hcheck, hn⟩
    obtain ⟨l', hm'⟩ := h.matchingEntries_ok hm
    exact ⟨l', hm', h.checkEntries_ok hm hm' hcheck, (h.reached hplace hm hm').mpr hn⟩

/-- An update passes by the same places. -/
theorem passesBy_eq (old new : Fact) :
    passesBy net' old new e'.node = passesBy net old new e.node := by
  have haffected : ∀ changed, net'.isAffected e'.node changed = net.isAffected e.node changed := by
    intro changed
    rw [isAffected, isAffected,
      h.wellFormed.entry?_eq (mem_allEntries_iff.mpr ⟨r, before, later, hplace.cut⟩),
      h.wellFormed'.entry?_eq (mem_allEntries_iff.mpr ⟨r', before', later', hplace.cut'⟩)]
    exact hplace.entry.any_reads changed
  rw [passesBy, passesBy, haffected, h.skipUnaffected]

end Place

end Network.Twins

/-! ## Sessions in tandem -/

/-- The sessions are of twin networks and have the same facts, and their states
mirror each other. -/
structure InTandem (s s' : Session) : Prop where
  twins : s.network.Twins s'.network
  consistent : s.Consistent
  consistent' : s'.Consistent
  facts : s'.facts = s.facts
  mirrors : Mirrors s.network s'.network s.state s'.state
  told : ∃ stream, s.Told stream
  told' : ∃ stream, s'.Told stream

namespace InTandem

variable {s s' : Session}

/-- Fresh sessions of twin networks are in tandem. -/
theorem ofNetwork {net net' : Network} (h : net.Twins net') :
    InTandem (Session.ofNetwork net) (Session.ofNetwork net') := by
  have hs := h.wellFormed.consistent_ofNetwork
  have hs' := h.wellFormed'.consistent_ofNetwork
  have hholds : ∀ {a : Network}, (Session.ofNetwork a).Consistent →
      ∀ n k, ¬ (Session.ofNetwork a).state.holds n k = true := by
    intro a ha n k hk
    obtain ⟨f, hf, -⟩ := (ha.placed n k).mp hk
    cases hf
  have hwaits : ∀ {a : Network} n l, ¬ Waits (MatchState.ofNetwork a) n l := by
    rintro a n l ⟨x, t, hx, -⟩
    rw [MatchState.ofNetwork_eq] at hx
    cases hx
  exact ⟨h, hs, hs', rfl,
    ⟨fun _ k => iff_of_false (hholds hs' _ k) (hholds hs _ k),
      fun _ _ l => iff_of_false (hwaits _ l) (hwaits _ l)⟩,
    ⟨[], told_ofNetwork net⟩, ⟨[], told_ofNetwork net'⟩⟩

section Places

variable (h : InTandem s s') {r r' : CompiledRule} {before later before' later' : List Entry}
    {e e' : Entry}
  (hplace : s.network.SamePlace s'.network r before (e :: later) r' before' (e' :: later'))

include h hplace

/-- **A call makes its fact leave the same places.** -/
theorem quits_iff (c : Call) : s'.Quits c e'.node ↔ s.Quits c e.node := by
  cases c with
  | insert f | insertAt k f => exact Iff.rfl
  | update k f =>
      simp only [Quits, h.facts, h.twins.entering_ok k f, h.mirrors.holds hplace k,
        h.twins.receives_iff hplace f, h.twins.passesBy_eq hplace]
  | delete k => exact h.mirrors.holds hplace k

/-- **A call makes its fact enter at the same places.** -/
theorem takes_iff (c : Call) : s'.Takes c e'.node ↔ s.Takes c e.node := by
  cases c with
  | insert f | insertAt k f => simp only [Takes, h.facts, h.twins.receives_iff hplace f]
  | update k f =>
      simp only [Takes, h.facts, h.mirrors.holds hplace k, h.twins.receives_iff hplace f,
        h.twins.passesBy_eq hplace]
  | delete k => exact Iff.rfl

end Places

/-- **A call keeps the sessions in tandem, and they answer alike**, unless it inserts a fact that
cannot enter. -/
theorem perform (h : InTandem s s') (c : Call)
    (hc : c.isInsertion = true → ¬ (s.perform c).2.Refused) :
    InTandem (s.perform c).1 (s'.perform c).1 ∧ SameReply (s.perform c).2 (s'.perform c).2 := by
  obtain ⟨hadvances, hanswer⟩ := perform_spec h.consistent c
  obtain ⟨hadvances', hanswer'⟩ := perform_spec h.consistent' c
  obtain ⟨hfacts, houtcome⟩ := h.twins.answer s.facts c
  rw [h.facts] at hanswer'
  rw [← hanswer, ← hanswer'] at hfacts houtcome
  obtain ⟨out, into, ⟨mid, gone, come, hcourse, hevents⟩, hout, hinto⟩ :=
    perform_goes h.consistent c hc
  obtain ⟨out', into', ⟨mid', gone', come', hcourse', hevents'⟩, hout', hinto'⟩ :=
    perform_goes h.consistent' c fun hi hrefused => hc hi (houtcome.refused hrefused)
  rw [h.facts] at hcourse'
  have henters' := hcourse'.enters
  rw [show (s'.perform c).1.facts = (s.perform c).1.facts from hfacts] at henters'
  -- The same facts quit twin entries, so the sessions mirror each other when the old tuples are
  -- gone, and then again when the new ones are in.
  have hmid : Mirrors s.network s'.network mid mid' :=
    h.mirrors.leaves h.twins hcourse.leaves hcourse'.leaves fun hplace => by
      rw [hout, hout', h.quits_iff hplace]
  have hend : Mirrors s.network s'.network (s.perform c).1.state (s'.perform c).1.state :=
    hmid.enters h.twins hcourse.enters henters' fun hplace => by
      rw [hinto, hinto', h.takes_iff hplace]
  obtain ⟨stream, htold⟩ := h.told
  obtain ⟨stream', htold'⟩ := h.told'
  obtain ⟨_, _, -, hnext, -⟩ := told_perform h.consistent htold c
  obtain ⟨_, _, -, hnext', -⟩ := told_perform h.consistent' htold' c
  constructor
  · refine ⟨?_, hadvances.consistent, hadvances'.consistent, hfacts, ?_, ⟨_, hnext⟩, ⟨_, hnext'⟩⟩
    · rw [hadvances.network, hadvances'.network]
      exact h.twins
    · rw [hadvances.network, hadvances'.network]
      exact hend
  · refine ⟨houtcome, fun rule l => ?_, fun rule l => ?_⟩
    · rw [hevents, hevents', activates_turnover, activates_turnover,
        hcourse.come_iff h.consistent htold, hcourse'.come_iff h.consistent' htold']
      exact Mirrors.terminals_iff h.twins hend hmid rule l
    · rw [hevents, hevents', deactivates_turnover, deactivates_turnover,
        hcourse.gone_iff h.consistent htold, hcourse'.gone_iff h.consistent' htold']
      exact Mirrors.terminals_iff h.twins h.mirrors hmid rule l

/-- **A run in which no insertion fails keeps the sessions in tandem.** -/
theorem run (h : InTandem s s') (calls : List Call)
    (hcalls : List.Forall₂ (fun c reply => c.isInsertion = true →
      ¬ reply.Refused) calls (s.run calls).2) :
    List.Forall₂ SameReply (s.run calls).2 (s'.run calls).2 ∧
      ∀ k, InTandem (s.run (calls.take k)).1 (s'.run (calls.take k)).1 := by
  induction calls generalizing s s' with
  | nil => exact ⟨.nil, fun k => by rwa [List.take_nil]⟩
  | cons c rest ih =>
      rw [Session.run, List.forall₂_cons] at hcalls
      obtain ⟨hstep, hreply⟩ := h.perform c hcalls.1
      obtain ⟨hreplies, hrest⟩ := ih hstep hcalls.2
      refine ⟨.cons hreply hreplies, fun k => ?_⟩
      cases k with
      | zero => exact h
      | succ k => exact hrest k

/-! ## What sessions in tandem have in common -/

/-- **The same matches are reported of every rule.** -/
theorem matchesOf_eq (h : InTandem s s') (rule : String) :
    s'.matchesOf rule = s.matchesOf rule := by
  have hfound := h.twins.rel_ruleNamed? rule
  refine matchesOf_eq_of_perm ?_
  unfold matchesOf
  generalize s.network.ruleNamed? rule = found at hfound ⊢
  generalize s'.network.ruleNamed? rule = found' at hfound ⊢
  cases hfound with
  | none => exact List.Perm.refl []
  | @some r r' hends =>
      simp only [h.consistent.sound.coherent.terminalTuples_eq hends.cut.mem,
        h.consistent'.sound.coherent.terminalTuples_eq hends.cut'.mem]
      have hperm := h.mirrors.perm_handles h.twins h.consistent.sound h.consistent'.sound hends
        (List.cons_ne_nil _ _)
      exact (List.mergeSort_perm _ _).trans (hperm.trans (List.mergeSort_perm _ _).symm)

theorem tupleCount_eq (h : InTandem s s') : s'.tupleCount = s.tupleCount :=
  h.mirrors.size_eq h.twins h.consistent.sound h.consistent'.sound

end InTandem

/-! ## Runs -/

namespace Session

/-- **Nobody can see whether patterns share tests.** A rule set that compiles with shared tests
compiles without them, and the other way round. In a run in which no insertion is stopped by a test
or a read, the sessions of the two networks answer alike, and every call ends and brings about the
same matches; after every call both have the same facts, the same matches of every rule and as many
tuples. Only what a refused update says of the node at which it failed may differ. -/
theorem sharing_run {rules : List Rule} {schemas : SchemaRegistry} {config : Config} {net : Network}
    {a b : Bool} (hbuild : Network.build rules schemas { config with shareTests := a } = .ok net)
    (calls : List Call)
    (hcalls : List.Forall₂ (fun c reply => c.isInsertion = true → ¬ reply.Refused) calls
      ((ofNetwork net).run calls).2) :
    ∃ net', Network.build rules schemas { config with shareTests := b } = .ok net' ∧
      List.Forall₂ SameReply ((ofNetwork net).run calls).2 ((ofNetwork net').run calls).2 ∧
      ∀ k,
        let s := ((ofNetwork net).run (calls.take k)).1
        let s' := ((ofNetwork net').run (calls.take k)).1
        s'.facts = s.facts ∧ (∀ rule, s'.matchesOf rule = s.matchesOf rule) ∧
          s'.tupleCount = s.tupleCount := by
  obtain ⟨net', hbuild', htwins⟩ := twins_build (b := b) hbuild
  obtain ⟨hreplies, htandem⟩ := (InTandem.ofNetwork htwins).run calls hcalls
  refine ⟨net', hbuild', hreplies, fun k => ?_⟩
  exact ⟨(htandem k).facts, (htandem k).matchesOf_eq, (htandem k).tupleCount_eq⟩

/-- Orders with a total of two or more, alone and in pairs of one customer. -/
def largeRules : List Rule :=
  let isLarge : Clause := .literal "total" .greaterOrEqual (.integer 2)
  [⟨"large", [⟨"order", none, [isLarge]⟩]⟩,
    ⟨"large pair", [⟨"order", some "a", [isLarge]⟩,
      ⟨"order", none, [isLarge, .join "customer" .equal "a" "customer"]⟩]⟩]

/-- Orders that become large and small, and one that is refused since its total is a text. -/
def largeCalls : List Call :=
  [.insert (order 7 1), .insert (order 7 2), .update 1 (order 7 3),
    .update 2 ⟨"order", .ofList [("customer", .integer 7), ("total", .string "2")]⟩, .delete 2]

/-- Two networks for large orders, one of which shares a test, give the same replies. -/
theorem sharing_orders : ∃ net net',
    Network.build largeRules orderSchemas { Config.standard with shareTests := true } = .ok net ∧
    Network.build largeRules orderSchemas { Config.standard with shareTests := false } = .ok net' ∧
    List.Forall₂ (fun c reply => c.isInsertion = true → ¬ reply.Refused) largeCalls
      ((ofNetwork net).run largeCalls).2 ∧
    net.nodeCount = 7 ∧ net'.nodeCount = 9 ∧
    List.Forall₂ SameReply ((ofNetwork net).run largeCalls).2 ((ofNetwork net').run largeCalls).2 ∧
    ((ofNetwork net').run (largeCalls.take 3)).1.matchesOf "large pair" =
      ((ofNetwork net).run (largeCalls.take 3)).1.matchesOf "large pair" := by
  obtain ⟨net, hnet, hnodes, hcalls⟩ : ∃ net,
      Network.build largeRules orderSchemas { Config.standard with shareTests := true } = .ok net ∧
      net.nodeCount = 7 ∧
      List.Forall₂ (fun c reply => c.isInsertion = true → ¬ reply.Refused) largeCalls
        ((ofNetwork net).run largeCalls).2 := ⟨_, rfl, rfl, by decide +kernel⟩
  have hnodes' : ∃ net',
      Network.build largeRules orderSchemas { Config.standard with shareTests := false } =
        .ok net' ∧
      net'.nodeCount = 9 := ⟨_, rfl, rfl⟩
  obtain ⟨net', hnet', hreplies, hsame⟩ := sharing_run (b := false) hnet largeCalls hcalls
  obtain ⟨net'', hnet'', hcount⟩ := hnodes'
  rw [hnet', Except.ok.injEq] at hnet''
  subst hnet''
  exact ⟨net, net', hnet, hnet', hcalls, hnodes, hcount, hreplies, (hsame 3).2.1 _⟩

end Session

end RuleMatching
