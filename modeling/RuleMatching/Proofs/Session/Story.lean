import RuleMatching.Proofs.Session.Delivery
import RuleMatching.Proofs.Session.Log
import RuleMatching.Proofs.Session.Memories
import RuleMatching.Proofs.Session.Traffic

set_option autoImplicit false

/-! # The story that events tell

In the whole stream of events no tuple is activated twice, and what is deactivated was activated
before and is still open (`Orderly`). The open activations are those of the full matches at the
terminals (`Told`). **A call delivers a deactivation of every full match that it ends, once, and
then an activation of every full match that it brings about, once**
(`Session.notifications_run`). -/

namespace RuleMatching

open Network Propagation

/-! ## Streams of events -/

/-- The event may follow the events before it: an activation is the first one of its tuple, a
deactivation is that of an activation which has not been deactivated yet. -/
def Follows (before : List ActivationEvent) : ActivationEvent → Prop
  | .activated act => ∀ b, .activated b ∈ before → b.tuple ≠ act.tuple
  | .deactivated act => .activated act ∈ before ∧ ∀ b, .deactivated b ∈ before → b.tuple ≠ act.tuple

/-- Every event of the stream follows those before it. -/
def Orderly (events : List ActivationEvent) : Prop :=
  ∀ before e after, events = before ++ e :: after → Follows before e

theorem orderly_nil : Orderly [] := fun before e after h => by simp at h

theorem Orderly.concat {events : List ActivationEvent} (h : Orderly events) {e : ActivationEvent}
    (he : Follows events e) : Orderly (events ++ [e]) := by
  intro before e' after heq
  rcases List.eq_nil_or_concat after with rfl | ⟨after', last, rfl⟩
  · obtain ⟨rfl, hlast⟩ := List.append_inj' heq rfl
    rw [← (List.cons.inj hlast).1]
    exact he
  · rw [List.concat_eq_append, ← List.cons_append, ← List.append_assoc] at heq
    exact h before e' after' (List.append_inj' heq rfl).1

theorem Orderly.of_append {events events' : List ActivationEvent}
    (h : Orderly (events ++ events')) : Orderly events := by
  intro before e after heq
  exact h before e (after ++ events') (by rw [heq, List.append_assoc, List.cons_append])

/-- What is deactivated was activated. -/
theorem Orderly.opened {events : List ActivationEvent} (h : Orderly events) {act : Activation}
    (hact : .deactivated act ∈ events) : .activated act ∈ events := by
  obtain ⟨before, after, rfl⟩ := List.append_of_mem hact
  exact List.mem_append_left _ (h before _ after rfl).1

/-- Nothing is told twice. -/
theorem Orderly.nodup {events : List ActivationEvent} (h : Orderly events) : events.Nodup := by
  induction events using List.reverseRecOn with
  | nil => exact List.nodup_nil
  | append_singleton events e ih =>
      refine List.nodup_append.mpr ⟨ih h.of_append, List.nodup_singleton e, ?_⟩
      rintro e' he' _ hlast rfl
      obtain rfl := List.mem_singleton.mp hlast
      have hfollows := h events e' [] rfl
      cases e' with
      | activated act => exact hfollows act he' rfl
      | deactivated act => exact hfollows.2 act he' rfl

/-- What a log of an orderly stream has in force was activated, each once. -/
theorem Orderly.nodup_active {events : List ActivationEvent} (h : Orderly events) :
    (ActivationLog.empty.recordAll events).active.Nodup ∧
      ∀ act ∈ (ActivationLog.empty.recordAll events).active, .activated act ∈ events := by
  induction events using List.reverseRecOn with
  | nil => exact ⟨List.nodup_nil, fun act hact => (List.not_mem_nil hact).elim⟩
  | append_singleton events e ih =>
      obtain ⟨hnodup, hactivated⟩ := ih h.of_append
      have hfollows := h events e [] rfl
      rw [ActivationLog.recordAll_append]
      cases e with
      | activated act =>
          have hnew : ∀ c ∈ (ActivationLog.empty.recordAll events).active, c.tuple ≠ act.tuple :=
            fun c hc => hfollows c (hactivated c hc)
          have hperm := Activation.perm_insertByTuple hnew
          refine ⟨hperm.nodup_iff.mpr (List.nodup_cons.mpr ⟨fun hact => hnew act hact rfl, hnodup⟩),
            fun b hb => ?_⟩
          rcases List.mem_cons.mp (hperm.mem_iff.mp hb) with rfl | hb
          · exact List.mem_append_right _ (List.mem_singleton_self _)
          · exact List.mem_append_left _ (hactivated b hb)
      | deactivated act =>
          refine ⟨hnodup.filter _, fun b hb => ?_⟩
          exact List.mem_append_left _ (hactivated b (List.mem_filter.mp hb).1)

/-- The full matches are those that were activated and not deactivated since, and the
stream is orderly. -/
structure Told (net : Network) (a : Arena) (events : List ActivationEvent) : Prop where
  full_iff : ∀ act, FullMatch net a act ↔ .activated act ∈ events ∧ .deactivated act ∉ events
  spent : ∀ act, .deactivated act ∈ events → SlotMap.Spent a act.tuple
  orderly : Orderly events

section Changes

variable {net : Network} {facts : FactStore} {h : Handle} {ns : List NodeId} {p p' : Propagation}
  {earlier : List ActivationEvent}

/-- **A single change goes on with the story.** -/
theorem Told.change (hnet : net.WellFormed) (hs : Coherent net facts p.toMatchState)
    (hchange : Change net facts p p') {stream : List ActivationEvent}
    (ht : Told net p.arena stream) :
    ∃ more, p'.events = p.events ++ more ∧ Told net p'.arena (stream ++ more) := by
  have ha := hs.arena.valid
  have hspent : ∀ act, .deactivated act ∈ stream → SlotMap.Spent p'.arena act.tuple :=
    fun act hact => hchange.spent hnet hs (ht.spent act hact)
  cases hchange.tells hnet hs with
  | nothing events full =>
      refine ⟨[], by rw [events, List.append_nil], ?_⟩
      rw [List.append_nil]
      exact ⟨fun act => (full act).trans (ht.full_iff act), hspent, ht.orderly⟩
  | activated act events live new full =>
      obtain ⟨t, hlive⟩ := live
      -- Nothing was told yet of a tuple that is live and no full match.
      have hnot : ∀ b, b.tuple = act.tuple → .deactivated b ∉ stream := by
        intro b hb hmem
        have hdead := (ht.spent b hmem).1
        rw [hb, hlive] at hdead
        cases hdead
      have hfollows : Follows stream (.activated act) := by
        intro b hmem hb
        exact new b ((ht.full_iff b).mpr ⟨hmem, hnot b hb⟩) hb
      refine ⟨_, events, fun b => ?_, fun b hb => hspent b (by simpa using hb),
        ht.orderly.concat hfollows⟩
      rw [full, ht.full_iff]
      simp only [List.mem_append, List.mem_singleton, reduceCtorEq, or_false,
        ActivationEvent.activated.injEq]
      constructor
      · rintro (rfl | ⟨hopen, hclosed⟩)
        · exact ⟨Or.inr rfl, hnot b rfl⟩
        · exact ⟨Or.inl hopen, hclosed⟩
      · rintro ⟨hopen | rfl, hclosed⟩
        · exact Or.inr ⟨hopen, hclosed⟩
        · exact Or.inl rfl
  | deactivated act events old spent full =>
      obtain ⟨t, hlive, -⟩ := old.live ha
      obtain ⟨hopen, -⟩ := (ht.full_iff act).mp old
      have hfollows : Follows stream (.deactivated act) := by
        refine ⟨hopen, fun b hb heq => ?_⟩
        have hdead := (ht.spent b hb).1
        rw [heq, hlive] at hdead
        cases hdead
      refine ⟨_, events, fun b => ?_, fun b hb => ?_, ht.orderly.concat hfollows⟩
      · have hsame : FullMatch net p.arena b ∧ b.tuple ≠ act.tuple ↔
            FullMatch net p.arena b ∧ b ≠ act :=
          and_congr_right fun hb => not_congr ⟨old.eq_of_tuple_eq hnet ha hb, fun heq => heq ▸ rfl⟩
        rw [full, hsame, ht.full_iff]
        simp [and_assoc]
      · rcases List.mem_append.mp hb with hb | hb
        · exact hspent b hb
        · cases List.mem_singleton.mp hb
          exact spent

theorem Changes.told (hnet : net.WellFormed) (hchanges : Changes net facts p p')
    (hs : Coherent net facts p.toMatchState) (ht : Told net p.arena (earlier ++ p.events)) :
    Told net p'.arena (earlier ++ p'.events) := by
  induction hchanges with
  | refl => exact ht
  | tail hpath hstep ih =>
      obtain ⟨more, hmore, ht'⟩ := ih.change hnet (Changes.coherent hnet hpath hs) hstep
      rwa [hmore, ← List.append_assoc]

/-! ## What departures and arrivals tell -/

/-- A tuple that is taken out of its memory is reported as deactivated, or not at all. -/
theorem events_unstore (r : CompiledRule) (x : TupleId) (t : Tuple) (p : Propagation) :
    ∃ gone : List Activation, (unstore r x t p).events = p.events ++ gone.map .deactivated := by
  rcases unstore_cases r x t p with heq | ⟨_, _, _, _, -, -, -, heq⟩ | ⟨_, _, -, -, -, -, heq⟩
  · rw [heq]
    exact ⟨[], (List.append_nil _).symm⟩
  · rw [heq]
    exact ⟨[], (List.append_nil _).symm⟩
  · rw [heq]
    exact ⟨[_], rfl⟩

/-- A tuple that is put into a terminal is reported as activated; there is no other report. -/
theorem events_activate (ctx : PropagationContext) (x : TupleId) (p : Propagation) :
    ∃ come : List Activation, (activate ctx x p).1.events = p.events ++ come.map .activated := by
  simp only [activate, MatchStore.storeFull?, storeFull?]
  cases p.terminals.get? ctx.rule.terminal with
  | none => exact ⟨[], (List.append_nil _).symm⟩
  | some m => exact ⟨[_], rfl⟩

/-- **Departures tell of deactivations only.** -/
theorem Departures.events (hd : Departures net facts h ns p p') :
    ∃ gone : List Activation, p'.events = p.events ++ gone.map .deactivated := by
  induction hd with
  | refl => exact ⟨[], (List.append_nil _).symm⟩
  | tail _ hstep ih =>
      obtain ⟨gone, hgone⟩ := ih
      obtain ⟨r, -, hstep⟩ := hstep
      cases hstep with
      | remove hx hcut hsink hleaf hroot hmem =>
          obtain ⟨more, hmore⟩ := events_unstore r _ _ _
          refine ⟨gone ++ more, ?_⟩
          rw [events_removeTuple_eq r hx, hmore, hgone, List.map_append, List.append_assoc]
      | dropRoot hr hm hx => exact ⟨gone, hgone⟩
      | dropRight hcut he hm hchange => exact ⟨gone, hgone⟩

/-- **Arrivals tell of activations only.** -/
theorem Arrivals.events (ha : Arrivals net facts h ns p p') :
    ∃ come : List Activation, p'.events = p.events ++ come.map .activated := by
  induction ha with
  | refl => exact ⟨[], (List.append_nil _).symm⟩
  | tail _ hstep ih =>
      obtain ⟨come, hcome⟩ := ih
      obtain ⟨r, -, hstep⟩ := hstep
      cases hstep with
      | root hr hm hnew hchange => exact ⟨come, hcome⟩
      | child hcut hx hsink hm hentry hmem => exact ⟨come, hcome⟩
      | storeLeft hcut he hx hsink hloc hm hmem hchange => exact ⟨come, hcome⟩
      | activate hr hx hsink hloc hmem =>
          obtain ⟨more, hmore⟩ := events_activate _ _ _
          exact ⟨come ++ more, by rw [hmore, hcome, List.map_append, List.append_assoc]⟩
      | storeRight hcut he hm hnew hchange => exact ⟨come, hcome⟩

end Changes

/-! ## What a call tells -/

/-- Deactivations, and then activations. -/
def turnover (gone come : List Activation) : List ActivationEvent :=
  gone.map .deactivated ++ come.map .activated

section Difference

variable {net : Network} {a a' : Arena} {stream : List ActivationEvent}
    {gone come : List Activation}

theorem Orderly.nodup_gone (h : Orderly (stream ++ turnover gone come)) : gone.Nodup :=
  (List.nodup_append.mp (List.nodup_append.mp h.nodup).2.1).1.of_map _

theorem Orderly.nodup_come (h : Orderly (stream ++ turnover gone come)) : come.Nodup :=
  (List.nodup_append.mp (List.nodup_append.mp h.nodup).2.1).2.1.of_map _

/-- What is activated anew is of a tuple that was not activated before. -/
theorem Orderly.not_activated_of_come (h : Orderly (stream ++ turnover gone come))
    {act : Activation} (hact : act ∈ come) : .activated act ∉ stream := by
  intro hmem
  refine (List.nodup_append.mp h.nodup).2.2 _ hmem _ ?_ rfl
  exact List.mem_append_right _ (List.mem_map_of_mem hact)

/-- What is deactivated was active when the call began. -/
theorem Orderly.open_of_gone (h : Orderly (stream ++ turnover gone come)) {act : Activation}
    (hact : act ∈ gone) : .activated act ∈ stream ∧ .deactivated act ∉ stream := by
  obtain ⟨gone₁, gone₂, rfl⟩ := List.append_of_mem hact
  obtain ⟨hopen, hclosed⟩ := h (stream ++ gone₁.map .deactivated) (.deactivated act)
    (gone₂.map .deactivated ++ come.map .activated) (by simp [turnover])
  exact ⟨by simpa using hopen, fun hmem => hclosed act (List.mem_append_left _ hmem) rfl⟩

/-- **Deactivated are the full matches that are no more.** -/
theorem Told.mem_gone_iff (h : Told net a stream) (h' : Told net a' (stream ++ turnover gone come))
    (act : Activation) : act ∈ gone ↔ FullMatch net a act ∧ ¬ FullMatch net a' act := by
  rw [h.full_iff, h'.full_iff]
  constructor
  · intro hact
    refine ⟨h'.orderly.open_of_gone hact, fun hopen => hopen.2 ?_⟩
    exact List.mem_append_right _ (List.mem_append_left _ (List.mem_map_of_mem hact))
  · rintro ⟨⟨hopen, hclosed⟩, hnot⟩
    have hmem : .deactivated act ∈ stream ++ turnover gone come := by
      by_contra hmem
      exact hnot ⟨List.mem_append_left _ hopen, hmem⟩
    simpa [turnover, hclosed] using hmem

/-- **Activated are the full matches that were none before.** -/
theorem Told.mem_come_iff (h : Told net a stream) (h' : Told net a' (stream ++ turnover gone come))
    (act : Activation) : act ∈ come ↔ FullMatch net a' act ∧ ¬ FullMatch net a act := by
  rw [h.full_iff, h'.full_iff]
  constructor
  · intro hact
    have hnew := h'.orderly.not_activated_of_come hact
    refine ⟨⟨?_, fun hclosed => ?_⟩, fun hopen => hnew hopen.1⟩
    · exact List.mem_append_right _ (List.mem_append_right _ (List.mem_map_of_mem hact))
    · rcases List.mem_append.mp hclosed with hclosed | hclosed
      · exact hnew (h.orderly.opened hclosed)
      · have hgone : act ∈ gone := by simpa [turnover] using hclosed
        exact hnew (h'.orderly.open_of_gone hgone).1
  · rintro ⟨⟨hopen, hclosed⟩, hnot⟩
    have hnew : .activated act ∉ stream := fun hmem =>
      hnot ⟨hmem, fun hmem' => hclosed (List.mem_append_left _ hmem')⟩
    simpa [turnover, hnew] using hopen

end Difference

namespace Session

/-- The activations of the tuples stored at the terminals. -/
def fullMatches (s : Session) : List Activation :=
  s.network.rules.flatMap fun r =>
    (s.state.terminalTuples r.terminal).map (s.state.arena.activation r)

variable {s s' : Session} {stream : List ActivationEvent}

theorem mem_fullMatches_iff (hs : s.Consistent) (act : Activation) :
    act ∈ s.fullMatches ↔ FullMatch s.network s.state.arena act := by
  rw [fullMatches, List.mem_flatMap]
  refine exists_congr fun r => and_congr_right fun hr => ?_
  rw [hs.sound.coherent.terminalTuples_eq hr, List.mem_map]
  exact exists_congr fun x => and_congr_right fun _ => eq_comm

theorem nodup_fullMatches (hs : s.Consistent) : s.fullMatches.Nodup := by
  have hcoherent := hs.sound.coherent
  have hvalid := hcoherent.arena.valid
  rw [fullMatches, List.nodup_flatMap]
  refine ⟨fun r hr => ?_, ?_⟩
  · rw [hcoherent.terminalTuples_eq hr]
    exact (Arena.nodup_storedAt hvalid _).map fun x y h => congrArg Activation.tuple h
  · -- A tuple is stored at one terminal, and a terminal belongs to one rule.
    refine (List.nodup_flatMap.mp hs.network.nodup_nodes).2.imp_of_mem ?_
    intro r r' hr hr' hdisjoint act hact hact'
    simp only [hcoherent.terminalTuples_eq hr, hcoherent.terminalTuples_eq hr'] at hact hact'
    obtain ⟨x, hx, rfl⟩ := List.mem_map.mp hact
    obtain ⟨y, hy, heq⟩ := List.mem_map.mp hact'
    obtain rfl : y = x := congrArg Activation.tuple heq
    obtain ⟨t, -, ht, hsink, -⟩ := (Arena.mem_storedAt hvalid).mp hx
    obtain ⟨t', -, ht', hsink', -⟩ := (Arena.mem_storedAt hvalid).mp hy
    rw [ht, Option.some.injEq] at ht'
    have hterminal : r.terminal = r'.terminal := by rw [← hsink, ← hsink', ht']
    exact hdisjoint (a := r.terminal) (by simp [CompiledRule.nodes])
      (by simp [CompiledRule.nodes, hterminal])

/-- The full matches of the session are those that were activated and not deactivated since. -/
def Told (s : Session) (events : List ActivationEvent) : Prop :=
  RuleMatching.Told s.network s.state.arena events

theorem told_ofNetwork (net : Network) : (ofNetwork net).Told [] := by
  refine ⟨fun act => ⟨?_, fun h => nomatch h.1⟩, fun act h => (List.not_mem_nil h).elim,
    orderly_nil⟩
  rintro ⟨r, -, x, hx, -⟩
  rw [ofNetwork, MatchState.ofNetwork_eq] at hx
  cases hx

/-- **What a call delivers**: deactivations, and then activations. -/
theorem told_perform (hs : s.Consistent) (ht : s.Told stream) (c : Call) :
    ∃ gone come, (s.perform c).2.events = turnover gone come ∧
      (s.perform c).1.Told (stream ++ turnover gone come) ∧
      (c.isInsertion = true → gone = []) ∧ (c.isDeletion = true → come = []) := by
  obtain ⟨out, into, ⟨p, p', hout, hsound, hinto, hstate, hevents⟩, hinsertion, hdeletion⟩ :=
    perform_traffic hs c
  obtain ⟨hadvances, -⟩ := perform_spec hs c
  obtain ⟨gone, hgone⟩ := hout.events
  obtain ⟨come, hcome⟩ := hinto.events
  have hall : (s.perform c).2.events = turnover gone come := by
    rw [← hevents, hcome, hgone, List.nil_append, turnover]
  refine ⟨gone, come, hall, ?_, fun hc => ?_, fun hc => ?_⟩
  · -- The story goes on from what was told before, first over the work of leaving, then over that
    -- of entering.
    have hstart : RuleMatching.Told s.network s.state.arena (stream ++ []) := by
      rw [List.append_nil]
      exact ht
    have hmiddle : RuleMatching.Told s.network p.arena (stream ++ p.events) :=
      hout.changes.told hs.network hs.sound.coherent hstart
    have hend := hinto.changes.told hs.network hsound.coherent hmiddle
    rw [Told, hadvances.network, ← hstate, ← hall, ← hevents]
    exact hend
  · rw [hinsertion hc] at hout
    rw [hout.of_nil] at hgone
    simpa using hgone
  · rw [hdeletion hc] at hinto
    rw [hinto.of_nil] at hcome
    simpa using hcome

/-- **A run tells of all full matches.** -/
theorem told_run (hs : s.Consistent) (ht : s.Told stream) (calls : List Call) :
    (s.run calls).1.Told (stream ++ (s.run calls).2.flatMap Reply.events) := by
  induction calls generalizing s stream with
  | nil =>
      rw [run, List.flatMap_nil, List.append_nil]
      exact ht
  | cons c rest ih =>
      obtain ⟨gone, come, hevents, htold, -⟩ := told_perform hs ht c
      obtain ⟨hadvances, -⟩ := perform_spec hs c
      rw [← hevents] at htold
      rw [run, List.flatMap_cons, ← List.append_assoc]
      exact ih hadvances.consistent htold

/-- A sink that keeps the log takes note of every event. -/
theorem receiveAll_log (log : ActivationLog) (events : List ActivationEvent) :
    ActivationSink.log.receiveAll log events = log.recordAll events := by
  have hreceive : ActivationSink.log.receive = ActivationLog.record := by
    funext l e
    cases e <;> rfl
  rw [ActivationSink.receiveAll, hreceive, ActivationLog.recordAll]

/-- **Every call of a run delivers what it does to the full matches.** The stream that a sink has
received is orderly, and a log of it has the full matches in force. The next call delivers a
deactivation of every full match that is no more, each once, and then an activation of every new
one, each once; nothing stays in the buffer. -/
theorem notifications_run {rules : List Rule} {schemas : SchemaRegistry} {config : Config}
    {net : Network} (hbuild : Network.build rules schemas config = .ok net) (calls : List Call) :
    let s := ((ofNetwork net).run calls).1
    ∃ stream, Orderly stream ∧
      (∀ {σ : Type} (sink : ActivationSink σ) (state : σ),
        NotifyingSession.run sink (.ofNetwork net state) calls =
          ⟨s, [], sink.receiveAll state stream⟩) ∧
      s.fullMatches.Nodup ∧
      (NotifyingSession.run .log (.ofNetwork net .empty) calls).received.active.Perm s.fullMatches ∧
      ∀ c, let s' := (s.perform c).1
        ∃ gone come,
          (∀ {σ : Type} (sink : ActivationSink σ) (state : σ),
            ((⟨s, [], state⟩ : NotifyingSession σ).perform sink c).1 =
              ⟨s', [], sink.receiveAll state (turnover gone come)⟩) ∧
          gone.Perm (s.fullMatches.filter (· ∉ s'.fullMatches)) ∧
          come.Perm (s'.fullMatches.filter (· ∉ s.fullMatches)) ∧
          Orderly (stream ++ turnover gone come) ∧
          (c.isInsertion = true → gone = []) ∧ (c.isDeletion = true → come = []) := by
  intro s
  have hnet := wellFormed_build hbuild
  have hfresh := hnet.consistent_ofNetwork
  obtain ⟨hsame, hs, -⟩ := run_ofNetwork hnet calls
  have htold := told_run hfresh (told_ofNetwork net) calls
  have hlog := logs_run hfresh (logs_ofNetwork net) calls
  rw [List.nil_append] at htold
  refine ⟨_, htold.orderly, fun sink state => NotifyingSession.run_eq sink _ state calls,
    nodup_fullMatches hs, ?_, fun c => ?_⟩
  · rw [NotifyingSession.ofNetwork, NotifyingSession.run_eq, receiveAll_log]
    refine (List.perm_ext_iff_of_nodup htold.orderly.nodup_active.1 (nodup_fullMatches hs)).mpr ?_
    exact fun act => (hlog act).trans (mem_fullMatches_iff hs act).symm
  · intro s'
    obtain ⟨gone, come, hevents, htold', hinsertion, hdeletion⟩ := told_perform hs htold c
    obtain ⟨hadvances, -⟩ := perform_spec hs c
    have hs' : s'.Consistent := hadvances.consistent
    have hnext := htold'
    rw [Told, hadvances.network] at hnext
    have hmem' : ∀ act, act ∈ s'.fullMatches ↔ FullMatch s.network s'.state.arena act :=
      fun act => by
      rw [mem_fullMatches_iff hs', hadvances.network]
    refine ⟨gone, come, fun sink state => ?_, ?_, ?_, htold'.orderly, hinsertion, hdeletion⟩
    · rw [NotifyingSession.perform_eq, NotifyingSession.deliver, hevents]
    · refine (List.perm_ext_iff_of_nodup htold'.orderly.nodup_gone
        ((nodup_fullMatches hs).filter _)).mpr fun act => ?_
      rw [htold.mem_gone_iff hnext, List.mem_filter, decide_eq_true_eq, hmem',
        mem_fullMatches_iff hs]
    · refine (List.perm_ext_iff_of_nodup htold'.orderly.nodup_come
        ((nodup_fullMatches hs').filter _)).mpr fun act => ?_
      rw [htold.mem_come_iff hnext, List.mem_filter, decide_eq_true_eq, hmem',
        mem_fullMatches_iff hs]

/-- A sink that keeps the facts of the activations (`true`) and deactivations (`false`). -/
def keepFacts : ActivationSink (List (Bool × List Handle)) :=
  ⟨fun told a => told ++ [(true, a.facts)], fun told a => told ++ [(false, a.facts)]⟩

/-- What is told of pairs of orders. The order 2 gets another customer: the three pairs that it was
in go, before the three that it is in then come. The log has the pairs that are left. -/
theorem notifications_orders :
    ∃ net stream, Network.build [pairRule] orderSchemas .standard = .ok net ∧
    Orderly stream ∧
    NotifyingSession.run .log (.ofNetwork net .empty) orderCalls =
      ⟨((ofNetwork net).run orderCalls).1, [], ActivationSink.log.receiveAll .empty stream⟩ ∧
    keepFacts.receiveAll [] stream =
      [(true, [1, 1]), (true, [2, 1]), (true, [1, 2]), (true, [2, 2]), (true, [5, 5]),
        (false, [2, 2]), (false, [2, 1]), (false, [1, 2]), (true, [2, 5]), (true, [5, 2]),
        (true, [2, 2]), (false, [1, 1])] ∧
    (ActivationSink.log.receiveAll .empty stream).active.Perm
      ((ofNetwork net).run orderCalls).1.fullMatches ∧
    ((ofNetwork net).run orderCalls).1.fullMatches.map Activation.facts =
      [[5, 5], [2, 5], [5, 2], [2, 2]] := by
  obtain ⟨net, hnet, htold, hmatches⟩ : ∃ net, Network.build [pairRule] orderSchemas .standard =
      .ok net ∧
      (NotifyingSession.run keepFacts (.ofNetwork net []) orderCalls).received =
        [(true, [1, 1]), (true, [2, 1]), (true, [1, 2]), (true, [2, 2]), (true, [5, 5]),
          (false, [2, 2]), (false, [2, 1]), (false, [1, 2]), (true, [2, 5]), (true, [5, 2]),
          (true, [2, 2]), (false, [1, 1])] ∧
      ((ofNetwork net).run orderCalls).1.fullMatches.map Activation.facts =
        [[5, 5], [2, 5], [5, 2], [2, 2]] :=
    ⟨_, rfl, by decide +kernel⟩
  obtain ⟨stream, horderly, hrun, -, hlog, -⟩ := notifications_run hnet orderCalls
  rw [hrun] at hlog htold
  exact ⟨net, stream, hnet, horderly, hrun .log .empty, htold, hlog, hmatches⟩

end Session

end RuleMatching
