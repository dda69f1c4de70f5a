import RuleMatching.Proofs.Session.Runs

set_option autoImplicit false

/-! # The log of activations

What becomes of the full matches in a single change, and what is reported of it (`Change.tells`). An
`ActivationLog` that takes note of every event therefore has in force exactly the activations of the
full matches that are stored at the terminals (`Logs`): every single change keeps it so
(`Tells.logs`), hence every call and **every run** (`Session.logs_run`). -/

namespace RuleMatching

open Network Propagation

/-! ## Taking note of one event -/

theorem SlotRef.eq_of_compare_eq {a b : SlotRef} (h : a.compare b = .eq) : a = b := by
  obtain ⟨i, g⟩ := a
  obtain ⟨j, k⟩ := b
  simp only [SlotRef.compare, Ordering.then_eq_eq, Nat.compare_eq_eq] at h
  rw [h.1, h.2]

/-- A new activation is put among those in force, if none of them is of its tuple. -/
theorem Activation.perm_insertByTuple {a : Activation} {l : List Activation}
    (hnew : ∀ c ∈ l, c.tuple ≠ a.tuple) : (a.insertByTuple l).Perm (a :: l) := by
  induction l with
  | nil => exact .refl _
  | cons c rest ih =>
      rw [insertByTuple]
      cases hcmp : a.tuple.compare c.tuple with
      | lt => exact .refl _
      | eq => exact absurd (SlotRef.eq_of_compare_eq hcmp).symm (hnew c List.mem_cons_self)
      | gt =>
          exact ((ih fun d hd => hnew d (List.mem_cons_of_mem _ hd)).cons c).trans (.swap a c rest)

theorem ActivationLog.recordAll_append (log : ActivationLog)
    (events events' : List ActivationEvent) :
    log.recordAll (events ++ events') = (log.recordAll events).recordAll events' :=
  List.foldl_append

/-! ## Full matches -/

/-- The activation of a full match. -/
def Arena.activation (a : Arena) (r : CompiledRule) (x : TupleId) : Activation :=
  ⟨r.id, r.name, x, a.handles x⟩

/-- The activation is that of a tuple at a terminal. -/
def FullMatch (net : Network) (a : Arena) (act : Activation) : Prop :=
  ∃ r ∈ net.rules, ∃ x ∈ a.storedAt r.terminal, act = a.activation r x

/-- The activations in force are those of the tuples at the terminals. -/
def Logs (net : Network) (a : Arena) (log : ActivationLog) : Prop :=
  ∀ act, act ∈ log.active ↔ ∃ r ∈ net.rules, ∃ x ∈ a.storedAt r.terminal, act = a.activation r x

section FullMatches

variable {net : Network} {a a' : Arena}

/-- An arena with the same full matches has the same activations. -/
theorem fullMatch_frame (hstored : ∀ r ∈ net.rules, a'.storedAt r.terminal = a.storedAt r.terminal)
    (hhandles : ∀ r ∈ net.rules, ∀ x ∈ a.storedAt r.terminal, a'.handles x = a.handles x)
    (act : Activation) : FullMatch net a' act ↔ FullMatch net a act := by
  refine exists_congr fun r => and_congr_right fun hr => ?_
  rw [hstored r hr]
  refine exists_congr fun x => and_congr_right fun hx => ?_
  rw [Arena.activation, Arena.activation, hhandles r hr x hx]

/-- The tuple of a full match is live. -/
theorem FullMatch.live (ha : a.Valid) {act : Activation} (h : FullMatch net a act) :
    ∃ t, a.get? act.tuple = some t ∧ t.location ≠ none := by
  obtain ⟨r, -, x, hx, rfl⟩ := h
  obtain ⟨t, l, ht, -, hloc⟩ := (Arena.mem_storedAt ha).mp hx
  exact ⟨t, ht, by simp [hloc]⟩

/-- There is one full match of a tuple. -/
theorem FullMatch.eq_of_tuple_eq (hnet : net.WellFormed) (ha : a.Valid) {act act' : Activation}
    (h : FullMatch net a act) (h' : FullMatch net a act') (heq : act'.tuple = act.tuple) :
    act' = act := by
  obtain ⟨r, hr, x, hx, rfl⟩ := h
  obtain ⟨r', hr', y, hy, rfl⟩ := h'
  obtain rfl : y = x := heq
  obtain ⟨t, -, ht, hsink, -⟩ := (Arena.mem_storedAt ha).mp hx
  obtain ⟨t', -, ht', hsink', -⟩ := (Arena.mem_storedAt ha).mp hy
  rw [ht, Option.some.injEq] at ht'
  rw [hnet.terminal_inj hr hr' (by rw [← hsink', ← ht', hsink])]

/-- A tuple that is created. -/
theorem fullMatch_add (ha : a.WellFormed) {t : Tuple} (hloc : t.location = none)
    (hp : ∀ q, t.parent = some q → ∃ u, a.get? q = some u) (act : Activation) :
    FullMatch net (SlotMap.add a t) act ↔ FullMatch net a act := by
  refine fullMatch_frame (fun r _ => Arena.storedAt_add hloc _) (fun r _ y hy => ?_) act
  obtain ⟨u, _, hu, _⟩ := (Arena.mem_storedAt ha.valid).mp hy
  exact Arena.handles_add ha hp hu

/-- A tuple that comes to a join. -/
theorem fullMatch_stored (ha : a.Valid) {x : TupleId} {t : Tuple}
    (hx : a.live.getLast? = some (x, t)) (hloc : t.location = none)
    (hsink : ∀ r ∈ net.rules, t.sink ≠ r.terminal) (l : Location) (act : Activation) :
    FullMatch net (a.setLocation x l) act ↔ FullMatch net a act := by
  refine fullMatch_frame (fun r hr => ?_) (fun r _ y _ => Arena.handles_setLocation _ _ _ _) act
  rw [Arena.storedAt_setLocation ha hx hloc, if_neg (hsink r hr), List.append_nil]

/-- A tuple that comes to a terminal. -/
theorem fullMatch_activated (hnet : net.WellFormed) (ha : a.Valid) {r : CompiledRule}
    (hr : r ∈ net.rules) {x : TupleId} {t : Tuple} (hx : a.live.getLast? = some (x, t))
    (hsink : t.sink = r.terminal) (hloc : t.location = none) (l : Location) (act : Activation) :
    FullMatch net (a.setLocation x l) act ↔ act = a.activation r x ∨ FullMatch net a act := by
  simp only [FullMatch, Arena.storedAt_setLocation ha hx hloc, List.mem_append, Arena.activation,
    Arena.handles_setLocation]
  constructor
  · rintro ⟨r', hr', y, hy | hy, rfl⟩
    · exact Or.inr ⟨r', hr', y, hy, rfl⟩
    · left
      split at hy
      · next hterminal =>
        rw [List.mem_singleton.mp hy, hnet.terminal_inj hr hr' (hterminal.symm.trans hsink)]
      · cases hy
  · rintro (rfl | ⟨r', hr', y, hy, rfl⟩)
    · exact ⟨r, hr, x, Or.inr (by simp [hsink]), rfl⟩
    · exact ⟨r', hr', y, Or.inl hy, rfl⟩

/-- A tuple that goes. -/
theorem fullMatch_remove (ha : a.WellFormed) {x : TupleId}
    (hleaf : ∀ y u, a.get? y = some u → u.parent ≠ some x) (act : Activation) :
    FullMatch net (SlotMap.remove a x) act ↔ FullMatch net a act ∧ act.tuple ≠ x := by
  have hhandles : ∀ n, ∀ y ∈ a.storedAt n, y ≠ x → Arena.handles (a.remove x) y = a.handles y := by
    intro n y hy hne
    obtain ⟨u, _, hu, _⟩ := (Arena.mem_storedAt ha.valid).mp hy
    exact Arena.handles_remove ha hleaf hu hne
  constructor
  · rintro ⟨r, hr, y, hy, rfl⟩
    rw [Arena.storedAt_remove, List.mem_filter, decide_eq_true_eq] at hy
    refine ⟨⟨r, hr, y, hy.1, ?_⟩, hy.2⟩
    rw [Arena.activation, Arena.activation, hhandles _ y hy.1 hy.2]
  · rintro ⟨⟨r, hr, y, hy, rfl⟩, hne⟩
    refine ⟨r, hr, y, ?_, ?_⟩
    · rw [Arena.storedAt_remove, List.mem_filter]
      exact ⟨hy, decide_eq_true hne⟩
    · rw [Arena.activation, Arena.activation, hhandles _ y hy hne]

end FullMatches

/-! ## Single changes -/

/-- What is reported of a single change is what it does to the full matches. -/
inductive Tells (net : Network) (p p' : Propagation) : Prop
  | nothing (events : p'.events = p.events)
      (full : ∀ act, FullMatch net p'.arena act ↔ FullMatch net p.arena act)
  /-- A live tuple that was no full match has become one. -/
  | activated (act : Activation) (events : p'.events = p.events ++ [.activated act])
      (live : ∃ t, p.arena.get? act.tuple = some t)
      (new : ∀ b, FullMatch net p.arena b → b.tuple ≠ act.tuple)
      (full : ∀ b, FullMatch net p'.arena b ↔ b = act ∨ FullMatch net p.arena b)
  /-- A full match is gone. -/
  | deactivated (act : Activation) (events : p'.events = p.events ++ [.deactivated act])
      (old : FullMatch net p.arena act) (spent : SlotMap.Spent p'.arena act.tuple)
      (full : ∀ b, FullMatch net p'.arena b ↔ FullMatch net p.arena b ∧ b.tuple ≠ act.tuple)

section Changes

variable {net : Network} {facts : FactStore} {p p' : Propagation} {log : ActivationLog}

theorem events_removeTuple_eq (r : CompiledRule) {x : TupleId} {t : Tuple}
    (hx : p.arena.get? x = some t) : (removeTuple r p x).events = (unstore r x t p).events := by
  rw [removeTuple_live hx]
  unfold forgetMade giveUp
  split <;> rfl

/-- A tuple that is not stored at a terminal goes unreported. -/
theorem Coherent.events_unstore_other (hs : Coherent net facts p.toMatchState)
    (hnet : net.WellFormed) {r : CompiledRule} {before later : List Entry}
    (hcut : net.Cut r before later) {x : TupleId} {t : Tuple} (hx : p.arena.get? x = some t)
    (hsink : t.sink = r.sinkAfter later) (hnot : x ∉ p.arena.storedAt r.terminal) :
    (unstore r x t p).events = p.events := by
  cases hloc : t.location with
  | none => rw [unstore_eq_self r x hloc]
  | some l =>
      cases later with
      | nil => exact absurd ((Arena.mem_storedAt hs.arena.valid).mpr ⟨t, l, hx, hsink, hloc⟩) hnot
      | cons e later =>
          have he := hs.join_of_sink hnet hx hcut hsink
          obtain ⟨m, left, -, -, -, heq⟩ := hs.unstore_join r hx he hsink hloc
          rw [heq]

/-- A full match that goes is reported. -/
theorem Coherent.events_unstore_full (hs : Coherent net facts p.toMatchState)
    (hnet : net.WellFormed) {r : CompiledRule} (hr : r ∈ net.rules) {x : TupleId} {t : Tuple}
    (hx : p.arena.get? x = some t) (hmem : x ∈ p.arena.storedAt r.terminal) :
    (unstore r x t p).events = p.events ++ [.deactivated (p.arena.activation r x)] := by
  obtain ⟨hsink, hstored⟩ := (Arena.mem_storedAt_of_get? hs.arena.valid hx).mp hmem
  obtain ⟨l, hloc⟩ := Option.ne_none_iff_exists'.mp hstored
  obtain ⟨m, -, -, -, heq⟩ := hs.unstore_terminal hnet r hx hr hsink hloc
  rw [heq]
  rfl

/-- **A single change tells what it does to the full matches.** -/
theorem Change.tells (hnet : net.WellFormed) (h : Change net facts p p')
    (hs : Coherent net facts p.toMatchState) : Tells net p p' := by
  have ha := hs.arena
  cases h with
  | root hr hread hm hnew => exact .nothing rfl (fullMatch_add ha rfl fun q hq => nomatch hq)
  | child hcut hx hsink hm hentry =>
      refine .nothing rfl (fullMatch_add ha rfl fun q hq => ?_)
      cases hq
      exact ⟨_, hx⟩
  | storeLeft he hx hsink hloc h =>
      obtain ⟨m, l, left, _, heq, _⟩ := hs.storeLeft hnet he hx hsink hloc
      rw [heq] at h
      cases h
      refine .nothing rfl (fullMatch_stored ha.valid hx hloc (fun r hr => ?_) l)
      rw [hsink]
      exact hnet.join_ne_terminal he hr
  | @activate ctx x t hr hx hsink hloc =>
      obtain ⟨m, _, heq, _⟩ := hs.activate hnet hr hx hsink hloc
      have hget := Arena.get?_newest ha.valid hx
      rw [heq]
      refine .activated (p.arena.activation ctx.rule x) rfl ⟨t, hget⟩ (fun b hb htuple => ?_)
        (fullMatch_activated hnet ha.valid hr hx hsink hloc _)
      -- A tuple that is not stored yet is no full match.
      obtain ⟨u, hu, hstored⟩ := hb.live ha.valid
      rw [htuple, Arena.activation, hget, Option.some.injEq] at hu
      exact hstored (hu ▸ hloc)
  | storeRight he hread hm hnew hmade h =>
      obtain ⟨l, right, heq, _⟩ := hs.storeRight hnet he hread hm hnew hmade
      rw [heq] at h
      cases h
      exact .nothing rfl fun _ => .rfl
  | @remove r before later x t hx hcut hsink hleaf hroot =>
      have harena := (hs.removeTuple hnet r hx hleaf hcut hsink hroot).1
      have hfull : ∀ act, FullMatch net _ act ↔ _ := fullMatch_remove ha hleaf
      rw [← harena] at hfull
      by_cases hmem : x ∈ p.arena.storedAt r.terminal
      · refine .deactivated (p.arena.activation r x) ?_ ⟨r, hcut.mem, x, hmem, rfl⟩ ?_ hfull
        · rw [events_removeTuple_eq r hx, hs.events_unstore_full hnet hcut.mem hx hmem]
        · rw [harena]
          exact SlotMap.spent_remove ha.valid hx
      · refine .nothing ?_ fun act => ?_
        · rw [events_removeTuple_eq r hx, hs.events_unstore_other hnet hcut hx hsink hmem]
        · rw [hfull, and_iff_left_iff_imp]
          rintro ⟨r', hr', y, hy, rfl⟩ rfl
          -- Only the terminal of its own rule could have had the tuple.
          have hterminal := ((Arena.mem_storedAt_of_get? ha.valid hx).mp hy).1
          obtain ⟨rfl, -⟩ := hnet.sink_inj (Cut.terminal hr') hcut (hterminal.symm.trans hsink)
          exact hmem hy
  | dropRoot hr hm hx => exact .nothing rfl fun _ => .rfl
  | dropRight he hm hentry hright => exact .nothing rfl fun _ => .rfl

/-- A reference that is spent stays spent. -/
theorem Change.spent (hnet : net.WellFormed) (h : Change net facts p p')
    (hs : Coherent net facts p.toMatchState) {x : TupleId} (hx : SlotMap.Spent p.arena x) :
    SlotMap.Spent p'.arena x := by
  have ha := hs.arena.valid
  cases h with
  | root hr hread hm hnew => exact hx.add ha _
  | child hcut hy hsink hm hentry => exact hx.add ha _
  | storeLeft he hy hsink hloc h =>
      obtain ⟨m, l, left, _, heq, _⟩ := hs.storeLeft hnet he hy hsink hloc
      rw [heq] at h
      cases h
      exact hx.modify _ _
  | activate hr hy hsink hloc =>
      obtain ⟨m, _, heq, _⟩ := hs.activate hnet hr hy hsink hloc
      rw [heq]
      exact hx.modify _ _
  | storeRight he hread hm hnew hmade h =>
      obtain ⟨l, right, heq, _⟩ := hs.storeRight hnet he hread hm hnew hmade
      rw [heq] at h
      cases h
      exact hx
  | remove hy hcut hsink hleaf hroot =>
      rw [(hs.removeTuple hnet _ hy hleaf hcut hsink hroot).1]
      exact hx.remove ha _
  | dropRoot hr hm hroot => exact hx
  | dropRight he hm hentry hright => exact hx

/-- What a single change tells keeps the log in step. -/
theorem Tells.logs (h : Tells net p p') (hlog : Logs net p.arena (log.recordAll p.events)) :
    Logs net p'.arena (log.recordAll p'.events) := by
  intro b
  cases h with
  | nothing events full =>
      rw [events]
      exact (hlog b).trans (full b).symm
  | activated act events live new full =>
      rw [events, ActivationLog.recordAll_append]
      show b ∈ act.insertByTuple (log.recordAll p.events).active ↔ FullMatch net p'.arena b
      rw [(Activation.perm_insertByTuple fun c hc => new c ((hlog c).mp hc)).mem_iff,
        List.mem_cons, full, hlog b]
      rfl
  | deactivated act events old spent full =>
      rw [events, ActivationLog.recordAll_append]
      show b ∈ (log.recordAll p.events).active.filter (·.tuple ≠ act.tuple) ↔
        FullMatch net p'.arena b
      rw [List.mem_filter, hlog b, decide_eq_true_eq, full]
      rfl

theorem Changes.logs (hnet : net.WellFormed) (h : Changes net facts p p')
    (hs : Coherent net facts p.toMatchState) (hlog : Logs net p.arena (log.recordAll p.events)) :
    Logs net p'.arena (log.recordAll p'.events) := by
  induction h with
  | refl => exact hlog
  | tail hpath hstep ih =>
      exact (hstep.tells hnet (Changes.coherent hnet hpath hs)).logs ih

end Changes

/-! ## Calls and runs -/

/-- The rules and facts of the activations in force. -/
def ActivationLog.inForce (log : ActivationLog) : List (RuleId × List Handle) :=
  log.active.map fun act => (act.rule, act.facts)

namespace Session

/-- The log of a run that was answered with the given replies. -/
def logOf (replies : List (Reply Answer)) : ActivationLog :=
  ActivationLog.empty.recordAll (replies.flatMap Reply.events)

/-- The activations in force are those of the full matches of the session. -/
def Logs (s : Session) (log : ActivationLog) : Prop := RuleMatching.Logs s.network s.state.arena log

variable {s : Session} {log : ActivationLog}

/-- A call keeps the log in step. -/
theorem Advances.logs (hs : s.Consistent) {s' : Session} {events : List ActivationEvent}
    (h : s.Advances s' events) (hlog : s.Logs log) : s'.Logs (log.recordAll events) := by
  obtain ⟨p, p', hbefore, hsound, hafter, hstate, rfl⟩ := h.changes
  have hmiddle := hbefore.logs hs.network hs.sound.coherent hlog
  have hend := hafter.logs hs.network hsound.coherent hmiddle
  rw [Logs, h.network, ← hstate]
  exact hend

/-- **A log of the events of a run has the activations of the full matches in force.** -/
theorem logs_run (hs : s.Consistent) (hlog : s.Logs log) (calls : List Call) :
    (s.run calls).1.Logs (log.recordAll ((s.run calls).2.flatMap Reply.events)) := by
  induction calls generalizing s log with
  | nil => exact hlog
  | cons c rest ih =>
      obtain ⟨hadvances, -⟩ := perform_spec hs c
      rw [run, List.flatMap_cons, ActivationLog.recordAll_append]
      exact ih hadvances.consistent (hadvances.logs hs hlog)

theorem logs_ofNetwork (net : Network) : (ofNetwork net).Logs .empty := by
  intro act
  refine ⟨fun h => (List.not_mem_nil h).elim, ?_⟩
  rintro ⟨r, -, x, hx, -⟩
  rw [ofNetwork, MatchState.ofNetwork_eq] at hx
  cases hx

end Session

end RuleMatching
