import RuleMatching.Proofs.Session.Counters

set_option autoImplicit false

/-! # Stores that follow the matches

The work of a call is told once for all stores of matches. A store simulates the matches of a
session if what a call can see in it is the same (`MatchStore.Shows`) and if every single change
that a call makes can be made in it as well (`MatchStore.Simulates`). **Then all work of a call on
the store leads where it leads without the store**: matches are removed
(`MatchStore.Simulates.deleteTuple`), handed on (`MatchStore.Simulates.leftInsert`), and a fact
leaves some entries and enters others (`MatchStore.Simulates.run`). A store may have room for a
limited number of matches only; what is left of it is seen from the number of matches created so
far, which never goes down. -/

namespace RuleMatching

open Network Propagation

/-- A fact that is in at a join is on its right. -/
theorem Coherent.hasRight_of_holds {net : Network} (hnet : net.WellFormed) {facts : FactStore}
    {s : MatchState} (hs : Coherent net facts s) {e : Entry} (he : e ∈ net.allJoins) {h : Handle}
    (hheld : s.holds e.node h = true) : s.hasRight e.node h = true := by
  rw [MatchState.holds, hs.adapter_eq_none hnet he] at hheld
  exact hheld

/-- The number of matches created so far does not go down. -/
theorem Changes.created_le {net : Network} {facts : FactStore} {p p' : Propagation}
    (h : Changes net facts p p') (hnet : net.WellFormed) (hs : Coherent net facts p.toMatchState) :
    p.counters.created ≤ p'.counters.created :=
  (h.counts hnet hs).2.tuples.1

namespace MatchStore

variable {π : Type} [MatchStore π]

/-- A call sees the same in the store `q` as in the matches `p`. -/
structure Shows (p : Propagation) (q : π) : Prop where
  handles : ∀ t, handles q t = handles p t
  children : ∀ t, children q t = children p t
  size : size q = size p
  adapters : adapters q = adapters p
  waiting : ∀ n key, waiting? q n key = waiting? p n key
  facing : ∀ n key, facing? q n key = facing? p n key
  hasRight : ∀ n h, hasRight q n h = hasRight p n h
  events : events q = events p

/-- What a store owes. `R p q` says that the store `q` stands for the matches `p`. It shows them,
and it goes along with the changes that the work of a call makes, each where the work makes it:
while there are not more matches created than the limit, and where a match or fact that goes is one
that is there. -/
structure Simulates (net : Network) (limit : Nat) (R : Propagation → π → Prop) : Prop where
  shows : ∀ {p q}, R p q → Shows p q
  setAdapters : ∀ {p q}, R p q → ∀ adapters, R (setAdapters adapters p) (setAdapters adapters q)
  tally : ∀ {p q}, R p q → ∀ f : TupleCounters → TupleCounters, (∀ c, c.created ≤ (f c).created) →
    R (tally f p) (tally f q)
  emit : ∀ {p q}, R p q → ∀ event, R (emit event p) (emit event q)
  root : ∀ {p q}, R p q → p.counters.created < limit → ∀ h sink,
    ∃ q', newTuple h none sink none q = (p.arena.next, q') ∧ R (p.createTuple h none sink none) q'
  child : ∀ {p q}, R p q → p.counters.created < limit → ∀ {x t}, p.arena.get? x = some t →
    ∀ {node h}, p.hasRight node h = true → ∀ sink,
      ∃ q', newTuple h (some x) sink (some node) q = (p.arena.next, q') ∧
        R (addChild node sink x h p) (linkMade node h p.arena.next q')
  storeLeft : ∀ {p p' q}, R p q → ∀ {node key x}, storeLeft? node key x p = some p' →
    ∃ q', storeLeft? node key x q = some q' ∧ R p' q'
  storeFull : ∀ {p p' q}, R p q → ∀ {node x}, storeFull? node x p = some p' →
    ∃ q', storeFull? node x q = some q' ∧ R p' q'
  storeRight : ∀ {p p' q}, R p q → ∀ {node key h}, p.arena.madeBy node h = [] →
    storeRight? node key h p = some p' → ∃ q', storeRight? node key h q = some q' ∧ R p' q'
  takeRight : ∀ {p p' q}, R p q → ∀ {facts}, Coherent net facts p.toMatchState →
    ∀ {e}, e ∈ net.allJoins → ∀ {h made}, takeRight? e.node h p = some (made, p') →
      ∃ q', takeRight? e.node h q = some (made, q') ∧ R p' q'
  remove : ∀ {p q}, R p q → ∀ {facts rule x}, Removable net facts rule p x →
    R (removeTuple rule p x) (removeTuple rule q x)

/-- The work on the store leads where the work on the matches leads, and the same error stops it. -/
structure Agrees (R : Propagation → π → Prop) (o : Result) (o' : Result π) : Prop where
  follows : R o.1 o'.1
  stopped : o'.2 = o.2

/-- A match that is still to be stored is handed on in the store as it is without it, if there is
room for the extensions. -/
def HandsOnAlike (net : Network) (facts : FactStore) (limit : Nat) (R : Propagation → π → Prop)
    (r : CompiledRule) (later : List Entry) (next : TupleId → Propagation → Result)
    (next' : TupleId → π → Result π) : Prop :=
  ∀ x t p q, Coherent net facts p.toMatchState → Pending net p x t r later → R p q →
    (next x p).1.counters.created ≤ limit → Agrees R (next x p) (next' x q)

variable {R : Propagation → π → Prop} {net : Network} {facts : FactStore} {limit : Nat}
  {p : Propagation} {q : π}

omit [MatchStore π] in
theorem Agrees.exists_eq {p' : Propagation} {err : Option EngineError} {o' : Result π}
    (h : Agrees R (p', err) o') : ∃ q', o' = (q', err) ∧ R p' q' :=
  ⟨o'.1, Prod.ext rfl h.stopped, h.follows⟩

/-! ## What a call looks up -/

namespace Shows

variable (h : Shows p q)

include h

theorem tupleFacts (ctx : PropagationContext) : tupleFacts ctx q = tupleFacts ctx p :=
  funext fun t => congrArg (List.mapM (fact ctx)) (h.handles t)

theorem leftMatches (ctx : PropagationContext) (e : Entry) (t : TupleId) :
    leftMatches ctx e t q = leftMatches ctx e t p := by
  simp only [Propagation.leftMatches, h.tupleFacts, h.facing]

theorem rightMatches (ctx : PropagationContext) (e : Entry) (k : Handle) :
    rightMatches ctx e k q = rightMatches ctx e k p := by
  simp only [Propagation.rightMatches, h.tupleFacts, h.waiting, h.hasRight]

end Shows

namespace Simulates

variable (hsim : Simulates net limit R)

include hsim

/-! ## Matches that go -/

/-- Matches are removed in turn, each after its extensions. -/
theorem clears {rule : CompiledRule} {depth : Nat} {ts : List TupleId}
    (h : Clears net facts rule depth ts p) (hR : R p q) :
    R (ts.foldl (deleteWithin rule depth) p) (ts.foldl (deleteWithin rule depth) q) := by
  induction h generalizing q with
  | nil => exact hR
  | leaf _ hx _ ih => exact ih (hsim.remove hR hx)
  | @node p depth x rest _ hx _ ih ih' =>
      rw [List.foldl_cons, List.foldl_cons]
      refine ih' ?_
      -- The store lists the same extensions, so the same matches go below this one.
      have hchildren : children q x = p.arena.children x := (hsim.shows hR).children x
      have hnode : deleteWithin rule (depth + 1) q x =
          removeTuple rule ((p.arena.children x).foldl (deleteWithin rule depth) q) x := by
        rw [deleteWithin, hchildren]
      rw [hnode]
      exact hsim.remove (ih hR) hx

variable (hnet : net.WellFormed)

include hnet

/-- **A match is removed with its extensions.** -/
theorem deleteTuple {rule : CompiledRule} {x : TupleId} (hs : Coherent net facts p.toMatchState)
    (hroot : Unrooted p.toMatchState x) (hrule : OfRule net p.arena rule x) (hR : R p q) :
    R (deleteTuple rule p x) (deleteTuple rule q x) := by
  have hsize : size q = p.arena.size := (hsim.shows hR).size
  have hclears := hsim.clears (hs.clears_single hnet hroot hrule) hR
  rw [← hsize] at hclears
  rw [Propagation.deleteTuple, Propagation.deleteTuple]
  exact hsize ▸ hclears

/-- Matches with a parent are removed one after the other. -/
theorem foldl_deleteTuple (rule : CompiledRule) (l : List TupleId)
    (hs : Coherent net facts p.toMatchState)
    (hl : ∀ x ∈ l, ∀ t, p.arena.get? x = some t → t.parent ≠ none)
    (hrule : ∀ x ∈ l, OfRule net p.arena rule x) (hR : R p q) :
    R (l.foldl (Propagation.deleteTuple rule) p) (l.foldl (Propagation.deleteTuple rule) q) := by
  induction l generalizing p q with
  | nil => exact hR
  | cons x rest ih =>
      have hroot := hs.unrooted (hl x List.mem_cons_self)
      have hfirst := deleteTuple_spec hnet hs hroot (hrule x List.mem_cons_self)
      exact ih (hfirst.changes.coherent hnet hs)
        (fun y hy t ht => hl y (List.mem_cons_of_mem x hy) t (hfirst.sub y t ht))
        (fun y hy t ht => hrule y (List.mem_cons_of_mem x hy) t (hfirst.sub y t ht))
        (hsim.deleteTuple hnet hs hroot (hrule x List.mem_cons_self) hR)

/-! ## Extensions -/

section Extend

variable {ctx : PropagationContext} {before later : List Entry} {e : Entry}
  {next : TupleId → Propagation → Result} {next' : TupleId → π → Result π}
  (hnext : HandsOn net facts ctx.rule later next)
  (halike : HandsOnAlike net facts limit R ctx.rule later next next')
  (hcut : net.Cut ctx.rule before (e :: later))

include hnext halike hcut

theorem extend (hs : Coherent net facts p.toMatchState) (hR : R p q) {x : TupleId} {t : Tuple}
    (hx : p.arena.get? x = some t) (hsink : t.sink = e.node) {k : Handle}
    (hheld : p.holds e.node k = true)
    (hroom : (extend ctx e.node (ctx.rule.sinkAfter later) next x k p).1.counters.created ≤ limit) :
    Agrees R (extend ctx e.node (ctx.rule.sinkAfter later) next x k p)
      (extend ctx e.node (ctx.rule.sinkAfter later) next' x k q) := by
  have he := hs.join_of_sink hnet hx hcut hsink
  have hpending := pending_addChild hnet hs hcut hx hheld
  have hs₁ := (change_addChild hnet hs hcut hx hsink hheld).coherent hnet hs
  obtain ⟨p', hrun, hstores⟩ := hnext _ _ _ hs₁ hpending
  rw [extend_eq hrun] at hroom ⊢
  have hcreated : p.counters.created + 1 ≤ p'.counters.created :=
    hstores.changes.created_le hnet hs₁
  obtain ⟨q₁, hnew, hR₁⟩ := hsim.child hR (hcreated.trans hroom) hx
    (hs.hasRight_of_holds hnet he hheld) (ctx.rule.sinkAfter later)
  have hagrees := halike _ _ _ _ hs₁ hpending hR₁ (hrun ▸ hroom)
  rw [hrun] at hagrees
  obtain ⟨q', hq', hR'⟩ := hagrees.exists_eq
  rw [Propagation.extend, hnew]
  simp only [hq']
  exact ⟨hR', rfl⟩

theorem each_extend {α : Type} (pair : α → TupleId × Handle) {l : List α}
    (hs : Coherent net facts p.toMatchState) (hR : R p q) (hnodup : (l.map pair).Nodup)
    (hlive : ∀ a ∈ l, ∃ t, p.arena.get? (pair a).1 = some t ∧ t.sink = e.node)
    (hheld : ∀ a ∈ l, p.holds e.node (pair a).2 = true)
    (hroom :
      (each (fun a p => Propagation.extend ctx e.node (ctx.rule.sinkAfter later) next
        (pair a).1 (pair a).2 p) l p).1.counters.created ≤ limit) :
    Agrees R
      (each (fun a p => Propagation.extend ctx e.node (ctx.rule.sinkAfter later) next
        (pair a).1 (pair a).2 p) l p)
      (each (fun a q => Propagation.extend ctx e.node (ctx.rule.sinkAfter later) next'
        (pair a).1 (pair a).2 q) l q) := by
  induction l generalizing p q with
  | nil => exact ⟨hR, rfl⟩
  | cons a rest ih =>
      rw [List.map_cons, List.nodup_cons] at hnodup
      obtain ⟨t, hx, hsink⟩ := hlive a List.mem_cons_self
      have hk := hheld a List.mem_cons_self
      obtain ⟨p₁, hrun, hgrows⟩ := extend_spec hnet hs hnext hcut hx hsink hk
      have hs₁ := hgrows.changes.coherent hnet hs
      have hlive₁ : ∀ b ∈ rest, ∃ t, p₁.arena.get? (pair b).1 = some t ∧ t.sink = e.node :=
        fun b hb => hgrows.live_sink (hlive b (List.mem_cons_of_mem a hb))
      have hheld₁ : ∀ b ∈ rest, p₁.holds e.node (pair b).2 = true := fun b hb => by
        rw [hgrows.same.holds]
        exact hheld b (List.mem_cons_of_mem a hb)
      -- There is room for the first extension if there is for the others after it.
      obtain ⟨p', hrest, hgrows'⟩ :=
        each_extend_spec hnet pair hnext hcut hs₁ hnodup.2 hlive₁ hheld₁
      have hcreated := hgrows'.changes.created_le hnet hs₁
      rw [each, hrun] at hroom ⊢
      simp only [hrest] at hroom
      have hagrees := extend hsim hnet hnext halike hcut hs hR hx hsink hk
        (by rw [hrun]; exact hcreated.trans hroom)
      rw [hrun] at hagrees
      obtain ⟨q₁, hq, hR₁⟩ := hagrees.exists_eq
      rw [each, hq]
      exact ih hs₁ hR₁ hnodup.2 hlive₁ hheld₁ (by rw [hrest]; exact hroom)

end Extend

/-- **A match is handed on in the store as it is without it.** -/
theorem leftInsert {ctx : PropagationContext} (hctx : ctx.facts = facts) {before later : List Entry}
    (hcut : net.Cut ctx.rule before later) :
    HandsOnAlike net facts limit R ctx.rule later (leftInsert ctx later)
      (leftInsert ctx later) := by
  -- On the joins that the match has not passed, as for the matches alone.
  induction later generalizing before with
  | nil =>
      intro x t p q hs hpending hR _
      obtain ⟨m, hm, -, -⟩ :=
        hs.activate hnet hcut.mem hpending.newest hpending.sink hpending.unstored
      obtain ⟨p', hp'⟩ : ∃ p', storeFull? ctx.rule.terminal x p = some p' :=
        ⟨_, by simp only [storeFull?, Propagation.storeFull?, hm]; rfl⟩
      obtain ⟨q', hq', hR'⟩ := hsim.storeFull hR hp'
      simp only [Propagation.leftInsert, activate, hp', hq', (hsim.shows hR).handles x]
      exact ⟨hsim.emit (hsim.tally hR' TupleCounters.activate fun _ => le_rfl) _, rfl⟩
  | cons e later ih =>
      intro x t p q hs hpending hR hroom
      have hsink : t.sink = e.node := hpending.sink
      have hget := Arena.get?_newest hs.arena.valid hpending.newest
      have he := hs.join_of_sink hnet hget hcut hsink
      obtain ⟨m, l, left, hm, hstore, hs₁⟩ :=
        hs.storeLeft hnet he hpending.newest hsink hpending.unstored
      obtain ⟨q₁, hq₁, hR₁⟩ := hsim.storeLeft hR hstore
      have hmatches := leftMatches_eq hnet hs hctx hcut he hget hsink hm
      have hstore' : storeLeft? e.node (leftKeyOf facts p.arena e x) x p =
          some (putLeft e.node x m l left p) := hstore
      rw [Propagation.leftInsert, hmatches] at hroom ⊢
      rw [Propagation.leftInsert, (hsim.shows hR).leftMatches, hmatches]
      simp only [hstore', hq₁] at hroom ⊢
      refine each_extend hsim hnet (leftInsert_spec hnet hctx hcut.next) (ih hcut.next) hcut
        (fun k => (x, k)) hs₁ hR₁ ?_ (fun k _ => ⟨_, get?_stored hs hpending rfl, hsink⟩)
        (fun k hk => ?_) hroom
      · exact (m.rightEntries.nodup_keys.filter _).map fun _ _ heq => (Prod.mk.inj heq).2
      · exact holds_putLeft hnet hs he hm x l left (List.mem_of_mem_filter hk)

/-! ## Facts that enter -/

section Enter

variable (ctx : PropagationContext) (hctx : ctx.facts = facts)

include hctx

theorem assertRoot (hr : ctx.rule ∈ net.rules) (hs : Coherent net facts p.toMatchState) (hR : R p q)
    {k : Handle} (hread : Readable facts ctx.rule.first k)
    (hnot : p.holds ctx.rule.first.node k = false)
    (hroom : (assertRoot ctx ctx.rule.first ctx.rule.joins k p).1.counters.created ≤ limit) :
    Agrees R (assertRoot ctx ctx.rule.first ctx.rule.joins k p)
      (assertRoot ctx ctx.rule.first ctx.rule.joins k q) := by
  obtain ⟨m, p', hm, hnew, hchange, hstores, hrun, heq⟩ :=
    assertRoot_eq ctx hnet hctx hr hs hread hnot
  have hs₁ := hchange.coherent hnet hs
  have hpending := pending_addRoot hnet hs hr hm k
  have hcontains : m.roots.contains k = false := (FiniteMap.contains_eq_false_iff _ _).mpr hnew
  rw [heq] at hroom ⊢
  have hcreated : p.counters.created + 1 ≤ p'.counters.created :=
    hstores.changes.created_le hnet hs₁
  obtain ⟨q₁, hnew', hR₁⟩ :=
    hsim.root hR (hcreated.trans hroom) k (ctx.rule.sinkAfter ctx.rule.joins)
  have hadapters : adapters q = p.adapters := (hsim.shows hR).adapters
  have hadapters₁ : adapters q₁ = p.adapters := (hsim.shows hR₁).adapters
  have hR₂ := hsim.setAdapters hR₁ (p.adapters.insert ctx.rule.first.node
    { m with roots := m.roots.insert k p.arena.next, counters := m.counters.addLeft })
  have hagrees := hsim.leftInsert hnet hctx (Cut.first hr).next _ _ _ _ hs₁ hpending hR₂
    (hrun ▸ hroom)
  rw [hrun] at hagrees
  obtain ⟨q', hq', hR'⟩ := hagrees.exists_eq
  simp only [Propagation.assertRoot, hadapters, hm, hcontains, Bool.false_eq_true, if_false, hnew',
    hadapters₁, hq']
  exact ⟨hR', rfl⟩

theorem rightInsert {before later : List Entry} {e : Entry}
    (hcut : net.Cut ctx.rule before (e :: later)) (he : e ∈ net.allJoins)
    (hs : Sound net facts p.toMatchState) (hR : R p q) {k : Handle} (hread : Readable facts e k)
    (hnot : p.holds e.node k = false)
    (hroom : (rightInsert ctx e later k p).1.counters.created ≤ limit) :
    Agrees R (rightInsert ctx e later k p) (rightInsert ctx e later k q) := by
  obtain ⟨m, hm, -⟩ := hs.coherent.joins.at_site e he
  have hnew := hs.coherent.rightEntry_eq_none hnet he hm hnot
  have hmade := hs.madeBy_eq_nil hnet he hnot
  obtain ⟨l, right, hstore, hs₁⟩ := hs.coherent.storeRight hnet he hread hm hnew hmade
  obtain ⟨q₁, hq₁, hR₁⟩ := hsim.storeRight hR hmade hstore
  have hmatches := rightMatches_eq hnet hs.coherent hctx hcut he hread hm hnew
  have hstore' : storeRight? e.node (rightKeyOf facts e k) k p =
      some (putRight e.node k m l right p) :=
    hstore
  rw [Propagation.rightInsert, hmatches] at hroom ⊢
  rw [Propagation.rightInsert, (hsim.shows hR).rightMatches, hmatches]
  simp only [hstore', hq₁] at hroom ⊢
  refine each_extend hsim hnet (leftInsert_spec hnet hctx hcut.next)
    (hsim.leftInsert hnet hctx hcut.next) hcut (fun x => (x, k)) hs₁ hR₁ ?_ (fun x hx => ?_)
    (fun _ _ => ?_) hroom
  · exact ((Arena.nodup_storedAt hs.coherent.arena.valid _).filter _).map
      fun _ _ heq => (Prod.mk.inj heq).1
  · obtain ⟨t, _, ht, hsink, _⟩ :=
      (Arena.mem_storedAt hs.coherent.arena.valid).mp (List.mem_filter.mp hx).1
    exact ⟨t, ht, hsink⟩
  · exact (holds_putRight hnet hs.coherent he hm k l right e.node k).mpr (Or.inr ⟨rfl, rfl⟩)

end Enter

/-- **A fact enters at an entry of the store as it does without it.** -/
theorem assertAt (hs : Sound net facts p.toMatchState) (hR : R p q) {n : NodeId} {place : Place}
    (hplace : net.place? n = some place) {k : Handle} {f : Fact} (hf : facts.get? k = some f)
    (hnot : p.holds n k = false) (hroom : (assertAt facts place k p).1.counters.created ≤ limit) :
    Agrees R (assertAt facts place k p) (assertAt facts place k q) := by
  cases assertAt_branch hnet hplace facts k with
  | absent hnone => cases hnone.symm.trans hf
  | unreadable hf' hreads =>
      rw [assertAt_of_unreadable _ hf' hreads, assertAt_of_unreadable _ hf' hreads]
      exact ⟨hR, rfl⟩
  | @first rule hr hpos hread =>
      rw [assertAt_first _ hpos hread] at hroom ⊢
      rw [assertAt_first _ hpos hread]
      exact hsim.assertRoot hnet ⟨facts, k, rule⟩ rfl hr hs.coherent hR hread hnot hroom
  | @join rule _ _ _ hcut he hpos hread =>
      rw [assertAt_join _ hpos hread] at hroom ⊢
      rw [assertAt_join _ hpos hread]
      exact hsim.rightInsert hnet ⟨facts, k, rule⟩ rfl hcut he hs hR hread hnot hroom

/-! ## Facts that leave -/

theorem retractRoot (hs : Sound net facts p.toMatchState) (hR : R p q) {rule : CompiledRule}
    (hr : rule ∈ net.rules) {k : Handle} (hheld : p.holds rule.first.node k = true) :
    Agrees R (retractRoot rule rule.first.node k p) (retractRoot rule rule.first.node k q) := by
  obtain ⟨m, x, t, hm, hx, -, -, -, -, hchange, hroot, hrule, heq⟩ :=
    retractRoot_eq hnet hs hr hheld
  have hadapters : adapters q = p.adapters := (hsim.shows hR).adapters
  have hR₁ := hsim.setAdapters hR (p.adapters.insert rule.first.node
    { m with roots := m.roots.erase k, counters := m.counters.removeLeft })
  rw [heq]
  simp only [Propagation.retractRoot, hadapters, hm, Option.bind_some, hx, Option.map_some]
  exact ⟨hsim.deleteTuple hnet (hchange.coherent hnet hs.coherent) hroot hrule hR₁, rfl⟩

theorem rightRemove (hs : Coherent net facts p.toMatchState) (hR : R p q) {rule : CompiledRule}
    {before later : List Entry} {e : Entry} (hcut : net.Cut rule before (e :: later))
    (he : e ∈ net.allJoins) {k : Handle} (hheld : p.holds e.node k = true) :
    Agrees R (rightRemove rule e.node k p) (rightRemove rule e.node k q) := by
  obtain ⟨m, hm, hfits⟩ := hs.joins.at_site e he
  obtain ⟨entry, hentry⟩ := (hs.holds_join_iff hnet he hm k).mp hheld
  obtain ⟨right, hremove, hs₁⟩ := hs.dropRight hnet he hm hentry
  have htake : takeRight? e.node k p = some (entry.made, dropRight e.node k m right p) :=
    takeRight?_eq hm hentry hremove
  obtain ⟨q₁, hq₁, hR₁⟩ := hsim.takeRight hR hs he htake
  rw [Propagation.rightRemove, htake, Propagation.rightRemove, hq₁]
  have hmade := fun y => ofRule_of_mem_madeBy hnet hs hcut he (h := k) (y := y)
  rw [← hfits.made k entry hentry] at hmade
  exact ⟨hsim.foldl_deleteTuple hnet rule entry.made hs₁ (fun y hy => (hmade y hy).1)
    (fun y hy => (hmade y hy).2) hR₁, rfl⟩

/-- **A fact leaves an entry of the store as it does without it.** -/
theorem retractAt (hs : Sound net facts p.toMatchState) (hR : R p q) {n : NodeId} {place : Place}
    (hplace : net.place? n = some place) {k : Handle} (hheld : p.holds n k = true) :
    Agrees R (retractAt place k p) (retractAt place k q) := by
  obtain ⟨hn, before, hcut⟩ := WellFormed.cut_of_place? hplace
  rw [← hn] at hheld
  rw [Propagation.retractAt, Propagation.retractAt]
  rcases hnet.first_or_join hcut with ⟨hpos, hfirst, -⟩ | ⟨hpos, he⟩
  · rw [if_pos hpos, if_pos hpos, ← hfirst]
    rw [← hfirst] at hheld
    exact hsim.retractRoot hnet hs hR hcut.mem hheld
  · rw [if_neg hpos, if_neg hpos]
    exact hsim.rightRemove hnet hs.coherent hR hcut he hheld

/-! ## A fact at several entries -/

/-- A fact leaves entries that it is in. -/
theorem leaveRun {k : Handle} {l : List NodeId} {p' : Propagation}
    (hrun : LeaveRun net facts k l p p') (hR : R p q) :
    Agrees R (p', none) (leaveAll net k l q) := by
  induction hrun generalizing q with
  | nil => exact ⟨hR, rfl⟩
  | cons hs hplace hheld hretract _ _ ih =>
      have hagrees := hsim.retractAt hnet hs hR hplace hheld
      rw [hretract] at hagrees
      obtain ⟨q₁, hq, hR₁⟩ := hagrees.exists_eq
      rw [leaveAll_cons hplace hq]
      exact ih hR₁

/-- A fact enters entries that it is not in, up to the first whose joins cannot read it. -/
theorem enterRun {k : Handle} {f : Fact} {l : List NodeId} {o : Result}
    (hrun : EnterRun net facts k f l p o) (hf : facts.get? k = some f) (hR : R p q)
    (hroom : o.1.counters.created ≤ limit) : Agrees R o (enterAll net facts k l q) := by
  induction hrun generalizing q with
  | nil => exact ⟨hR, rfl⟩
  | stop hs hplace hnot _ hassert =>
      have hagrees := hsim.assertAt hnet hs hR hplace hf hnot (by rw [hassert]; exact hroom)
      rw [hassert] at hagrees
      obtain ⟨q₁, hq, hR₁⟩ := hagrees.exists_eq
      rw [enterAll_stop hplace hq]
      exact ⟨hR₁, rfl⟩
  | cons hs hplace hnot _ hassert henters hrest ih =>
      obtain ⟨p', rfl, hentered⟩ := hrest.enters
      have hcreated := hentered.changes.created_le hnet (henters.changes.coherent hnet hs.coherent)
      have hagrees := hsim.assertAt hnet hs hR hplace hf hnot
        (by rw [hassert]; exact hcreated.trans hroom)
      rw [hassert] at hagrees
      obtain ⟨q₁, hq, hR₁⟩ := hagrees.exists_eq
      rw [enterAll_cons hplace hq]
      exact ih hR₁ hroom

end Simulates

end MatchStore

end RuleMatching
