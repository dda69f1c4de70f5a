import RuleMatching.Proofs.Session.SimulatedRuns
import RuleMatching.Proofs.Session.Unlinking

set_option autoImplicit false

/-! # Work along links

A store that follows links has the matches of the state that it stands for, and strings them
together (`LinkedPropagation.Follows`). **It simulates the matches**
(`LinkedPropagation.simulates`): every change that a call makes leads to matches that are strung
together again. How a fact leaves an entry along links is told step by step
(`LinkedPropagation.Retracts`): the root of the fact, or the start of a thread of matches, is given
up, and then the matches that hang there are removed along their links. -/

namespace RuleMatching

open Network Propagation

namespace LinkedPropagation

/-- The store has the matches, and strings them together. -/
structure Follows (p : Propagation) (q : LinkedPropagation) : Prop where
  matches_eq : q.toPropagation = p
  linked : p.LinkedBy q.strung

variable {net : Network} {facts : FactStore} {p p' : Propagation} {q : LinkedPropagation}

theorem follows_self (h : q.LinkedBy q.strung) : Follows q.toPropagation q := ⟨rfl, h⟩

/-- Going through the thread of a fact on the right of a join ends, and lists what the
join has made. -/
theorem walk_made (h : q.LinkedBy q.strung) (k : NodeId × Handle) :
    Walk q.olderFellow (q.links.fellows.newest.get? k) (q.madeAt k) :=
  (h.fits.fellows.strung k).walk

theorem strung_linkMade {node : NodeId} {k : Handle} (hright : q.hasRight node k = true)
    (x : TupleId) : (MatchStore.linkMade node k x q).strung = q.strung.link (node, k) x := by
  show (linkMade node k x q).strung = _
  rw [linkMade, if_pos hright]
  rfl

namespace Follows

variable (h : Follows p q)

include h

/-- Where a tuple is stored concerns no thread. -/
theorem setLocation {x : TupleId} {l : Location} (harena : p'.arena = p.arena.setLocation x l)
    (hright : ∀ n k, p'.hasRight n k = p.hasRight n k) :
    Follows p' { q with toPropagation := p' } := by
  obtain ⟨rfl, hlinked⟩ := h
  have hstrung : LinkedPropagation.strung { q with toPropagation := p' } =
      q.strung.setLocation x l := by
    rw [LinkedPropagation.strung, harena]
    rfl
  exact ⟨rfl, hstrung ▸ hlinked.setLocation harena hright⟩

theorem shows : MatchStore.Shows p q := by
  obtain ⟨rfl, hlinked⟩ := h
  exact ⟨fun _ => rfl, fun t => children_eq hlinked t, rfl, rfl, fun _ _ => rfl, fun _ _ => rfl,
    fun _ _ => rfl, rfl⟩

theorem child {x : TupleId} {t : Tuple} (hx : p.arena.get? x = some t) {node : NodeId} {k : Handle}
    (hright : p.hasRight node k = true) (sink : NodeId) :
    ∃ q', newTuple k (some x) sink (some node) q = (p.arena.next, q') ∧
      Follows (addChild node sink x k p) (MatchStore.linkMade node k p.arena.next q') := by
  obtain ⟨rfl, hlinked⟩ := h
  refine ⟨_, rfl, rfl, ?_⟩
  rw [strung_linkMade]
  · exact hlinked.addChild hx hright sink
  · exact hright

theorem storeLeft {node : NodeId} {key : Option IndexKey} {x : TupleId}
    (hstore : MatchStore.storeLeft? node key x p = some p') :
    ∃ q', MatchStore.storeLeft? node key x q = some q' ∧ Follows p' q' := by
  have hq : MatchStore.storeLeft? node key x q =
      q.withMatches (MatchStore.storeLeft? node key x q.toPropagation) := rfl
  rw [hq, h.matches_eq, hstore]
  obtain ⟨m, l, left, hm, -, rfl⟩ := exists_putLeft hstore
  exact ⟨_, rfl, h.setLocation rfl (hasRight_putLeft hm x l left)⟩

theorem storeFull {node : NodeId} {x : TupleId}
    (hstore : MatchStore.storeFull? node x p = some p') :
    ∃ q', MatchStore.storeFull? node x q = some q' ∧ Follows p' q' := by
  have hq : MatchStore.storeFull? node x q =
      q.withMatches (MatchStore.storeFull? node x q.toPropagation) := rfl
  rw [hq, h.matches_eq, hstore]
  obtain ⟨m, -, rfl⟩ := exists_full hstore
  exact ⟨_, rfl, h.setLocation rfl fun _ _ => rfl⟩

theorem storeRight {node : NodeId} {key : Option IndexKey} {k : Handle}
    (hmade : p.arena.madeBy node k = []) (hstore : MatchStore.storeRight? node key k p = some p') :
    ∃ q', MatchStore.storeRight? node key k q = some q' ∧ Follows p' q' := by
  obtain ⟨rfl, hlinked⟩ := h
  obtain ⟨m, l, right, hm, -, rfl⟩ := exists_putRight hstore
  refine ⟨_, congrArg (Option.map _) hstore, rfl, hlinked.putRight hm hmade l right⟩

/-- **A fact leaves the right of a join, and the matches made with it are found along their
thread**, which is as it was although its start is given up. -/
theorem takeRight (hnet : net.WellFormed) (hs : Coherent net facts p.toMatchState) {e : Entry}
    (he : e ∈ net.allJoins) {k : Handle} {made : List TupleId}
    (htake : MatchStore.takeRight? e.node k p = some (made, p')) :
    ∃ q', MatchStore.takeRight? e.node k q = some (made, q') ∧ Follows p' q' ∧
      Walk q'.olderFellow (q.links.fellows.newest.get? (e.node, k)) made := by
  obtain ⟨rfl, hlinked⟩ := h
  obtain ⟨m, entry, right, hm, hentry, -, hmade, rfl⟩ := exists_dropRight hs hnet he htake
  have hmadeAt : q.madeAt (e.node, k) = made := by
    rw [hmade]
    exact if_pos (hasRight_of_entry hm hentry)
  have hstrung := hlinked.fits.fellows.strung (e.node, k)
  rw [hmadeAt] at hstrung
  have hlength : made.length ≤ q.arena.size + 1 := by
    rw [hmade]
    exact Nat.le_succ_of_le (Arena.length_madeBy_le _ _ _)
  have hthread :
      (q.links.fellows.beside q.arena).thread (q.links.fellows.newest.get? (e.node, k)) = made :=
    Strung.thread_eq hstrung hlength
  refine ⟨⟨dropRight e.node k m right q.toPropagation,
    { q.links with fellows := q.links.fellows.restart (e.node, k) none }⟩, ?_,
    ⟨rfl, hlinked.dropRight hm right⟩, hstrung.walk⟩
  refine (congrArg (Option.map _) htake).trans ?_
  simp only [Option.map_some, ← hthread]
  rfl

end Follows

/-- **A store that follows links simulates the matches.** -/
theorem simulates (hnet : net.WellFormed) (limit : Nat) :
    SessionState.Simulates (σ := LinkedState) net limit Follows where
  shows h := h.shows
  setAdapters h _ := by
    obtain ⟨rfl, hlinked⟩ := h
    exact ⟨rfl, hlinked.congr rfl fun _ _ => rfl⟩
  tally h _ _ := by
    obtain ⟨rfl, hlinked⟩ := h
    exact ⟨rfl, hlinked.congr rfl fun _ _ => rfl⟩
  emit h _ := by
    obtain ⟨rfl, hlinked⟩ := h
    exact ⟨rfl, hlinked.congr rfl fun _ _ => rfl⟩
  root h _ k sink := by
    obtain ⟨rfl, hlinked⟩ := h
    exact ⟨_, rfl, rfl, hlinked.createTuple k sink⟩
  child h _ _ _ hx _ _ hright sink := h.child hx hright sink
  storeLeft h := h.storeLeft
  storeFull h := h.storeFull
  storeRight h _ _ _ hmade hstore := h.storeRight hmade hstore
  takeRight h _ hs _ he _ _ htake := by
    obtain ⟨q', hq', hfollows, -⟩ := h.takeRight hnet hs he htake
    exact ⟨q', hq', hfollows⟩
  remove h _ rule x hx := by
    obtain ⟨rfl, hlinked⟩ := h
    rw [← toPropagation_removeTuple]
    exact follows_self (linkedBy_removeTuple rule hlinked hx.leaf)
  start := by
    have harena : (MatchState.ofNetwork net).arena = .empty := by rw [MatchState.ofNetwork_eq]
    have hstrung : LinkedPropagation.strung ⟨⟨.ofNetwork net, []⟩, .empty⟩ = .empty := by
      rw [strung, harena]
      rfl
    refine ⟨rfl, ?_⟩
    show MatchState.LinkedBy _ (LinkedPropagation.strung ⟨⟨.ofNetwork net, []⟩, .empty⟩)
    rw [hstrung]
    exact MatchState.linkedBy_empty harena
  restart h := by
    obtain ⟨rfl, hlinked⟩ := h
    exact ⟨rfl, hlinked⟩
  holds h n k := by
    rw [← h.matches_eq]
    rfl

/-! ## Facts that leave -/

/-- A fact leaves an entry: the adapter gives up its root, or the join the entry of the fact, and
then the matches that hang there are removed along their links. -/
inductive Retracts (place : Place) (k : Handle) (p : LinkedPropagation) : LinkedPropagation → Prop
  | root {m : AdapterMemory} {x : TupleId} {q : LinkedPropagation} (hpos : place.entry.position = 0)
      (hm : p.adapters.get? place.entry.node = some m) (hx : m.roots.get? k = some x)
      (deletes : Deletes place.rule
        { p with
          adapters := p.adapters.insert place.entry.node
            { m with roots := m.roots.erase k, counters := m.counters.removeLeft } } [x] q) :
      Retracts place k p q
  | right {p₁ q : LinkedPropagation} {made : List TupleId} (hpos : place.entry.position ≠ 0)
      (htake : MatchStore.takeRight? place.entry.node k p = some (made, p₁))
      (walk : Walk p₁.olderFellow (p.links.fellows.newest.get? (place.entry.node, k)) made)
      (deletes : Deletes place.rule p₁ made q) : Retracts place k p q

/-- **A fact that is in at an entry leaves it along links.** -/
theorem retracts_retractAt (hnet : net.WellFormed) {p : LinkedPropagation}
    (hs : Sound net facts p.toMatchState) (h : p.LinkedBy p.strung) {n : NodeId} {place : Place}
    (hplace : net.place? n = some place) {k : Handle} (hheld : p.holds n k = true) :
    Retracts place k p (retractAt place k p).1 := by
  obtain ⟨hn, before, hcut⟩ := WellFormed.cut_of_place? hplace
  rw [← hn] at hheld
  rw [retractAt]
  rcases hnet.first_or_join hcut with ⟨hpos, hfirst, -⟩ | ⟨hpos, he⟩
  · rw [← hfirst] at hheld
    obtain ⟨m, x, t, hm, hx, -⟩ := retractRoot_eq hnet hs hcut.mem hheld
    rw [hfirst] at hm
    obtain ⟨p₁, hp₁⟩ : ∃ p₁ : LinkedPropagation, p₁ = { p with
        adapters := p.adapters.insert place.entry.node
          { m with roots := m.roots.erase k, counters := m.counters.removeLeft } } := ⟨_, rfl⟩
    have hlinked : p₁.LinkedBy p₁.strung := by
      rw [hp₁]
      exact h.congr rfl fun _ _ => rfl
    have hdeletes := (deleteTuple_unlinks place.rule hlinked x).deletes
    rw [hp₁] at hdeletes
    have hadapters : MatchStore.adapters p = p.adapters := rfl
    rw [if_pos hpos, retractRoot]
    simp only [hadapters, hm, Option.bind_some, hx, Option.map_some]
    exact .root hpos hm hx hdeletes
  · obtain ⟨m, hm, hfits⟩ := hs.coherent.joins.at_site _ he
    obtain ⟨entry, hentry⟩ := (hs.coherent.holds_join_iff hnet he hm k).mp hheld
    obtain ⟨right, hremove, -⟩ := hs.coherent.dropRight hnet he hm hentry
    obtain ⟨p₁, htake, hfollows, hwalk⟩ :=
      (follows_self h).takeRight hnet hs.coherent he (takeRight?_eq hm hentry hremove)
    have hlinked : p₁.LinkedBy p₁.strung := by
      rw [hfollows.matches_eq]
      exact hfollows.linked
    rw [if_neg hpos, rightRemove]
    simp only [htake]
    exact .right hpos htake hwalk (foldl_deleteTuple place.rule entry.made hlinked).deletes

end LinkedPropagation

end RuleMatching
