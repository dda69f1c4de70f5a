import RuleMatching.Proofs.Session.Linking
import RuleMatching.Proofs.Session.Matches

set_option autoImplicit false

/-! # Sessions that follow links

A session that follows links answers every call as the session does that searches the arena
(`LinkedSession.keeps_run`). In every state that a run leads to **the links are coherent**
(`LinksCoherent`, `LinkedSession.links_run`): the extensions of a tuple and the matches that a join
has made with a fact are strung together, each once; every way along links ends, those up to the
first fact and those that the removal of a match takes among them; and a fact that leaves one of its
entries leaves coherent links behind, although the start of a thread is given up before the matches
of the thread are removed. -/

namespace RuleMatching

open Network Session

/-! ## Coherent links -/

/-- The links say the same as the matches, and every way along them ends. -/
structure LinksCoherent (net : Network) (p : LinkedPropagation) : Prop where
  /-- A tuple that has a parent has one fact more than the parent, which is live. -/
  parent : ∀ x t q, p.arena.get? x = some t → t.parent = some q →
    ∃ u, p.arena.get? q = some u ∧ t.size = u.size + 1
  /-- The thread of a tuple lists the live tuples with this parent, each once. -/
  children : ∀ q, ∃ l, Walk p.older (p.links.siblings.newest.get? q) l ∧ p.children q = l ∧
    l.Nodup ∧
    ∀ x, x ∈ l ↔ ∃ t, p.arena.get? x = some t ∧ t.parent = some q
  /-- The thread of a fact on the right of a join lists the live tuples that the join has made with
  it, each once. -/
  made : ∀ n m, p.joins.get? n = some m → ∀ k ∈ m.right.items,
    (∃ entry, m.rightEntries.get? k = some entry) ∧
      ∃ l, Walk p.olderFellow (p.links.fellows.newest.get? (n, k)) l ∧ l.Nodup ∧
        ∀ x, x ∈ l ↔ ∃ t, p.arena.get? x = some t ∧ t.origin = some n ∧ t.handle = k
  /-- The root of a fact at an adapter is the live match of this fact alone. -/
  root : ∀ n m, p.adapters.get? n = some m → ∀ k x, m.roots.get? k = some x →
    ∃ t, p.arena.get? x = some t ∧ t.parent = none ∧ t.size = 1 ∧ p.arena.handles x = [k] ∧
      ∀ y u, p.arena.get? y = some u → u.sink = t.sink → p.arena.handles y = [k] → y = x
  /-- The way up from a tuple passes its facts from the last to the first. They are as many as its
  size says, and in the order of the patterns of its rule, each in at the entry of its pattern. -/
  handles : ∀ x t, p.arena.get? x = some t →
    (∃ path, Walk (fun y => (p.arena.get? y).bind Tuple.parent) (some x) path ∧
      List.Forall₂ (fun y k => ∃ u, p.arena.get? y = some u ∧
        u.handle = k) path (p.arena.handles x).reverse) ∧
    (p.arena.handles x).length = t.size ∧
    ∃ r before later, net.Cut r before later ∧ t.sink = r.sinkAfter later ∧
      List.Forall₂ (fun (e : Entry) k => p.holds e.node k = true) before (p.arena.handles x)
  /-- The removal of a tuple with its extensions ends. -/
  deletes : ∀ rule x, Deletes rule p [x] (Propagation.deleteTuple rule p x)

/-- **Links that string the matches of a sound state together are coherent.** -/
theorem LinkedPropagation.linksCoherent {net : Network} (hnet : net.WellFormed) {facts : FactStore}
    {p : LinkedPropagation} (hs : Sound net facts p.toMatchState) (h : p.LinkedBy p.strung) :
    LinksCoherent net p := by
  have ha := wellFormed h
  have hsized : ∀ x t, p.arena.get? x = some t → t.size = (p.arena.handles x).length :=
    h.fits.siblings.sized
  refine ⟨fun x t q hx hq => ?_, fun q => ?_, fun n m hm k hk => ?_, fun n m hm k x hx => ?_,
    fun x t hx => ?_, fun rule x => (deleteTuple_unlinks rule h x).deletes⟩
  · obtain ⟨u, hu⟩ := Arena.parent_live ha hx hq
    refine ⟨u, hu, ?_⟩
    rw [hsized x t hx, hsized q u hu, Arena.handles_child ha hx hq, List.length_append]
    rfl
  · exact ⟨p.arena.children q, walk_children h q, children_eq h q, Arena.nodup_children ha q,
      fun x => Arena.mem_children ha⟩
  · obtain ⟨e, he, rfl⟩ := hs.coherent.joins.only_sites n m hm
    have hfits := hs.coherent.joins.fits_of_get? he hm
    have hkey := (hfits.right.holds.perm_items m.rightEntries.nodup_keys).mem_iff.mp hk
    obtain ⟨entry, hentry⟩ := (FiniteMap.mem_keys_iff _ _).mp hkey
    have hright : p.hasRight e.node k = true := hasRight_of_entry hm hentry
    refine ⟨⟨entry, hentry⟩, p.madeAt (e.node, k), walk_made h (e.node, k),
      h.fits.fellows.nodup _, fun x => ?_⟩
    rw [MatchState.mem_madeAt ha.valid, and_iff_right hright]
  · obtain ⟨r, hr, rfl⟩ := hs.coherent.adapters.only_sites n m hm
    obtain ⟨t, ht, hp, rfl, hsink⟩ := (hs.coherent.adapters.fits_of_get? hr hm).root k x hx
    have hhandles := Arena.handles_root ha ht hp
    refine ⟨t, ht, hp, ?_, hhandles, fun y u hy husink hyhandles => ?_⟩
    · rw [hsized x t ht, hhandles]
      rfl
    -- A match at the same place is one of a single pattern too, and the adapter knows one
    -- for each fact.
    · have hl := hs.coherent.lineage_of_next hnet hy (Cut.first hr) (husink.trans hsink)
      have hup := (hl.root rfl).1
      rw [Arena.handles_root ha hy hup, List.singleton_inj] at hyhandles
      have hy' := (hs.kept y u hy).rooted hup r hr (husink.trans hsink) m hm
      rw [hyhandles, hx] at hy'
      exact (Option.some.inj hy').symm
  · obtain ⟨r, before, e, later, hl⟩ := hs.coherent.lineage x t hx
    exact ⟨Arena.exists_walk_up ha hx, (hsized x t hx).symm, r, before ++ [e], later,
      hl.cut.next, hl.sink, hs.held_of_sink hnet hx hl.cut.next hl.sink⟩

namespace LinkedSession

/-- The matches and links of a session when a call begins. -/
def atWork (w : LinkedSession) : LinkedPropagation := SessionState.resume w.state []

/-- Without its links the session is the one that has the matches alone. -/
theorem session_eq {s : Session} {w : LinkedSession}
    (h : SessionState.Keeps LinkedPropagation.Follows s w) : session w = s := by
  obtain ⟨hw, hfollows⟩ := h
  have hnetwork : w.network = s.network := congrArg Session.network hw
  have hfacts : w.facts = s.facts := congrArg Session.facts hw
  have hcalls : w.calls = s.calls := congrArg Session.calls hw
  have hstate : w.state.toMatchState = s.state :=
    congrArg Propagation.toMatchState hfollows.matches_eq
  show (⟨w.network, w.facts, w.state.toMatchState, w.calls⟩ : Session) = s
  rw [hnetwork, hfacts, hstate, hcalls]

/-- A run along links leads where the run leads without them, and is answered alike. -/
theorem keeps_run {net : Network} (hnet : net.WellFormed) (calls : List Call) :
    SessionState.Keeps LinkedPropagation.Follows ((Session.ofNetwork net).run calls).1
        ((ofNetwork net).run calls).1 ∧
      ((ofNetwork net).run calls).2 = ((Session.ofNetwork net).run calls).2 :=
  (LinkedPropagation.simulates hnet _).run_ofNetwork hnet calls le_rfl

/-- **In every state that a run leads to the links are coherent**, and they are so again after a
fact has left any of the entries that it is in. The calls are answered as they are without links,
and lead to the same matches. -/
theorem links_run {rules : List Rule} {schemas : SchemaRegistry} {config : Config} {net : Network}
    (hbuild : Network.build rules schemas config = .ok net) (calls : List Call) :
    let w := ((ofNetwork net).run calls).1
    session w = ((Session.ofNetwork net).run calls).1 ∧
      ((ofNetwork net).run calls).2 = ((Session.ofNetwork net).run calls).2 ∧
      LinksCoherent net (atWork w) ∧
      ∀ n place h, net.place? n = some place → (session w).state.holds n h = true →
        ∃ q, Propagation.retractAt place h (atWork w) = (q, none) ∧
          LinkedPropagation.Retracts place h (atWork w) q ∧ LinksCoherent net q := by
  have hnet := wellFormed_build hbuild
  intro w
  obtain ⟨hkeeps, hreplies⟩ := keeps_run hnet calls
  have hsession : session w = ((Session.ofNetwork net).run calls).1 := session_eq hkeeps
  obtain ⟨hnetwork, hconsistent, -⟩ := Session.run_ofNetwork hnet calls
  have hsound := hconsistent.sound
  rw [hnetwork, ← hsession] at hsound
  have hlinked : (atWork w).LinkedBy (atWork w).strung := by
    have hlinked := hkeeps.2.linked
    rwa [← hkeeps.2.matches_eq] at hlinked
  refine ⟨hsession, hreplies, LinkedPropagation.linksCoherent hnet hsound hlinked,
    fun n place h hplace hheld => ?_⟩
  obtain ⟨p₁, hrun, hleaves⟩ :=
    Propagation.retractAt_spec (p := (atWork w).toPropagation) hnet hsound hplace hheld
  have hagrees := (LinkedPropagation.simulates hnet 0).retractAt hnet hsound
    (LinkedPropagation.follows_self hlinked) hplace hheld
  rw [hrun] at hagrees
  obtain ⟨q, hq, hfollows⟩ := hagrees.exists_eq
  have hretracts := LinkedPropagation.retracts_retractAt hnet hsound hlinked hplace hheld
  rw [hq] at hretracts
  obtain ⟨rfl, hlinked'⟩ := hfollows
  exact ⟨q, hq, hretracts, LinkedPropagation.linksCoherent hnet hleaves.sound hlinked'⟩

/-- An order leaves the right of the join of `pairRule`, where two matches have been
made with it. -/
theorem links_orders : ∃ net place, Network.build [pairRule] orderSchemas .standard = .ok net ∧
    net.place? 1 = some place ∧ place.entry.position = 1 ∧
    let w := ((ofNetwork net).run orderCalls).1
    ((session w).state.madeAt (1, 5)).length = 2 ∧ (session w).state.holds 1 5 = true ∧
      LinksCoherent net (atWork w) ∧
      ∃ q, Propagation.retractAt place 5 (atWork w) = (q, none) ∧
        LinkedPropagation.Retracts place 5 (atWork w) q ∧ LinksCoherent net q := by
  obtain ⟨net, place, hnet, hplace, hposition, hmade, hheld⟩ : ∃ net place,
      Network.build [pairRule] orderSchemas .standard = .ok net ∧ net.place? 1 = some place ∧
        place.entry.position = 1 ∧
        ((session ((ofNetwork net).run orderCalls).1).state.madeAt (1, 5)).length = 2 ∧
        (session ((ofNetwork net).run orderCalls).1).state.holds 1 5 = true :=
    ⟨_, _, rfl, rfl, rfl, by decide +kernel, by decide +kernel⟩
  obtain ⟨-, -, hcoherent, hretracts⟩ := links_run hnet orderCalls
  exact ⟨net, place, hnet, hplace, hposition, hmade, hheld, hcoherent,
    hretracts 1 place 5 hplace hheld⟩

end LinkedSession

end RuleMatching
