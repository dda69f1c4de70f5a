import RuleMatching.Proofs.Arena.Alike
import RuleMatching.Proofs.Arena.Linked
import RuleMatching.Proofs.Session.Leaving
import RuleMatching.Session.Linked

set_option autoImplicit false

/-! # Matches strung together

A store that finds matches along links has an arena whose tuples are strung together: the extensions
of every match, and the matches that a join has made with a fact on its right. It stands for the
matches of a state if the tuples are the same, up to where they are stored, and the threads of the
joins list what the joins have made (`MatchState.LinkedBy`). **Every single change of the matches
can be made in the strung arena as well**: a match is created (`LinkedBy.createTuple`,
`LinkedBy.addChild`), stored (`LinkedBy.setLocation`) or removed (`LinkedBy.removeTuple`), a fact
comes to the right of a join (`LinkedBy.putRight`) or leaves it (`LinkedBy.dropRight`). -/

namespace RuleMatching

open Network

variable {s s' : MatchState}

/-! ## Facts on the right -/

theorem hasRight_congr (hj : ∀ n, (s'.joins.get? n).map (·.rightEntries.keys) =
    (s.joins.get? n).map (·.rightEntries.keys)) (n : NodeId) (h : Handle) :
    s'.hasRight n h = s.hasRight n h :=
  contains_map_congr (hj n) h

theorem hasRight_of_entry {n : NodeId} {m : JoinMemory} {k : Handle} {entry : RightEntry}
    (hm : s.joins.get? n = some m) (hentry : m.rightEntries.get? k = some entry) :
    s.hasRight n k = true := by
  rw [MatchState.hasRight, hm]
  exact (FiniteMap.contains_iff _ _).mpr ⟨entry, hentry⟩

theorem hasRight_insert {n : NodeId} {m : JoinMemory} (hj : s'.joins = s.joins.insert n m)
    (n' : NodeId) (k : Handle) :
    s'.hasRight n' k = if n = n' then m.rightEntries.contains k else s.hasRight n' k := by
  unfold MatchState.hasRight
  rw [hj, FiniteMap.get?_insert]
  simp only [eq_comm]
  split <;> rfl

/-- Whether a fact is on the right of a join does not change with the other facts there. -/
theorem hasRight_insert_of_eq {n : NodeId} {m m' : JoinMemory} (hm : s.joins.get? n = some m)
    (hj : s'.joins = s.joins.insert n m') {n' : NodeId} {k : Handle}
    (hk : n = n' → m'.rightEntries.get? k = m.rightEntries.get? k) :
    s'.hasRight n' k = s.hasRight n' k := by
  rw [hasRight_insert hj]
  split
  · next hn =>
    rw [FiniteMap.contains, hk hn, MatchState.hasRight, ← hn, hm]
    rfl
  · rfl

theorem hasRight_putLeft {p : Propagation} {n : NodeId} {m : JoinMemory}
    (hm : p.joins.get? n = some m) (x : TupleId) (l : Location) (left : Memory TupleId)
    (n' : NodeId) (k : Handle) :
    (Propagation.putLeft n x m l left p).hasRight n' k = p.hasRight n' k :=
  hasRight_congr (Propagation.rightKeys_putLeft hm x l left) n' k

/-! ## What is stored and taken -/

namespace Propagation

variable {p p' : Propagation} {node : NodeId} {key : Option IndexKey} {x : TupleId} {k : Handle}

theorem exists_putLeft (h : storeLeft? node key x p = some p') :
    ∃ m l left, p.joins.get? node = some m ∧
    m.left.add? key x = some (l, left) ∧ p' = putLeft node x m l left p := by
  obtain ⟨m, hm, h⟩ := Option.bind_eq_some_iff.mp h
  obtain ⟨⟨l, left⟩, hadd, h⟩ := Option.bind_eq_some_iff.mp h
  exact ⟨m, l, left, hm, hadd, (Option.some.inj h).symm⟩

theorem exists_putRight (h : storeRight? node key k p = some p') : ∃ m l right,
    p.joins.get? node = some m ∧ m.right.add? key k = some (l, right) ∧
      p' = putRight node k m l right p := by
  obtain ⟨m, hm, h⟩ := Option.bind_eq_some_iff.mp h
  obtain ⟨⟨l, right⟩, hadd, h⟩ := Option.bind_eq_some_iff.mp h
  exact ⟨m, l, right, hm, hadd, (Option.some.inj h).symm⟩

theorem exists_full (h : storeFull? node x p = some p') : ∃ m, p.terminals.get? node = some m ∧
    p' = { p with
      terminals := p.terminals.insert node
        { m with tuples := m.tuples.add x, counters := m.counters.addLeft }
      arena := p.arena.setLocation x ⟨none, m.tuples.next⟩ } := by
  obtain ⟨m, hm, h⟩ := Option.bind_eq_some_iff.mp h
  exact ⟨m, hm, (Option.some.inj h).symm⟩

/-- A fact that is on the right of a join is taken from the place where it was stored. -/
theorem exists_dropRight {net : Network} {facts : FactStore}
    (hs : Coherent net facts p.toMatchState) (hnet : net.WellFormed) {e : Entry}
    (he : e ∈ net.allJoins) {made : List TupleId} (h : takeRight? e.node k p = some (made, p')) :
    ∃ m entry right, p.joins.get? e.node = some m ∧
      m.rightEntries.get? k = some entry ∧ m.right.remove? entry.location = some (k, right) ∧
      made = p.arena.madeBy e.node k ∧ p' = dropRight e.node k m right p := by
  have h' := h
  obtain ⟨m, hm, h'⟩ := Option.bind_eq_some_iff.mp h'
  obtain ⟨entry, hentry, -⟩ := Option.bind_eq_some_iff.mp h'
  obtain ⟨right, hremove, -⟩ := hs.dropRight hnet he hm hentry
  rw [takeRight?_eq hm hentry hremove] at h
  obtain ⟨rfl, rfl⟩ := Prod.mk.inj (Option.some.inj h)
  exact ⟨m, entry, right, hm, hentry, hremove,
    (hs.joins.fits_of_get? he hm).made k entry hentry, rfl⟩

end Propagation

namespace MatchState

/-! ## Lists of matches made -/

/-- The matches that a join has made with a fact, while the fact is on its right. -/
def madeAt (s : MatchState) (k : NodeId × Handle) : List TupleId :=
  if s.hasRight k.1 k.2 then s.arena.madeBy k.1 k.2 else []

/-- The join and the fact in whose list a match is: those that it was made with, while the fact is
on the right of the join. -/
def keptWith (s : MatchState) (t : Tuple) : Option (NodeId × Handle) :=
  t.origin.bind fun n => if s.hasRight n t.handle then some (n, t.handle) else none

theorem mem_madeAt (hs : s.arena.Valid) {k : NodeId × Handle} {x : TupleId} :
    x ∈ s.madeAt k ↔ s.hasRight k.1 k.2 = true ∧
      ∃ t, s.arena.get? x = some t ∧ t.origin = some k.1 ∧ t.handle = k.2 := by
  unfold madeAt
  split
  · next hk => rw [Arena.mem_madeBy hs, and_iff_right hk]
  · next hk => simp [hk]

theorem keptWith_eq_some_iff {t : Tuple} {k : NodeId × Handle} :
    s.keptWith t = some k ↔ s.hasRight k.1 k.2 = true ∧ t.origin = some k.1 ∧ t.handle = k.2 := by
  obtain ⟨n, h⟩ := k
  unfold keptWith
  cases t.origin with
  | none => simp
  | some n' =>
      simp only [Option.bind_some, Option.some.injEq]
      constructor
      · intro hk
        split at hk
        · next hright =>
          obtain ⟨rfl, rfl⟩ := Prod.mk.inj (Option.some.inj hk)
          exact ⟨hright, rfl, rfl⟩
        · cases hk
      · rintro ⟨hright, rfl, rfl⟩
        rw [if_pos hright]

theorem madeAt_congr (harena : s'.arena = s.arena)
    (hright : ∀ n k, s'.hasRight n k = s.hasRight n k) (k : NodeId × Handle) :
    s'.madeAt k = s.madeAt k := by
  rw [madeAt, madeAt, harena, hright]

/-- A new tuple comes in front of the list of its join and fact. -/
theorem madeAt_add (s s' : MatchState) (u : Tuple) (harena : s'.arena = SlotMap.add s.arena u)
    (hright : ∀ n k, s'.hasRight n k = s.hasRight n k) (k : NodeId × Handle) :
    s'.madeAt k =
      if s.keptWith u = some k then s.arena.next :: s.madeAt k else s.madeAt k := by
  have hiff : (s.keptWith u = some k) = (s.hasRight k.1 k.2 = true ∧ u.origin = some k.1 ∧
      u.handle = k.2) :=
    propext keptWith_eq_some_iff
  rw [madeAt, madeAt, harena, hright, Arena.madeBy_add]
  by_cases hk : s.hasRight k.1 k.2 = true
  · simp only [hiff, hk, if_true, true_and]
  · simp [hiff, hk]

/-- The tuples of the state are strung together in the arena `m`: the extensions of every tuple, and
the matches that a join has made with a fact on its right. Where they are stored may differ. -/
structure LinkedBy (s : MatchState) (m : LinkedArena (NodeId × Handle)) : Prop where
  alike : s.arena.Alike m.arena
  fits : m.Fits s.madeAt

theorem linkedBy_empty (hs : s.arena = .empty) : s.LinkedBy .empty := by
  have hmade : ∀ k, s.madeAt k = [] := fun k => by
    rw [madeAt, hs]
    exact ite_self _
  exact ⟨hs ▸ .refl _, LinkedArena.fits_empty.congr hmade⟩

namespace LinkedBy

variable {m : LinkedArena (NodeId × Handle)} (h : s.LinkedBy m)

include h

theorem mem_madeAt {x : TupleId} {t : Tuple} (hx : s.arena.get? x = some t) (k : NodeId × Handle) :
    x ∈ s.madeAt k ↔ s.keptWith t = some k := by
  obtain ⟨l, hl, -⟩ := h.alike.get? hx
  rw [keptWith_eq_some_iff, madeAt]
  split
  · next hk =>
    rw [and_iff_right hk, ← h.alike.madeBy, Arena.mem_madeBy h.fits.valid, hl]
    simp
  · next hk => simp [hk]

/-- A tuple without extensions has none in the strung arena. -/
theorem leaf {x : TupleId} (hleaf : ∀ y u, s.arena.get? y = some u → u.parent ≠ some x)
    (y : TupleId) (u : Tuple) (hy : m.arena.get? y = some u) : u.parent ≠ some x := by
  obtain ⟨l, hl, -⟩ := h.alike.symm.get? hy
  have hparent := hleaf y _ hl
  exact hparent

/-! ## Changes that concern no thread -/

theorem congr (harena : s'.arena = s.arena) (hright : ∀ n k, s'.hasRight n k = s.hasRight n k) :
    s'.LinkedBy m :=
  ⟨harena ▸ h.alike, h.fits.congr (madeAt_congr harena hright)⟩

/-- Where a tuple is stored concerns no thread. -/
theorem setLocation {x : TupleId} {l l' : Location} (harena : s'.arena = s.arena.setLocation x l)
    (hright : ∀ n k, s'.hasRight n k = s.hasRight n k) : s'.LinkedBy (m.setLocation x l') := by
  refine ⟨harena ▸ h.alike.setLocation x l l', (h.fits.setLocation x l').congr fun k => ?_⟩
  rw [madeAt, madeAt, harena, hright, Arena.madeBy_setLocation]

/-! ## Facts on the right -/

/-- A thread that starts anew is that of a join that has made no match with the fact, or does not
have it on its right. -/
theorem drop {node : NodeId} {k : Handle} (harena : s'.arena = s.arena)
    (hright : ∀ n j, ¬(node = n ∧ k = j) → s'.hasRight n j = s.hasRight n j)
    (hnil : s'.madeAt (node, k) = []) : s'.LinkedBy (m.drop (node, k)) := by
  refine ⟨harena ▸ h.alike, (h.fits.drop (node, k)).congr fun j => ?_⟩
  split
  · next hj => rw [← hj, hnil]
  · next hj => rw [madeAt, madeAt, harena, hright j.1 j.2 fun hc => hj (Prod.ext hc.1 hc.2)]

end LinkedBy

end MatchState

open MatchState

namespace MatchState.LinkedBy

variable {p : Propagation} {m : LinkedArena (NodeId × Handle)} (h : p.LinkedBy m)

include h

/-- A fact comes to the right of a join that has made no match with it. -/
theorem putRight {node : NodeId} {k : Handle} {join : JoinMemory}
    (hjoin : p.joins.get? node = some join) (hmade : p.arena.madeBy node k = []) (l : Location)
    (right : Memory Handle) :
    (Propagation.putRight node k join l right p).LinkedBy (m.drop (node, k)) := by
  refine h.drop rfl (fun n j hne => hasRight_insert_of_eq hjoin rfl fun hn => ?_) ?_
  · exact FiniteMap.get?_insert_ne _ _ fun hj => hne ⟨hn, hj.symm⟩
  · rw [madeAt]
    exact (if_congr Iff.rfl hmade rfl).trans (ite_self _)

/-- A fact leaves the right of a join, and the join gives up the thread of the matches
made with it. -/
theorem dropRight {node : NodeId} {k : Handle} {join : JoinMemory}
    (hjoin : p.joins.get? node = some join) (right : Memory Handle) :
    (Propagation.dropRight node k join right p).LinkedBy (m.drop (node, k)) := by
  refine h.drop rfl (fun n j hne => hasRight_insert_of_eq hjoin rfl fun hn => ?_) ?_
  · exact FiniteMap.get?_erase_ne _ fun hj => hne ⟨hn, hj.symm⟩
  · rw [madeAt, if_neg]
    rw [hasRight_insert (s := p.toMatchState) rfl, if_pos rfl, FiniteMap.contains,
      FiniteMap.get?_erase_self]
    exact Bool.false_ne_true

/-! ## New tuples -/

theorem alike_alloc (k : Handle) (parent : Option TupleId) (sink : NodeId)
    (origin : Option NodeId) :
    (p.arena.alloc k parent sink origin).Alike (m.alloc k parent sink origin).arena := by
  have hsize := h.alike.childSize parent
  show Arena.Alike _ (m.arena.alloc k parent sink origin)
  rw [Arena.alloc, Arena.alloc, hsize]
  exact h.alike.add _

theorem fits_alloc {parent : Option TupleId}
    (hparent : ∀ q, parent = some q → ∃ u, p.arena.get? q = some u) (k : Handle) (sink : NodeId)
    (origin : Option NodeId) : (m.alloc k parent sink origin).Fits p.madeAt :=
  h.fits.alloc fun q hq => by
    obtain ⟨u, hu⟩ := hparent q hq
    obtain ⟨l, hl, -⟩ := h.alike.get? hu
    exact ⟨_, hl⟩

/-- A match of one fact is in no list of a join. -/
theorem createTuple (k : Handle) (sink : NodeId) :
    (p.createTuple k none sink none).LinkedBy (m.alloc k none sink none) := by
  let u : Tuple := ⟨k, none, p.arena.childSize none, sink, none, none⟩
  have hfits : (m.alloc k none sink none).Fits p.madeAt :=
    h.fits_alloc (fun q hq => absurd hq (Option.some_ne_none q).symm) k sink none
  refine ⟨h.alike_alloc k none sink none, hfits.congr fun j => ?_⟩
  have hadd : (p.createTuple k none sink none).madeAt j =
      if p.keptWith u = some j then p.arena.next :: p.madeAt j else p.madeAt j :=
    madeAt_add p.toMatchState (p.createTuple k none sink none).toMatchState u rfl (fun _ _ => rfl) j
  have hkept : p.keptWith u = none := rfl
  rw [hadd, hkept]
  exact if_neg (Option.some_ne_none j).symm

/-- **An extension comes in front of the other extensions of its parent, and of the other matches
that its join has made with its fact.** -/
theorem addChild {x : TupleId} {t : Tuple} (hx : p.arena.get? x = some t) {node : NodeId}
    {k : Handle} (hright : p.hasRight node k = true) (sink : NodeId) :
    (Propagation.addChild node sink x k p).LinkedBy
      ((m.alloc k (some x) sink (some node)).link (node, k) p.arena.next) := by
  let u : Tuple := ⟨k, some x, p.arena.childSize (some x), sink, some node, none⟩
  have hparent : ∀ q, some x = some q → ∃ t, p.arena.get? q = some t := fun q hq =>
    ⟨t, Option.some.inj hq ▸ hx⟩
  have hfits := h.fits_alloc hparent k sink (some node)
  obtain ⟨hnext, -, hnew⟩ := Arena.lists_add h.fits.valid h.fits.live
    ⟨k, some x, m.arena.childSize (some x), sink, some node, none⟩
  rw [h.alike.next] at hnext hnew
  have hfits' := hfits.link hnext hnew (node, k)
  refine ⟨h.alike_alloc k (some x) sink (some node), hfits'.congr fun j => ?_⟩
  have hadd : (Propagation.addChild node sink x k p).madeAt j =
      if p.keptWith u = some j then p.arena.next :: p.madeAt j else p.madeAt j :=
    madeAt_add p.toMatchState (Propagation.addChild node sink x k p).toMatchState u rfl
      (hasRight_congr (Propagation.rightKeys_addChild node sink x k p)) j
  have hkept : p.keptWith u = some (node, k) := if_pos hright
  rw [hadd, hkept]
  exact if_congr (Option.some.injEq _ _).to_iff rfl rfl

/-! ## Tuples that go -/

/-- **A tuple without extensions is taken out of its list and removed.** -/
theorem removeTuple (rule : CompiledRule) {x : TupleId} {t : Tuple} (hx : p.arena.get? x = some t)
    (hleaf : ∀ y u, p.arena.get? y = some u → u.parent ≠ some x) :
    (Propagation.removeTuple rule p x).LinkedBy (m.discard (p.keptWith t) x) := by
  have harena := Propagation.arena_removeTuple rule x p
  refine ⟨?_, (h.fits.discard (fun k => h.mem_madeAt hx k) (h.leaf hleaf)).congr fun k => ?_⟩
  · rw [harena, LinkedArena.arena_discard]
    exact h.alike.remove x
  · rw [madeAt, madeAt, harena, Arena.madeBy_remove,
      hasRight_congr (Propagation.rightKeys_removeTuple rule x p)]
    split <;> rfl

end MatchState.LinkedBy

end RuleMatching
