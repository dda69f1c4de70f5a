import RuleMatching.Proofs.Session.Change

set_option autoImplicit false

/-! # Matches that grow

`Kept` says of a match that its facts are in and that no fact extends it twice, `Settled` that it is
extended by exactly those facts on the right of its join that join it. While a fact enters, the
settled matches stay settled and new ones are settled as soon as they are done: `Grows` describes
the state after some pairs of a match and a fact were joined, `Stores` the state after a new match
was handed on. -/

namespace RuleMatching

open Network

/-- The fact joins the facts bound before it at the entry. -/
def Entry.joins (facts : FactStore) (e : Entry) (bound : List Handle) (h : Handle) : Bool :=
  match facts.get? h with
  | some f => e.condition.passes (factsOf facts bound) f
  | none => false

/-- The tuple extends the match by the fact. -/
def Extends (a : Arena) (x : TupleId) (h : Handle) (c : TupleId) : Prop :=
  ∃ u, a.get? c = some u ∧ u.parent = some x ∧ u.handle = h

/-- The last fact of the match is in at its entry. -/
def Backed (net : Network) (s : MatchState) (t : Tuple) : Prop :=
  ∀ r before e later, net.Cut r before (e :: later) → t.sink = r.sinkAfter later →
    s.holds e.node t.handle = true

/-- A match of one pattern is the one that its adapter knows. -/
def Rooted (net : Network) (s : MatchState) (x : TupleId) (t : Tuple) : Prop :=
  t.parent = none → ∀ r ∈ net.rules, t.sink = r.sinkAfter r.joins →
    ∀ m, s.adapters.get? r.first.node = some m → m.roots.get? t.handle = some x

/-- A match that is stored, of facts that are in, and extended by no fact twice. -/
structure Kept (net : Network) (s : MatchState) (x : TupleId) (t : Tuple) : Prop where
  stored : t.location ≠ none
  backed : Backed net s t
  rooted : Rooted net s x t
  unique : ∀ h c c', Extends s.arena x h c → Extends s.arena x h c' → c = c'

/-- A match that is kept, and extended by exactly the facts on the right of its join
that join it. -/
structure Settled (net : Network) (facts : FactStore) (s : MatchState) (x : TupleId) (t : Tuple) :
    Prop extends Kept net s x t where
  joined : ∀ e ∈ net.allJoins, t.sink = e.node → ∀ h, s.holds e.node h = true →
    (e.joins facts (s.arena.handles x) h = true ↔ ∃ c, Extends s.arena x h c)

/-- The facts that are in are the same ones. -/
structure SameFacts (s s' : MatchState) : Prop where
  holds : ∀ n h, s'.holds n h = s.holds n h
  adapters : s'.adapters = s.adapters

theorem SameFacts.refl (s : MatchState) : SameFacts s s := ⟨fun _ _ => rfl, rfl⟩

theorem SameFacts.trans {s s' s'' : MatchState} (h : SameFacts s s') (h' : SameFacts s' s'') :
    SameFacts s s'' :=
  ⟨fun n k => (h'.holds n k).trans (h.holds n k), h'.adapters.trans h.adapters⟩

/-- Some matches were joined with some facts, and the extensions were handed on. -/
structure Grows (net : Network) (facts : FactStore) (pairs : List (TupleId × Handle))
    (p p' : Propagation) : Prop where
  changes : Changes net facts p p'
  same : SameFacts p.toMatchState p'.toMatchState
  kept : ∀ y t, p.arena.get? y = some t → p'.arena.get? y = some t
  fresh : ∀ y t, p.arena.get? y = none → p'.arena.get? y = some t →
    ∃ z, t.parent = some z ∧ ((z, t.handle) ∈ pairs ∨ p.arena.get? z = none)
  made : ∀ z h, (z, h) ∈ pairs → ∃ c, p.arena.get? c = none ∧ Extends p'.arena z h c ∧
    ∀ c', p.arena.get? c' = none → Extends p'.arena z h c' → c' = c
  settled : ∀ y t, p.arena.get? y = none → p'.arena.get? y = some t →
    Settled net facts p'.toMatchState y t

/-- A new match was stored at its sink, and its extensions were handed on. -/
structure Stores (net : Network) (facts : FactStore) (x : TupleId) (p p' : Propagation) : Prop where
  changes : Changes net facts p p'
  same : SameFacts p.toMatchState p'.toMatchState
  kept : ∀ y t, y ≠ x → p.arena.get? y = some t → p'.arena.get? y = some t
  placed : ∀ t, p.arena.get? x = some t → ∃ l, p'.arena.get? x = some { t with location := some l }
  fresh : ∀ y t, p.arena.get? y = none → p'.arena.get? y = some t →
    ∃ z, t.parent = some z ∧ (z = x ∨ p.arena.get? z = none)
  settled : ∀ y t, y = x ∨ p.arena.get? y = none → p'.arena.get? y = some t →
    Settled net facts p'.toMatchState y t

variable {net : Network} {facts : FactStore} {p p' p'' : Propagation}

/-! ## Extensions -/

/-- A new tuple extends its parent alone. -/
theorem extends_add {a : Arena} (ha : SlotMap.Valid a) (u : Tuple) (x : TupleId) (h : Handle)
    (c : TupleId) :
    Extends (SlotMap.add a u) x h c ↔
      if c = a.next then u.parent = some x ∧ u.handle = h else Extends a x h c := by
  unfold Extends
  simp only [SlotMap.get?_add ha]
  split <;> simp

/-- Where a match is stored has no part in what extends what. -/
theorem extends_setLocation (a : Arena) (y : TupleId) (l : Location) (x : TupleId) (h : Handle)
    (c : TupleId) : Extends (a.setLocation y l) x h c ↔ Extends a x h c := by
  unfold Extends
  rw [Arena.get?_setLocation]
  split
  · simp [Option.map_eq_some_iff]
  · rfl

/-- Matches other than the new one have the extensions that they had. -/
theorem Stores.extends_iff {x y : TupleId} (hstores : Stores net facts x p p') {t u : Tuple}
    (hx : p.arena.get? x = some t) (hy : p.arena.get? y = some u) (hne : y ≠ x) (h : Handle)
    (c : TupleId) : Extends p'.arena y h c ↔ Extends p.arena y h c := by
  obtain ⟨l, hplaced⟩ := hstores.placed t hx
  by_cases hc : c = x
  · subst hc
    unfold Extends
    rw [hplaced, hx]
    simp
  · constructor
    · rintro ⟨v, hv, hp, hh⟩
      cases hold : p.arena.get? c with
      | some w =>
          rw [hstores.kept c w hc hold] at hv
          cases hv
          exact ⟨_, hold, hp, hh⟩
      | none =>
          -- A new tuple hangs below the stored match, and so does not extend another one
          -- that was there.
          obtain ⟨z, hz, hmem⟩ := hstores.fresh c v hold hv
          rw [hp] at hz
          cases hz
          rcases hmem with heq | hdead
          · exact absurd heq hne
          · rw [hy] at hdead
            cases hdead
    · rintro ⟨v, hv, hp, hh⟩
      exact ⟨v, hstores.kept c v hc hv, hp, hh⟩

/-! ## What a settled match depends on -/

/-- Matches that stay keep their facts. -/
theorem Arena.handles_kept {a a' : Arena} (ha : a.WellFormed) (ha' : a'.WellFormed)
    (hkept : ∀ y t, a.get? y = some t → ∃ t', a'.get? y = some t' ∧ t'.handle = t.handle ∧
      t'.parent = t.parent) {x : TupleId} {t : Tuple} (hx : a.get? x = some t) :
    a'.handles x = a.handles x := by
  refine Arena.handles_congr ha ha' (S := fun y => ∃ u, a.get? y = some u) ?_ ⟨t, hx⟩ hx
  rintro y u - hu
  obtain ⟨u', hu', hh, hp⟩ := hkept y u hu
  exact ⟨u', hu', hh, hp, fun q hq => Arena.parent_live ha hu hq⟩

/-- A settled match stays settled while it is extended no further and the facts stay the same. -/
theorem Settled.congr {s s' : MatchState} {x : TupleId} {t : Tuple} (h : Settled net facts s x t)
    (hsame : SameFacts s s') (hhandles : s'.arena.handles x = s.arena.handles x)
    (hext : ∀ k c, Extends s'.arena x k c ↔ Extends s.arena x k c) : Settled net facts s' x t := by
  refine ⟨⟨h.stored, fun r before e later hcut hsink => ?_, fun hp r hr hsink m hm => ?_,
    fun k c c' hc hc' => ?_⟩, fun e he hsink k hk => ?_⟩
  · rw [hsame.holds]
    exact h.backed r before e later hcut hsink
  · rw [hsame.adapters] at hm
    exact h.rooted hp r hr hsink m hm
  · exact h.unique k c c' ((hext k c).mp hc) ((hext k c').mp hc')
  · rw [hsame.holds] at hk
    rw [hhandles, h.joined e he hsink k hk]
    exact exists_congr fun c => (hext k c).symm

namespace Grows

variable {pairs pairs' : List (TupleId × Handle)}

theorem refl (net : Network) (facts : FactStore) (p : Propagation) : Grows net facts [] p p := by
  refine ⟨.refl, .refl _, fun _ _ h => h, fun y t hy ht => ?_, fun z h hzh => ?_,
    fun y t hy ht => ?_⟩
  · rw [hy] at ht
    cases ht
  · cases hzh
  · rw [hy] at ht
    cases ht

theorem live_of_live (h : Grows net facts pairs p p') {y : TupleId} (hy : p'.arena.get? y = none) :
    p.arena.get? y = none := by
  cases hy' : p.arena.get? y with
  | none => rfl
  | some t =>
      rw [h.kept y t hy'] at hy
      cases hy

/-- A match that waits at a node still does so. -/
theorem live_sink (h : Grows net facts pairs p p') {y : TupleId} {n : NodeId}
    (hy : ∃ t, p.arena.get? y = some t ∧ t.sink = n) :
    ∃ t, p'.arena.get? y = some t ∧ t.sink = n := by
  obtain ⟨t, ht, hsink⟩ := hy
  exact ⟨t, h.kept y t ht, hsink⟩

/-- The extensions of a match were there before, or they are new ones by one of the pairs. -/
theorem extends_cases (h : Grows net facts pairs p p') {x c : TupleId} {t : Tuple} {k : Handle}
    (hx : p.arena.get? x = some t) (hext : Extends p'.arena x k c) :
    Extends p.arena x k c ∨ (p.arena.get? c = none ∧ (x, k) ∈ pairs) := by
  obtain ⟨u, hu, hp, hh⟩ := hext
  cases hc : p.arena.get? c with
  | some v =>
      rw [h.kept c v hc] at hu
      cases hu
      exact Or.inl ⟨_, hc, hp, hh⟩
  | none =>
      obtain ⟨z, hz, hmem⟩ := h.fresh c u hc hu
      rw [hp] at hz
      cases hz
      rcases hmem with hmem | hdead
      · rw [hh] at hmem
        exact Or.inr ⟨rfl, hmem⟩
      · rw [hx] at hdead
        cases hdead

/-- Matches outside the pairs get no extensions. -/
theorem extends_iff (h : Grows net facts pairs p p') {x : TupleId} {t : Tuple}
    (hx : p.arena.get? x = some t) {k : Handle} (hk : (x, k) ∉ pairs) (c : TupleId) :
    Extends p'.arena x k c ↔ Extends p.arena x k c := by
  constructor
  · intro hext
    rcases h.extends_cases hx hext with hold | ⟨-, hmem⟩
    · exact hold
    · exact absurd hmem hk
  · rintro ⟨u, hu, hp, hh⟩
    exact ⟨u, h.kept c u hu, hp, hh⟩

/-- A settled match outside the pairs stays settled. -/
theorem settled_of_not_mem (hnet : net.WellFormed) (hs : Coherent net facts p.toMatchState)
    (h : Grows net facts pairs p p') {x : TupleId} {t : Tuple} (hx : p.arena.get? x = some t)
    (hpairs : ∀ k, (x, k) ∉ pairs) (hset : Settled net facts p.toMatchState x t) :
    Settled net facts p'.toMatchState x t := by
  refine hset.congr h.same ?_ fun k c => h.extends_iff hx (hpairs k) c
  exact Arena.handles_kept hs.arena (h.changes.coherent hnet hs).arena
    (fun y u hu => ⟨u, h.kept y u hu, rfl, rfl⟩) hx

/-- **Growth by some pairs and then by others is growth by all of them.** -/
theorem trans (hnet : net.WellFormed) (hs : Coherent net facts p.toMatchState)
    (h : Grows net facts pairs p p') (h' : Grows net facts pairs' p' p'')
    (hlive : ∀ z k, (z, k) ∈ pairs ++ pairs' → ∃ t, p.arena.get? z = some t)
    (hdis : ∀ zk ∈ pairs, zk ∉ pairs') : Grows net facts (pairs ++ pairs') p p'' := by
  -- What the first part created is in no pair of the second, since those matches were live
  -- from the start.
  have hnew : ∀ y t, p.arena.get? y = none → p'.arena.get? y = some t → ∀ k, (y, k) ∉ pairs' := by
    intro y t hy _ k hmem
    obtain ⟨u, hu⟩ := hlive y k (List.mem_append_right _ hmem)
    rw [hy] at hu
    cases hu
  -- A tuple of the last state is new in the second part or was there before it.
  have hcases : ∀ y t, p''.arena.get? y = some t → p'.arena.get? y = some t ∨
      p'.arena.get? y = none := by
    intro y t ht
    cases hy : p'.arena.get? y with
    | none => exact Or.inr rfl
    | some u =>
        rw [h'.kept y u hy] at ht
        exact Or.inl ht
  refine ⟨h.changes.trans h'.changes, h.same.trans h'.same,
    fun y t hy => h'.kept y t (h.kept y t hy), ?_, ?_, ?_⟩
  · intro y t hy ht
    rcases hcases y t ht with hmid | hmid
    · obtain ⟨z, hz, hmem⟩ := h.fresh y t hy hmid
      exact ⟨z, hz, hmem.imp (List.mem_append_left _) id⟩
    · obtain ⟨z, hz, hmem⟩ := h'.fresh y t hmid ht
      exact ⟨z, hz, hmem.imp (List.mem_append_right _) h.live_of_live⟩
  · intro z k hzk
    obtain ⟨t, hz⟩ := hlive z k hzk
    have hz' := h.kept z t hz
    rcases List.mem_append.mp hzk with hmem | hmem
    · obtain ⟨c, hc, hext, huniq⟩ := h.made z k hmem
      have hiff := h'.extends_iff hz' (hdis _ hmem)
      exact ⟨c, hc, (hiff c).mpr hext, fun c' hc' hext' => huniq c' hc' ((hiff c').mp hext')⟩
    · have hiff := h.extends_iff hz (k := k) fun hmem' => hdis _ hmem' hmem
      obtain ⟨c, hc, hext, huniq⟩ := h'.made z k hmem
      refine ⟨c, h.live_of_live hc, hext, fun c' hc' hext' => ?_⟩
      -- An extension from the first part would have been there from the start, as its pair
      -- is not in it.
      rcases h'.extends_cases hz' hext' with hmid | ⟨hmid, -⟩
      · obtain ⟨v, hv, -⟩ := (hiff c').mp hmid
        rw [hc'] at hv
        cases hv
      · exact huniq c' hmid hext'
  · intro y t hy ht
    rcases hcases y t ht with hmid | hmid
    · exact h'.settled_of_not_mem hnet (h.changes.coherent hnet hs) hmid (hnew y t hy hmid)
        (h.settled y t hy hmid)
    · exact h'.settled y t hmid ht

end Grows

end RuleMatching
