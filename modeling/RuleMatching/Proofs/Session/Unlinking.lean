import RuleMatching.Proofs.Session.Links

set_option autoImplicit false

/-! # Removing along links

`Deletes` is the removal of a match along links without any bound: the thread of the match is gone
through, the extensions found there are removed in turn, each with its own, and then the match
itself. **Where the tuples are strung together this always ends**, in a state where they are so
again (`LinkedPropagation.deleteTuple_unlinks`, `Deletes.unique`), although every removal changes
links that later ones follow. -/

namespace RuleMatching

open Network Propagation

/-- The tuples of the store with their links. -/
def LinkedPropagation.strung (p : LinkedPropagation) : LinkedArena (NodeId × Handle) :=
  ⟨p.arena, p.links.siblings, p.links.fellows⟩

/-- The neighbour that comes next in a thread of extensions. -/
def LinkedPropagation.older (p : LinkedPropagation) (c : TupleId) : Option TupleId :=
  (p.links.siblings.neighboursOf c).older

/-- The neighbour that comes next in a thread of matches of one join with one fact. -/
def LinkedPropagation.olderFellow (p : LinkedPropagation) (c : TupleId) : Option TupleId :=
  (p.links.fellows.neighboursOf c).older

/-- Tuples are removed in turn, each after the extensions that are found in its thread. -/
inductive Deletes (rule : CompiledRule) :
    LinkedPropagation → List TupleId → LinkedPropagation → Prop
  | nil (p : LinkedPropagation) : Deletes rule p [] p
  | cons {p q q' : LinkedPropagation} {t : TupleId} {children rest : List TupleId}
      (walk : Walk p.older (p.links.siblings.newest.get? t) children)
        (below : Deletes rule p children q)
      (others : Deletes rule (removeTuple rule q t) rest q') : Deletes rule p (t :: rest) q'

/-- A walk is determined by its start. -/
theorem Walk.unique {next : TupleId → Option TupleId} {start : Option TupleId} {l l' : List TupleId}
    (h : Walk next start l) (h' : Walk next start l') : l = l' := by
  induction h generalizing l' with
  | done =>
      cases h'
      rfl
  | step _ ih =>
      cases h' with
      | step rest' => rw [ih rest']

namespace Deletes

variable {rule : CompiledRule} {p q q' : LinkedPropagation} {ts rest : List TupleId} {t : TupleId}

/-- There is one state only that the removal leads to. -/
theorem unique (h : Deletes rule p ts q) (h' : Deletes rule p ts q') : q = q' := by
  induction h generalizing q' with
  | nil =>
      cases h'
      rfl
  | cons walk _ _ ihbelow ihothers =>
      cases h' with
      | cons walk' below' others' =>
          cases walk.unique walk'
          cases ihbelow below'
          exact ihothers others'

theorem cons_of_single (h : Deletes rule p [t] q) (h' : Deletes rule q rest q') :
    Deletes rule p (t :: rest) q' := by
  cases h with
  | cons walk below others =>
      cases others
      exact .cons walk below h'

end Deletes

/-! ## One tuple -/

namespace LinkedPropagation

variable {p : LinkedPropagation} (rule : CompiledRule) {x : TupleId} {t : Tuple}

theorem strung_release (hx : p.arena.get? x = some t) :
    (p.release x).strung = p.strung.release x := by
  unfold LinkedArena.release
  simp only [strung, release, hx, Option.bind_some]
  rfl

theorem strung_unlinkMade (node : NodeId) (h : Handle) (x : TupleId) (p : LinkedPropagation) :
    (p.unlinkMade node h x).strung =
      if p.hasRight node h then p.strung.unlink (node, h) x else p.strung := by
  unfold unlinkMade
  split <;> rfl

/-- Taking a match out of the memory of its sink concerns no link. -/
theorem unstore_eq (x : TupleId) (t : Tuple) (p : LinkedPropagation) :
    unstore rule x t p = { p with toPropagation := unstore rule x t p.toPropagation } := by
  unfold unstore
  cases t.location with
  | none => rfl
  | some l =>
      have hleft : MatchStore.removeLeft? t.sink l p =
          p.withMatches (MatchStore.removeLeft? t.sink l p.toPropagation) := rfl
      have hfull : MatchStore.removeFull? t.sink l p =
          p.withMatches (MatchStore.removeFull? t.sink l p.toPropagation) := rfl
      simp only [hleft, hfull]
      cases MatchStore.removeLeft? t.sink l p.toPropagation with
      | some q => rfl
      | none => cases MatchStore.removeFull? t.sink l p.toPropagation <;> rfl

/-- A match is removed along links as it is without them. -/
theorem toPropagation_removeTuple (p : LinkedPropagation) (x : TupleId) :
    (removeTuple rule p x).toPropagation = removeTuple rule p.toPropagation x := by
  have htuple : MatchStore.tuple? p x = p.arena.get? x := rfl
  have htuple' : MatchStore.tuple? p.toPropagation x = p.arena.get? x := rfl
  unfold removeTuple
  rw [htuple, htuple']
  cases p.arena.get? x with
  | none => rfl
  | some t =>
      simp only [unstore_eq, forgetMade]
      cases t.origin <;> rfl

/-- A match that is removed is taken out of its threads. -/
theorem strung_removeTuple (hx : p.arena.get? x = some t) :
    (removeTuple rule p x).strung = p.strung.discard (p.keptWith t) x := by
  have htuple : MatchStore.tuple? p x = some t := hx
  obtain ⟨u, hu⟩ : ∃ u : LinkedPropagation, u = unstore rule x t p := ⟨_, rfl⟩
  have harena : u.arena = p.arena := by
    rw [hu, unstore_eq]
    exact (arena_adapters_unstore rule x t p.toPropagation).1
  have hlinks : u.links = p.links := by rw [hu, unstore_eq]
  have hright : ∀ n, u.hasRight n t.handle = p.hasRight n t.handle := fun n => by
    rw [hu, unstore_eq]
    exact hasRight_congr (rightKeys_unstore rule x t p.toPropagation) n t.handle
  have hstrung : u.strung = p.strung := by rw [strung, strung, harena, hlinks]
  have hgoes : removeTuple rule p x =
      MatchStore.tally TupleCounters.delete (release x (forgetMade x t u)) := by
    rw [removeTuple, htuple, hu]
    rfl
  have hforget : (forgetMade x t u).strung =
      (p.keptWith t).elim p.strung fun k => p.strung.unlink k x := by
    rw [forgetMade, MatchState.keptWith, ← hstrung]
    cases t.origin with
    | none => rfl
    | some n =>
        simp only [Option.bind_some, ← hright]
        refine (strung_unlinkMade n t.handle x u).trans ?_
        split <;> rfl
  have hlive : (forgetMade x t u).arena.get? x = some t := by
    rw [← harena] at hx
    rw [forgetMade]
    cases t.origin <;> exact hx
  rw [hgoes]
  refine (strung_release hlive).trans ?_
  rw [hforget]
  cases p.keptWith t <;> rfl

variable (h : p.LinkedBy p.strung)

include h

theorem wellFormed : p.arena.WellFormed := h.fits.siblings.arena

/-- **A tuple without extensions can be removed.** -/
theorem linkedBy_removeTuple (hleaf : ∀ y u, p.arena.get? y = some u → u.parent ≠ some x) :
    (removeTuple rule p x).LinkedBy (removeTuple rule p x).strung := by
  cases hx : p.arena.get? x with
  | none =>
      have htuple : MatchStore.tuple? p x = none := hx
      rw [removeTuple, htuple]
      exact h
  | some t =>
      rw [strung_removeTuple rule hx, toPropagation_removeTuple]
      exact h.removeTuple rule hx hleaf

/-- Going through the thread of a tuple ends, and lists its extensions. -/
theorem walk_children (t : TupleId) :
    Walk p.older (p.links.siblings.newest.get? t) (p.arena.children t) :=
  (h.fits.siblings.fits.strung t).walk

theorem children_eq (t : TupleId) : p.children t = p.arena.children t :=
  h.fits.siblings.fits.thread_eq (Nat.le_succ_of_le (Arena.length_children_le (wellFormed h) t))

end LinkedPropagation

/-! ## Tuples removed one after the other -/

/-- Removing the tuples along links leads from `p` to `q`, where they are gone and no
tuple is new. -/
structure Unlinks (rule : CompiledRule) (ts : List TupleId) (p q : LinkedPropagation) : Prop where
  fit : q.LinkedBy q.strung
  sub : ∀ y u, q.arena.get? y = some u → p.arena.get? y = some u
  gone : ∀ t ∈ ts, q.arena.get? t = none
  deletes : Deletes rule p ts q

namespace Unlinks

variable {rule : CompiledRule} {p q q' : LinkedPropagation} {ts rest : List TupleId} {t : TupleId}

theorem nil (h : p.LinkedBy p.strung) : Unlinks rule [] p p :=
  ⟨h, fun _ _ hy => hy, fun _ ht => (List.not_mem_nil ht).elim, .nil p⟩

theorem cons (h : Unlinks rule [t] p q) (h' : Unlinks rule rest q q') :
    Unlinks rule (t :: rest) p q' := by
  refine ⟨h'.fit, fun y u hy => h.sub y u (h'.sub y u hy), fun x hx => ?_,
    h.deletes.cons_of_single h'.deletes⟩
  rcases List.mem_cons.mp hx with rfl | hx
  · -- What is gone does not come back.
    cases hlive : q'.arena.get? x with
    | none => rfl
    | some u => exact absurd (h.gone x (List.mem_singleton_self x)) (by rw [h'.sub x u hlive]; simp)
  · exact h'.gone x hx

/-- Chains of extensions do not get longer. -/
theorem within (h : Unlinks rule ts p q) (hp : p.LinkedBy p.strung) {depth : Nat} {x : TupleId}
    (hx : p.arena.Within depth x) : q.arena.Within depth x := by
  refine hx.mono fun y c hc => ?_
  obtain ⟨u, hu, hparent⟩ := (Arena.mem_children (LinkedPropagation.wellFormed h.fit)).mp hc
  exact (Arena.mem_children (LinkedPropagation.wellFormed hp)).mpr ⟨u, h.sub c u hu, hparent⟩

/-- The last step: what is left of a tuple whose extensions are gone. -/
theorem self (h : Unlinks rule (p.arena.children t) p q) (hp : p.LinkedBy p.strung) :
    Unlinks rule [t] p (removeTuple rule q t) := by
  have hget : ∀ y, (removeTuple rule q t).arena.get? y =
      if y = t then none else q.arena.get? y := by
    intro y
    rw [LinkedPropagation.toPropagation_removeTuple, arena_removeTuple]
    exact SlotMap.get?_remove (LinkedPropagation.wellFormed h.fit).valid t y
  refine ⟨LinkedPropagation.linkedBy_removeTuple rule h.fit fun y u hy hparent => ?_,
    fun y u hy => ?_, fun x hx => ?_,
    .cons (LinkedPropagation.walk_children hp t) h.deletes (.nil _)⟩
  · have hc : y ∈ p.arena.children t :=
      (Arena.mem_children (LinkedPropagation.wellFormed hp)).mpr ⟨u, h.sub y u hy, hparent⟩
    rw [h.gone y hc] at hy
    cases hy
  · rw [hget] at hy
    split at hy
    · cases hy
    · exact h.sub y u hy
  · rw [hget, if_pos (List.mem_singleton.mp hx)]

end Unlinks

namespace LinkedPropagation

variable {rule : CompiledRule} {p : LinkedPropagation}

/-- Tuples are removed in turn, if each can be. -/
theorem foldl_unlinks {depth : Nat}
    (hstep : ∀ {p : LinkedPropagation} {t : TupleId}, p.LinkedBy p.strung → p.arena.Within depth t →
      Unlinks rule [t] p (deleteWithin rule depth p t))
    {ts : List TupleId} (h : p.LinkedBy p.strung) (hdepth : ∀ t ∈ ts, p.arena.Within depth t) :
    Unlinks rule ts p (ts.foldl (deleteWithin rule depth) p) := by
  induction ts generalizing p with
  | nil => exact .nil h
  | cons c rest ih =>
      have hc := hstep h (hdepth c List.mem_cons_self)
      exact hc.cons (ih hc.fit fun c' hc' => hc.within h (hdepth c' (List.mem_cons_of_mem c hc')))

/-- **A match is removed along links with its extensions.** -/
theorem deleteWithin_unlinks {depth : Nat} {t : TupleId} (h : p.LinkedBy p.strung)
    (hdepth : p.arena.Within depth t) : Unlinks rule [t] p (deleteWithin rule depth p t) := by
  induction depth generalizing p t with
  | zero =>
      have hnone : Unlinks rule (p.arena.children t) p p := hdepth.symm ▸ .nil h
      exact hnone.self h
  | succ depth ih =>
      have hchildren : MatchStore.children p t = p.arena.children t := children_eq h t
      rw [deleteWithin, hchildren]
      exact (foldl_unlinks ih h hdepth).self h

theorem deleteTuple_unlinks (rule : CompiledRule) (h : p.LinkedBy p.strung) (t : TupleId) :
    Unlinks rule [t] p (deleteTuple rule p t) :=
  deleteWithin_unlinks h (Arena.within_size (wellFormed h) t)

/-- Some matches are removed in turn, whatever lies below what. -/
theorem foldl_deleteTuple (rule : CompiledRule) (ts : List TupleId) (h : p.LinkedBy p.strung) :
    Unlinks rule ts p (ts.foldl (deleteTuple rule) p) := by
  induction ts generalizing p with
  | nil => exact .nil h
  | cons t rest ih =>
      have ht := deleteTuple_unlinks rule h t
      exact ht.cons (ih ht.fit)

end LinkedPropagation

end RuleMatching
