import RuleMatching.Proofs.Arena.Kin
import RuleMatching.Proofs.Session.Entering

set_option autoImplicit false

/-! # Matches that are removed

A match is removed with all its extensions, extensions first. `Clears` follows the recursion: every
match has lost its extensions when its own turn comes. So every single removal is one of a match
without extensions, and **the match is removed with what extends it and with nothing else**
(`Propagation.deleteTuple_spec`). -/

namespace RuleMatching

open Network

/-- The tuples in `doomed` were removed, with the tuples below them and no others. -/
structure Removes (net : Network) (facts : FactStore) (doomed : List TupleId) (p p' : Propagation) :
    Prop where
  changes : Changes net facts p p'
  same : SameFacts p.toMatchState p'.toMatchState
  sub : ∀ y t, p'.arena.get? y = some t → p.arena.get? y = some t
  gone : ∀ x ∈ doomed, p'.arena.get? x = none
  cause : ∀ y t, p.arena.get? y = some t → p'.arena.get? y = none →
    y ∈ doomed ∨ ∃ z, t.parent = some z ∧ p'.arena.get? z = none

/-- No adapter knows the tuple. -/
def Unrooted (s : MatchState) (x : TupleId) : Prop :=
  ∀ n m, s.adapters.get? n = some m → ∀ h, m.roots.get? h ≠ some x

/-- The tuple is a match of the rule, if it is live. -/
def OfRule (net : Network) (a : Arena) (r : CompiledRule) (x : TupleId) : Prop :=
  ∀ t, a.get? x = some t → ∃ before later, net.Cut r before later ∧ t.sink = r.sinkAfter later

variable {net : Network} {facts : FactStore} {p p' p'' : Propagation}

/-- An extension is a match of the same rule. -/
theorem OfRule.extension (hnet : net.WellFormed) {s : MatchState} (hs : Coherent net facts s)
    {r : CompiledRule} {x y : TupleId} (hx : OfRule net s.arena r x) {u : Tuple}
    (hy : s.arena.get? y = some u) (hp : u.parent = some x) : OfRule net s.arena r y := by
  obtain ⟨t, ht⟩ := hs.parent_live hy hp
  obtain ⟨before, later, hcut, hsink⟩ := hx t ht
  obtain ⟨r', before', e, later', hl, -, hparent⟩ := hs.lineage_of_parent hy hp ht
  have hsame : r'.sinkAfter (e :: later') = r.sinkAfter later := by rw [← hsink, hparent]; rfl
  obtain ⟨rfl, -, -⟩ := hnet.sink_inj hl.cut hcut hsame
  intro u' hu'
  rw [hy] at hu'
  cases hu'
  exact ⟨_, _, hl.cut.next, hl.sink⟩

/-- A tuple with a parent is known to no adapter. -/
theorem Coherent.unrooted {s : MatchState} (hs : Coherent net facts s) {x : TupleId}
    (hx : ∀ t, s.arena.get? x = some t → t.parent ≠ none) : Unrooted s x := by
  intro n m hm h hh
  obtain ⟨r, hr, rfl⟩ := hs.adapters.only_sites n m hm
  obtain ⟨t, ht, hp, -⟩ := (hs.adapters.fits_of_get? hr hm).root h x hh
  exact hx t ht hp

namespace Removes

theorem dead_of_dead {doomed : List TupleId} (h : Removes net facts doomed p p') {y : TupleId}
    (hy : p.arena.get? y = none) : p'.arena.get? y = none := by
  cases hy' : p'.arena.get? y with
  | none => rfl
  | some t =>
      rw [h.sub y t hy'] at hy
      cases hy

theorem refl (net : Network) (facts : FactStore) (p : Propagation) : Removes net facts [] p p := by
  refine ⟨.refl, .refl _, fun _ _ h => h, fun x hx => (List.not_mem_nil hx).elim,
    fun y t hy hy' => ?_⟩
  rw [hy] at hy'
  cases hy'

theorem trans {doomed doomed' : List TupleId} (h : Removes net facts doomed p p')
    (h' : Removes net facts doomed' p' p'') : Removes net facts (doomed ++ doomed') p p'' := by
  refine ⟨h.changes.trans h'.changes, h.same.trans h'.same, fun y t hy => h.sub y t (h'.sub y t hy),
    fun x hx => ?_, fun y t hy hy' => ?_⟩
  · rcases List.mem_append.mp hx with hx | hx
    · exact h'.dead_of_dead (h.gone x hx)
    · exact h'.gone x hx
  · cases hmid : p'.arena.get? y with
    | some u =>
        have hu := h.sub y u hmid
        rw [hy] at hu
        cases hu
        exact (h'.cause y t hmid hy').imp (List.mem_append_right _) id
    | none =>
        rcases h.cause y t hy hmid with hmem | ⟨z, hz, hdead⟩
        · exact Or.inl (List.mem_append_left _ hmem)
        · exact Or.inr ⟨z, hz, h'.dead_of_dead hdead⟩

/-- Matches that are left keep their facts. -/
theorem handles_eq {doomed : List TupleId} (h : Removes net facts doomed p p')
    (ha : p.arena.WellFormed) (ha' : p'.arena.WellFormed) {y : TupleId} {t : Tuple}
    (hy : p'.arena.get? y = some t) : p'.arena.handles y = p.arena.handles y :=
  (Arena.handles_kept ha' ha (fun z u hz => ⟨u, h.sub z u hz, rfl, rfl⟩) hy).symm

/-- Matches that contain a fact still contain it when others are gone. -/
theorem mem_handles {doomed : List TupleId} (h : Removes net facts doomed p p')
    (ha : p.arena.WellFormed) (ha' : p'.arena.WellFormed) {k : Handle} {x : TupleId}
    (hx : ∀ t, p.arena.get? x = some t → k ∈ p.arena.handles x) :
    ∀ t, p'.arena.get? x = some t → k ∈ p'.arena.handles x := by
  intro t ht
  rw [h.handles_eq ha ha' ht]
  exact hx t (h.sub x t ht)

end Removes

namespace Propagation

/-! ## Removing matches -/

/-- The facts on the right of a join stay there when a match is taken out of its sink. -/
theorem rightKeys_unstore (rule : CompiledRule) (x : TupleId) (t : Tuple) (p : Propagation)
    (n : NodeId) :
    ((unstore rule x t p).joins.get? n).map (·.rightEntries.keys) =
      (p.joins.get? n).map (·.rightEntries.keys) := by
  rcases unstore_cases rule x t p with
    heq | ⟨m, l, y, left, -, hm, -, heq⟩ | ⟨m, l, -, -, -, -, heq⟩
  · rw [heq]
  · rw [heq]
    exact FiniteMap.map_get?_insert hm (by rfl) n
  · rw [heq]

/-- The facts on the right of a join stay there when it forgets a match. -/
theorem rightKeys_forgetMade (x : TupleId) (t : Tuple) (p : Propagation) (n : NodeId) :
    ((forgetMade x t p).joins.get? n).map (·.rightEntries.keys) =
      (p.joins.get? n).map (·.rightEntries.keys) := by
  unfold forgetMade
  split
  · rfl
  · refine FiniteMap.map_get?_modify p.joins _ (fun m => ?_) n
    exact FiniteMap.keys_modify _ _ _

theorem rightKeys_removeTuple (rule : CompiledRule) (x : TupleId) (p : Propagation) (n : NodeId) :
    ((removeTuple rule p x).joins.get? n).map (·.rightEntries.keys) =
      (p.joins.get? n).map (·.rightEntries.keys) := by
  unfold removeTuple
  split
  · rfl
  · next t _ => exact (rightKeys_forgetMade x t _ n).trans (rightKeys_unstore rule x t p n)

theorem arena_adapters_unstore (rule : CompiledRule) (x : TupleId) (t : Tuple) (p : Propagation) :
    (unstore rule x t p).arena = p.arena ∧ (unstore rule x t p).adapters = p.adapters := by
  rcases unstore_cases rule x t p with
    heq | ⟨_, _, _, _, -, -, -, heq⟩ | ⟨_, _, -, -, -, -, heq⟩ <;>
    rw [heq] <;> exact ⟨rfl, rfl⟩

theorem arena_adapters_forgetMade (x : TupleId) (t : Tuple) (p : Propagation) :
    (forgetMade x t p).arena = p.arena ∧ (forgetMade x t p).adapters = p.adapters := by
  unfold forgetMade
  split <;> exact ⟨rfl, rfl⟩

theorem adapters_removeTuple (rule : CompiledRule) (x : TupleId) (p : Propagation) :
    (removeTuple rule p x).adapters = p.adapters := by
  unfold removeTuple
  split
  · rfl
  · next t _ =>
      exact (arena_adapters_forgetMade x t _).2.trans (arena_adapters_unstore rule x t p).2

theorem arena_removeTuple (rule : CompiledRule) (x : TupleId) (p : Propagation) :
    (removeTuple rule p x).arena = SlotMap.remove p.arena x := by
  unfold removeTuple
  split
  · next hx =>
    have hdead : p.arena.get? x = none := hx
    rw [SlotMap.remove, if_neg (by simp [SlotMap.contains, hdead])]
  · next t _ =>
    show SlotMap.remove (forgetMade x t (unstore rule x t p)).arena x = _
    rw [(arena_adapters_forgetMade x t _).1, (arena_adapters_unstore rule x t p).1]

theorem sameFacts_removeTuple (rule : CompiledRule) (x : TupleId) (p : Propagation) :
    SameFacts p.toMatchState (removeTuple rule p x).toMatchState := by
  have hadapters := adapters_removeTuple rule x p
  exact ⟨holds_congr (fun _ => by rw [hadapters]) (rightKeys_removeTuple rule x p), hadapters⟩

end Propagation

open Propagation

/-! ## Removing matches with their extensions -/

/-- A match without extensions can be removed: it is one of the rule, and no adapter knows it. -/
structure Removable (net : Network) (facts : FactStore) (rule : CompiledRule) (p : Propagation)
    (x : TupleId) : Prop where
  coherent : Coherent net facts p.toMatchState
  ofRule : OfRule net p.arena rule x
  unrooted : Unrooted p.toMatchState x
  leaf : ∀ y u, p.arena.get? y = some u → u.parent ≠ some x

/-- Some matches are removed in turn, each after its extensions down to the given depth, and each
can be removed when its own turn comes. -/
inductive Clears (net : Network) (facts : FactStore) (rule : CompiledRule) :
    Nat → List TupleId → Propagation → Prop
  | nil (depth : Nat) (p : Propagation) : Clears net facts rule depth [] p
  | leaf {p : Propagation} {x : TupleId} {rest : List TupleId}
      (hleaf : p.arena.children x = []) (hx : Removable net facts rule p x)
      (others : Clears net facts rule 0 rest (removeTuple rule p x)) :
      Clears net facts rule 0 (x :: rest) p
  | node {p : Propagation} {depth : Nat} {x : TupleId} {rest : List TupleId}
      (below : Clears net facts rule depth (p.arena.children x) p)
      (hx : Removable net facts rule ((p.arena.children x).foldl (deleteWithin rule depth) p) x)
      (others : Clears net facts rule (depth + 1) rest (deleteWithin rule (depth + 1) p x)) :
      Clears net facts rule (depth + 1) (x :: rest) p

/-- A match of the rule that no adapter knows, with extensions down to the given depth at most. -/
structure Deletable (net : Network) (rule : CompiledRule) (depth : Nat) (p : Propagation)
    (x : TupleId) : Prop where
  ofRule : OfRule net p.arena rule x
  unrooted : Unrooted p.toMatchState x
  within : p.arena.Within depth x

variable {rule : CompiledRule} {x : TupleId} {depth : Nat}

/-- **A match without extensions is removed, and nothing else.** -/
theorem Removable.removes (h : Removable net facts rule p x) :
    Removes net facts [x] p (removeTuple rule p x) := by
  cases hx : p.arena.get? x with
  | none =>
      rw [removeTuple_dead hx]
      refine ⟨.refl, .refl _, fun _ _ hy => hy, fun y hy => ?_, fun y t hy hy' => ?_⟩
      · rw [List.mem_singleton.mp hy, hx]
      · rw [hy] at hy'
        cases hy'
  | some t =>
      obtain ⟨before, later, hcut, hsink⟩ := h.ofRule t hx
      have hget := fun y => (congrArg (SlotMap.get? · y) (arena_removeTuple rule x p)).trans
        (SlotMap.get?_remove h.coherent.arena.valid x y)
      refine ⟨.single (.remove hx hcut hsink h.leaf h.unrooted), sameFacts_removeTuple rule x p,
        fun y u hy => ?_, fun y hy => ?_, fun y u hy hy' => Or.inl ?_⟩
      · rw [hget] at hy
        split at hy
        · cases hy
        · exact hy
      · rw [List.mem_singleton.mp hy, hget, if_pos rfl]
      · rw [hget] at hy'
        split at hy'
        · next heq => exact heq ▸ List.mem_singleton_self x
        · rw [hy] at hy'
          cases hy'

namespace Deletable

/-- What can be removed still can when other matches are gone. -/
theorem removes (hnet : net.WellFormed) (hs : Coherent net facts p.toMatchState)
    {doomed : List TupleId} (h : Deletable net rule depth p x)
    (hgone : Removes net facts doomed p p') : Deletable net rule depth p' x := by
  refine ⟨fun t ht => h.ofRule t (hgone.sub x t ht), fun n m hm => ?_,
    h.within.mono fun y c hc => ?_⟩
  · rw [hgone.same.adapters] at hm
    exact h.unrooted n m hm
  · obtain ⟨u, hu, hp⟩ := (Arena.mem_children (hgone.changes.coherent hnet hs).arena).mp hc
    exact (Arena.mem_children hs.arena).mpr ⟨u, hgone.sub c u hu, hp⟩

/-- So can the extensions of a match. -/
theorem child (hnet : net.WellFormed) (hs : Coherent net facts p.toMatchState)
    (h : Deletable net rule (depth + 1) p x) {c : TupleId} (hc : c ∈ p.arena.children x) :
    Deletable net rule depth p c := by
  obtain ⟨u, hu, hp⟩ := (Arena.mem_children hs.arena).mp hc
  refine ⟨h.ofRule.extension hnet hs hu hp, hs.unrooted fun t ht => ?_, h.within c hc⟩
  rw [hu, Option.some.injEq] at ht
  rw [← ht, hp]
  exact Option.some_ne_none x

end Deletable

/-- Without its extensions a match has gone with them. -/
theorem Removes.of_children (ha : p.arena.WellFormed)
    (h : Removes net facts (p.arena.children x ++ [x]) p p') : Removes net facts [x] p p' := by
  have hx := h.gone x (List.mem_append_right _ (List.mem_singleton_self x))
  refine ⟨h.changes, h.same, h.sub, fun y hy => List.mem_singleton.mp hy ▸ hx, fun y t hy hy' => ?_⟩
  rcases h.cause y t hy hy' with hmem | hparent
  · rcases List.mem_append.mp hmem with hc | hself
    · obtain ⟨u, hu, hp⟩ := (Arena.mem_children ha).mp hc
      rw [hy, Option.some.injEq] at hu
      exact Or.inr ⟨x, hu ▸ hp, hx⟩
    · exact Or.inl hself
  · exact Or.inr hparent

namespace Clears

/-- **The matches are removed with what extends them, and nothing else is.** -/
theorem removes (hnet : net.WellFormed) {ts : List TupleId} (h : Clears net facts rule depth ts p)
    (hs : Coherent net facts p.toMatchState) :
    Removes net facts ts p (ts.foldl (deleteWithin rule depth) p) := by
  induction h with
  | nil => exact .refl net facts _
  | leaf _ hx _ ih =>
      have hself := hx.removes
      exact hself.trans (ih (hself.changes.coherent hnet hs))
  | node _ hx _ ih ih' =>
      have hself := ((ih hs).trans hx.removes).of_children hs.arena
      exact hself.trans (ih' (hself.changes.coherent hnet hs))

end Clears

/-- **Matches can be removed one after the other, each with its extensions.** -/
theorem Coherent.clears (hnet : net.WellFormed) {ts : List TupleId}
    (hs : Coherent net facts p.toMatchState) (hts : ∀ x ∈ ts, Deletable net rule depth p x) :
    Clears net facts rule depth ts p := by
  induction depth generalizing ts p with
  | zero =>
      induction ts generalizing p with
      | nil => exact .nil 0 p
      | cons x rest ih =>
          have hx := hts x List.mem_cons_self
          have hremovable : Removable net facts rule p x := by
            refine ⟨hs, hx.ofRule, hx.unrooted, fun y u hy hp => ?_⟩
            have hc := (Arena.mem_children hs.arena).mpr ⟨u, hy, hp⟩
            rw [hx.within] at hc
            cases hc
          have hself := hremovable.removes
          exact .leaf hx.within hremovable (ih (hself.changes.coherent hnet hs) fun y hy =>
            (hts y (List.mem_cons_of_mem x hy)).removes hnet hs hself)
  | succ depth ihdepth =>
      induction ts generalizing p with
      | nil => exact .nil _ p
      | cons x rest ih =>
          have hx := hts x List.mem_cons_self
          have hbelow := ihdepth hs fun c hc => hx.child hnet hs hc
          have hchildren := hbelow.removes hnet hs
          have hs₁ := hchildren.changes.coherent hnet hs
          have hremovable : Removable net facts rule
              ((p.arena.children x).foldl (deleteWithin rule depth) p) x := by
            have hx₁ := hx.removes hnet hs hchildren
            refine ⟨hs₁, hx₁.ofRule, hx₁.unrooted, fun y u hy hp => ?_⟩
            have hc := (Arena.mem_children hs.arena).mpr ⟨u, hchildren.sub y u hy, hp⟩
            rw [hchildren.gone y hc] at hy
            cases hy
          have hself := (hchildren.trans hremovable.removes).of_children hs.arena
          exact .node hbelow hremovable (ih (hself.changes.coherent hnet hs) fun y hy =>
            (hts y (List.mem_cons_of_mem x hy)).removes hnet hs hself)

/-- There are no longer chains of extensions than there are tuples. -/
theorem Coherent.clears_single (hnet : net.WellFormed) (hs : Coherent net facts p.toMatchState)
    (hroot : Unrooted p.toMatchState x) (hrule : OfRule net p.arena rule x) :
    Clears net facts rule p.arena.size [x] p :=
  hs.clears hnet fun _ hy =>
    List.mem_singleton.mp hy ▸ ⟨hrule, hroot, Arena.within_size hs.arena x⟩

namespace Propagation

/-- **A match is removed with its extensions.** -/
theorem deleteTuple_spec (hnet : net.WellFormed) (hs : Coherent net facts p.toMatchState)
    (hroot : Unrooted p.toMatchState x) (hrule : OfRule net p.arena rule x) :
    Removes net facts [x] p (deleteTuple rule p x) :=
  (hs.clears_single hnet hroot hrule).removes hnet hs

/-- Matches with a parent can be removed one after the other. -/
theorem foldl_deleteTuple_spec (rule : CompiledRule) (l : List TupleId) (hnet : net.WellFormed)
    (hs : Coherent net facts p.toMatchState)
    (hl : ∀ x ∈ l, ∀ t, p.arena.get? x = some t → t.parent ≠ none)
    (hrule : ∀ x ∈ l, OfRule net p.arena rule x) :
    Removes net facts l p (l.foldl (deleteTuple rule) p) := by
  induction l generalizing p with
  | nil => exact .refl net facts p
  | cons x rest ih =>
      have hfirst := deleteTuple_spec hnet hs (hs.unrooted (hl x List.mem_cons_self))
        (hrule x List.mem_cons_self)
      have hrest := ih (hfirst.changes.coherent hnet hs)
        (fun y hy t ht => hl y (List.mem_cons_of_mem x hy) t (hfirst.sub y t ht))
        fun y hy t ht => hrule y (List.mem_cons_of_mem x hy) t (hfirst.sub y t ht)
      exact hfirst.trans hrest

end Propagation

end RuleMatching
