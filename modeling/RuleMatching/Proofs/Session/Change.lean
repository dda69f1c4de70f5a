import Mathlib.Logic.Relation
import RuleMatching.Proofs.Session.Sides

set_option autoImplicit false

/-! # Single changes

All work of a call on the matches is a sequence of a few kinds of single changes (`Change`): a tuple
is created, stored or removed, a fact enters or leaves the right of a join, a root is forgotten.
**Every one of them keeps a coherent state coherent** (`Change.coherent`), and so does a sequence of
them (`Changes.coherent`). -/

namespace RuleMatching

open Network

namespace Propagation

/-- Creates a match. -/
def createTuple (p : Propagation) (h : Handle) (parent : Option TupleId) (sink : NodeId)
    (origin : Option NodeId) : Propagation :=
  { p with
    arena := p.arena.alloc h parent sink origin
    counters := { p.counters with created := p.counters.created + 1 } }

/-- Creates the match of one pattern for a fact and notes it at the adapter. -/
def addRoot (r : CompiledRule) (h : Handle) (m : AdapterMemory) (p : Propagation) : Propagation :=
  { p.createTuple h none (r.sinkAfter r.joins) none with
    adapters := p.adapters.insert r.first.node
      { m with roots := m.roots.insert h p.arena.next, counters := m.counters.addLeft } }

/-- Creates an extension of a match and notes it at the join that makes it. -/
def addChild (node sink : NodeId) (parent : TupleId) (h : Handle) (p : Propagation) : Propagation :=
  { p.createTuple h (some parent) sink (some node) with
    joins := p.joins.modify node fun m =>
      { m with
        rightEntries :=
          m.rightEntries.modify h fun e => { e with made := p.arena.next :: e.made } } }

theorem newTuple_eq (p : Propagation) (h : Handle) (parent : Option TupleId) (sink : NodeId)
    (origin : Option NodeId) :
    newTuple h parent sink origin p = (p.arena.next, p.createTuple h parent sink origin) := rfl

theorem linkMade_createTuple (node sink : NodeId) (x : TupleId) (h : Handle) (p : Propagation) :
    MatchStore.linkMade node h p.arena.next (p.createTuple h (some x) sink (some node)) =
      addChild node sink x h p := rfl

/-- Notes that a match is stored on the left of a join, given what becomes of the memory. -/
def putLeft (node : NodeId) (x : TupleId) (m : JoinMemory) (l : Location) (left : Memory TupleId)
    (p : Propagation) : Propagation :=
  { p with
    joins := p.joins.insert node { m with left, counters := m.counters.addLeft }
    arena := p.arena.setLocation x l }

/-- Notes that a fact is stored on the right of a join, given what becomes of the memory. -/
def putRight (node : NodeId) (h : Handle) (m : JoinMemory) (l : Location) (right : Memory Handle)
    (p : Propagation) : Propagation :=
  { p with
    joins := p.joins.insert node
      { m with
        right, rightEntries := m.rightEntries.insert h ⟨l, []⟩, counters := m.counters.addRight } }

/-- Stores a full match at the terminal of its rule and tells of it. -/
def putFull (ctx : PropagationContext) (x : TupleId) (m : TerminalMemory) (p : Propagation) :
    Propagation :=
  { p with
    terminals := p.terminals.insert ctx.rule.terminal
      { m with tuples := m.tuples.add x, counters := m.counters.addLeft }
    arena := p.arena.setLocation x ⟨none, m.tuples.next⟩
    counters := { p.counters with activations := p.counters.activations + 1 }
    events := p.events ++ [.activated ⟨ctx.rule.id, ctx.rule.name, x, p.arena.handles x⟩] }

/-- Forgets the match of one pattern of a fact. -/
def dropRoot (node : NodeId) (h : Handle) (m : AdapterMemory) (p : Propagation) : Propagation :=
  { p with
    adapters := p.adapters.insert node
      { m with roots := m.roots.erase h, counters := m.counters.removeLeft } }

/-- Forgets a fact on the right of a join, given what is left of the memory. -/
def dropRight (node : NodeId) (h : Handle) (m : JoinMemory) (right : Memory Handle)
    (p : Propagation) : Propagation :=
  { p with
    joins := p.joins.insert node
      { m with right, rightEntries := m.rightEntries.erase h, counters := m.counters.removeRight } }

theorem takeRight?_eq {p : Propagation} {node : NodeId} {h k : Handle} {m : JoinMemory}
    {e : RightEntry} {right : Memory Handle} (hm : p.joins.get? node = some m)
    (he : m.rightEntries.get? h = some e) (hremove : m.right.remove? e.location = some (k, right)) :
    takeRight? node h p = some (e.made, dropRight node h m right p) := by
  simp only [takeRight?, hm, Option.bind_eq_bind, Option.bind_some, he, hremove]
  rfl

section Unstore

variable (rule : CompiledRule) (x : TupleId) {t : Tuple} {p : Propagation} {l : Location}

theorem unstore_of_left (hl : t.location = some l) {m : JoinMemory}
    (hm : p.joins.get? t.sink = some m) {y : TupleId} {left : Memory TupleId}
    (hremove : m.left.remove? l = some (y, left)) : unstore rule x t p =
      { p with
        joins := p.joins.insert t.sink { m with left, counters := m.counters.removeLeft } } := by
  rw [unstore, hl]
  simp only [MatchStore.removeLeft?, removeLeft?, hm, Option.bind_eq_bind,
    Option.bind_some, hremove, Option.pure_def]

theorem unstore_of_full (hl : t.location = some l) (hjoin : p.joins.get? t.sink = none)
    {m : TerminalMemory} (hm : p.terminals.get? t.sink = some m)
    (hc : m.tuples.contains l.slot = true) : unstore rule x t p =
      { p with
        terminals := p.terminals.insert t.sink
          { m with tuples := m.tuples.remove l.slot, counters := m.counters.removeLeft }
        counters := { p.counters with deactivations := p.counters.deactivations + 1 }
        events := p.events ++ [.deactivated ⟨rule.id, rule.name, x, p.arena.handles x⟩] } := by
  rw [unstore, hl]
  simp only [MatchStore.removeLeft?, removeLeft?, hjoin, Option.bind_eq_bind, Option.bind_none,
    MatchStore.removeFull?, removeFull?, hm, Option.bind_some, hc, if_true, Option.pure_def]
  rfl

end Unstore

/-- Taking a match out of its sink does nothing, or it takes it off the left of a join, or out of a
terminal, and that is reported. -/
theorem unstore_cases (rule : CompiledRule) (x : TupleId) (t : Tuple) (p : Propagation) :
    unstore rule x t p = p ∨
      (∃ m l y left, t.location = some l ∧ p.joins.get? t.sink = some m ∧
        m.left.remove? l = some (y, left) ∧
        unstore rule x t p =
          { p with
            joins := p.joins.insert t.sink { m with left, counters := m.counters.removeLeft } }) ∨
      ∃ m l, t.location = some l ∧ p.joins.get? t.sink = none ∧ p.terminals.get? t.sink = some m ∧
        m.tuples.contains l.slot = true ∧
        unstore rule x t p =
          { p with
            terminals := p.terminals.insert t.sink
              { m with tuples := m.tuples.remove l.slot, counters := m.counters.removeLeft }
            counters := { p.counters with deactivations := p.counters.deactivations + 1 }
            events := p.events ++ [.deactivated ⟨rule.id, rule.name, x, p.arena.handles x⟩] } := by
  cases hl : t.location with
  | none =>
      left
      rw [unstore, hl]
  | some l =>
      cases hm : p.joins.get? t.sink with
      | some m =>
          cases hremove : m.left.remove? l with
          | some removed =>
              exact Or.inr (Or.inl ⟨m, l, removed.1, removed.2, rfl, rfl, hremove,
                unstore_of_left rule x hl hm hremove⟩)
          | none =>
              left
              simp [unstore, hl, MatchStore.removeLeft?, removeLeft?, hm, hremove]
      | none =>
          cases hterminal : p.terminals.get? t.sink with
          | none =>
              left
              simp [unstore, hl, MatchStore.removeLeft?, removeLeft?, MatchStore.removeFull?,
                removeFull?, hm, hterminal]
          | some m =>
              by_cases hc : m.tuples.contains l.slot = true
              · exact Or.inr (Or.inr ⟨m, l, rfl, rfl, rfl, hc,
                  unstore_of_full rule x hl hm hterminal hc⟩)
              · left
                simp [unstore, hl, MatchStore.removeLeft?, removeLeft?, MatchStore.removeFull?,
                  removeFull?, hm, hterminal, hc]

/-- The rest of a removal, once the match is out of its sink and off the list of its join. -/
def giveUp (x : TupleId) (p : Propagation) : Propagation :=
  { p with
    arena := p.arena.remove x
    counters := { p.counters with deleted := p.counters.deleted + 1 } }

theorem removeTuple_live {p : Propagation} {x : TupleId} {t : Tuple} (hx : p.arena.get? x = some t)
    (rule : CompiledRule) :
    removeTuple rule p x = giveUp x (forgetMade x t (unstore rule x t p)) := by
  simp only [removeTuple, MatchStore.tuple?, hx]
  rfl

theorem removeTuple_dead {p : Propagation} {rule : CompiledRule} {x : TupleId}
    (hx : p.arena.get? x = none) : removeTuple rule p x = p := by
  simp only [removeTuple, MatchStore.tuple?, hx]

end Propagation

open Propagation

/-- A single change of the matches under the given facts. -/
inductive Change (net : Network) (facts : FactStore) : Propagation → Propagation → Prop
  | root {p : Propagation} {r : CompiledRule} {h : Handle} {m : AdapterMemory} (hr : r ∈ net.rules)
      (hread : Readable facts r.first h) (hm : p.adapters.get? r.first.node = some m)
      (hnew : m.roots.get? h = none) : Change net facts p (addRoot r h m p)
  | child {p : Propagation} {r : CompiledRule} {before later : List Entry} {e : Entry} {x : TupleId}
      {t : Tuple} {h : Handle} {m : JoinMemory} {entry : RightEntry}
      (hcut : net.Cut r before (e :: later)) (hx : p.arena.get? x = some t)
      (hsink : t.sink = e.node)
      (hm : p.joins.get? e.node = some m) (hentry : m.rightEntries.get? h = some entry) :
      Change net facts p (addChild e.node (r.sinkAfter later) x h p)
  | storeLeft {p p' : Propagation} {e : Entry} {x : TupleId} {t : Tuple} (he : e ∈ net.allJoins)
      (hx : p.arena.live.getLast? = some (x, t)) (hsink : t.sink = e.node)
      (hloc : t.location = none)
      (h : storeLeft? e.node (leftKeyOf facts p.arena e x) x p = some p') : Change net facts p p'
  | activate {p : Propagation} {ctx : PropagationContext} {x : TupleId} {t : Tuple}
      (hr : ctx.rule ∈ net.rules) (hx : p.arena.live.getLast? = some (x, t))
      (hsink : t.sink = ctx.rule.terminal) (hloc : t.location = none) :
      Change net facts p (Propagation.activate ctx x p).1
  | storeRight {p p' : Propagation} {e : Entry} {h : Handle} {m : JoinMemory}
      (he : e ∈ net.allJoins) (hread : Readable facts e h) (hm : p.joins.get? e.node = some m)
      (hnew : m.rightEntries.get? h = none) (hmade : p.arena.madeBy e.node h = [])
      (h : storeRight? e.node (rightKeyOf facts e h) h p = some p') : Change net facts p p'
  | remove {p : Propagation} {r : CompiledRule} {before later : List Entry} {x : TupleId}
      {t : Tuple} (hx : p.arena.get? x = some t) (hcut : net.Cut r before later)
      (hsink : t.sink = r.sinkAfter later)
      (hleaf : ∀ y u, p.arena.get? y = some u → u.parent ≠ some x)
      (hroot : ∀ n m, p.adapters.get? n = some m → ∀ h, m.roots.get? h ≠ some x) :
      Change net facts p (removeTuple r p x)
  | dropRoot {p : Propagation} {r : CompiledRule} {h : Handle} {m : AdapterMemory} {x : TupleId}
      (hr : r ∈ net.rules) (hm : p.adapters.get? r.first.node = some m)
      (hx : m.roots.get? h = some x) :
      Change net facts p (Propagation.dropRoot r.first.node h m p)
  | dropRight {p : Propagation} {e : Entry} {h k : Handle} {m : JoinMemory} {entry : RightEntry}
      {right : Memory Handle} (he : e ∈ net.allJoins) (hm : p.joins.get? e.node = some m)
      (hentry : m.rightEntries.get? h = some entry)
      (hright : m.right.remove? entry.location = some (k, right)) :
      Change net facts p (Propagation.dropRight e.node h m right p)

/-- A sequence of single changes. -/
def Changes (net : Network) (facts : FactStore) : Propagation → Propagation → Prop :=
  Relation.ReflTransGen (Change net facts)

/-- The tuple is out of the memory of its sink. The sides of all nodes are as they are without it,
and only the record of the join that made it still names it. -/
structure Unstored (net : Network) (facts : FactStore) (x : TupleId) (p q : Propagation) :
    Prop where
  arena : q.arena = p.arena
  adapters : q.adapters = p.adapters
  joins : q.joins.Covers net.allJoins Entry.node fun e m =>
    LeftFits facts (SlotMap.remove p.arena x) e m.left ∧ RightFits facts e m.right m.rightEntries ∧
      MadeFits p.arena e.node m.rightEntries
  terminals : q.terminals.Covers net.rules CompiledRule.terminal
    (TerminalFits (SlotMap.remove p.arena x))

variable {net : Network} {facts : FactStore} {p : Propagation}

namespace Coherent

variable (hnet : net.WellFormed) (hs : Coherent net facts p.toMatchState)

include hnet hs

/-! ## New tuples -/

omit hnet in
/-- A tuple that is created and not stored yet concerns no memory but the record of its join. -/
theorem parts_add {t : Tuple} (hloc : t.location = none)
    (hp : ∀ q, t.parent = some q → ∃ u, p.arena.get? q = some u) :
    (∀ r m, AdapterFits p.arena r m → AdapterFits (SlotMap.add p.arena t) r m) ∧
      (∀ e m, t.origin ≠ some e.node → JoinFits facts p.arena e m →
        JoinFits facts (SlotMap.add p.arena t) e m) ∧
      (∀ e left, LeftFits facts p.arena e left → LeftFits facts (SlotMap.add p.arena t) e left) ∧
      ∀ r m, TerminalFits p.arena r m → TerminalFits (SlotMap.add p.arena t) r m := by
  have ha := hs.arena
  have hleft : ∀ e left, LeftFits facts p.arena e left →
      LeftFits facts (SlotMap.add p.arena t) e left := fun e left h =>
    h.frame (Arena.storedAt_add hloc _) fun x hx => by
      obtain ⟨u, _, hu, _⟩ := (Arena.mem_storedAt ha.valid).mp hx
      exact ⟨Arena.handles_add ha hp hu, Arena.locationOf_add ha.valid hu⟩
  refine ⟨fun r m h => h.stays fun _ x u _ hu => ⟨u, Arena.stays_add ha hp hu⟩,
    fun e m ho h => ?_, hleft, fun r m h => h.frame (Arena.storedAt_add hloc _) fun x hx => ?_⟩
  · exact ⟨hleft e m.left h.left, h.right, h.made.add_other ho⟩
  · obtain ⟨u, _, hu, _⟩ := (Arena.mem_storedAt ha.valid).mp hx
    exact Arena.locationOf_add ha.valid hu

omit hnet in
/-- Every tuple has its lineage if the new one has. -/
theorem lineage_add {t : Tuple} (hp : ∀ q, t.parent = some q → ∃ u, p.arena.get? q = some u)
    (hnew : ∃ r before e later,
      Lineage net facts (SlotMap.add p.arena t) p.arena.next t r before e later) :
    ∀ x u, SlotMap.get? (SlotMap.add p.arena t) x = some u → ∃ r before e later,
      Lineage net facts (SlotMap.add p.arena t) x u r before e later := by
  intro x u hu
  rw [SlotMap.get?_add hs.arena.valid] at hu
  split at hu
  · next hx =>
    cases hu
    rw [hx]
    exact hnew
  · obtain ⟨r, before, e, later, hl⟩ := hs.lineage x u hu
    refine ⟨r, before, e, later, hl.stays (Arena.stays_add hs.arena hp hu) fun q v _ hv => ?_⟩
    exact ⟨v, Arena.stays_add hs.arena hp hv⟩

theorem addRoot {r : CompiledRule} {h : Handle} {m : AdapterMemory} (hr : r ∈ net.rules)
    (hread : Readable facts r.first h) (hm : p.adapters.get? r.first.node = some m) :
    Coherent net facts (Propagation.addRoot r h m p).toMatchState := by
  -- The fields of the tuple are used one by one; written out in every goal they would
  -- hide the arena.
  have ht : ∃ t : Tuple, t = ⟨h, none, p.arena.childSize none, r.sinkAfter r.joins, none, none⟩ :=
    ⟨_, rfl⟩
  obtain ⟨t, ht⟩ := ht
  have hp : ∀ q, t.parent = some q → ∃ u, p.arena.get? q = some u := fun q hq => by
    rw [ht] at hq
    cases hq
  have ha' : Arena.WellFormed (SlotMap.add p.arena t) := Arena.wellFormed_add hs.arena hp
  have hnext : SlotMap.get? (SlotMap.add p.arena t) p.arena.next = some t := by
    rw [SlotMap.get?_add hs.arena.valid, if_pos rfl]
  obtain ⟨hadapter, hjoin, -, hterminal⟩ := parts_add hs (t := t) (by rw [ht]) hp
  have harena : (Propagation.addRoot r h m p).arena = SlotMap.add p.arena t := by
    rw [ht]
    rfl
  constructor <;> rw [harena]
  case arena => exact ha'
  case lineage =>
    refine lineage_add hs hp ⟨r, [], r.first, r.joins, Cut.first hr, by rw [ht], ?_, ?_, ?_⟩
    · rw [Arena.handles_root ha' hnext (by rw [ht]), ht]
      exact .cons hread .nil
    · exact fun _ => by rw [ht]; exact ⟨rfl, rfl⟩
    · exact fun hb => absurd rfl hb
  case adapters =>
    refine hs.adapters.insert (i := r) hr ⟨fun k x hk => ?_⟩ (fun r' hr' => hnet.first_inj hr hr')
      fun r' _ _ m' => hadapter r' m'
    rw [FiniteMap.get?_insert] at hk
    split at hk
    · next hkh =>
      cases hk
      exact ⟨t, hnext, by rw [ht], by rw [ht, hkh], by rw [ht]⟩
    · exact (hadapter r m (hs.adapters.fits_of_get? hr hm)).root k x hk
  case joins =>
    have horigin : ∀ n, t.origin ≠ some n := by
      intro n hn
      rw [ht] at hn
      cases hn
    exact hs.joins.imp fun e _ m' => hjoin e m' (horigin e.node)
  case terminals => exact hs.terminals.imp fun r' _ m' => hterminal r' m'

theorem addChild {r : CompiledRule} {before later : List Entry} {e : Entry} {x : TupleId}
    {t : Tuple} {h : Handle} {m : JoinMemory} {entry : RightEntry}
    (hcut : net.Cut r before (e :: later)) (hx : p.arena.get? x = some t) (hsink : t.sink = e.node)
    (hm : p.joins.get? e.node = some m) (hentry : m.rightEntries.get? h = some entry) :
    Coherent net facts (Propagation.addChild e.node (r.sinkAfter later) x h p).toMatchState := by
  have hu : ∃ u : Tuple, u =
      ⟨h, some x, p.arena.childSize (some x), r.sinkAfter later, some e.node, none⟩ := ⟨_, rfl⟩
  obtain ⟨u, hu⟩ := hu
  have hp : ∀ q, u.parent = some q → ∃ v, p.arena.get? q = some v := fun q hq => by
    rw [hu] at hq
    cases hq
    exact ⟨t, hx⟩
  have ha' : Arena.WellFormed (SlotMap.add p.arena u) := Arena.wellFormed_add hs.arena hp
  have hnext : SlotMap.get? (SlotMap.add p.arena u) p.arena.next = some u := by
    rw [SlotMap.get?_add hs.arena.valid, if_pos rfl]
  obtain ⟨hadapter, hjoin, hleft, hterminal⟩ := parts_add hs (t := u) (by rw [hu]) hp
  obtain ⟨before', b, rfl, hlx⟩ := hs.lineage_of_sink hnet hx hcut hsink
  have he : e ∈ net.allJoins := hcut.join (by simp)
  have hfits := hs.joins.fits_of_get? he hm
  have harena : (Propagation.addChild e.node (r.sinkAfter later) x h p).arena =
      SlotMap.add p.arena u := by
    rw [hu]
    rfl
  constructor <;> rw [harena]
  case arena => exact ha'
  case lineage =>
    refine lineage_add hs hp ⟨r, before' ++ [b], e, later, hcut, by rw [hu], ?_, ?_, ?_⟩
    · have hhandles : Arena.handles (SlotMap.add p.arena u) p.arena.next =
          p.arena.handles x ++ [h] := by
        rw [Arena.handles_child ha' hnext (p := x) (by rw [hu]),
          Arena.handles_add hs.arena hp hx, hu]
      rw [hhandles]
      exact List.rel_append hlx.readable (.cons (hfits.right.readable h entry hentry) .nil)
    · exact fun hb => absurd hb (by simp)
    · refine fun _ => ⟨by rw [hu], x, t, by rw [hu], ?_, hsink⟩
      exact (Arena.stays_add hs.arena hp hx).after
  case adapters => exact hs.adapters.imp fun r' _ m' => hadapter r' m'
  case joins =>
    refine hs.joins.modify (i := e) he (fun m' hm' => ?_) (fun e' he' => hnet.join_inj he he')
      fun e' _ hne m' => hjoin e' m' (by rw [hu]; exact fun hc => hne (Option.some.inj hc).symm)
    refine ⟨hleft e m'.left hm'.left, hm'.right.modify h fun _ => rfl, ?_⟩
    have hmade := hm'.made.cons (t := u) (by rw [hu])
    rw [hu] at hmade ⊢
    exact hmade
  case terminals => exact hs.terminals.imp fun r' _ m' => hterminal r' m'

/-! ## Tuples that are stored -/

omit hnet in
/-- Storing the newest tuple concerns its sink alone. -/
theorem parts_setLocation {x : TupleId} {t : Tuple} (hx : p.arena.live.getLast? = some (x, t))
    (hloc : t.location = none) (l : Location) :
    (∀ y u, SlotMap.get? (p.arena.setLocation x l) y = some u → ∃ r before e later,
        Lineage net facts (p.arena.setLocation x l) y u r before e later) ∧
      (∀ r m, AdapterFits p.arena r m → AdapterFits (p.arena.setLocation x l) r m) ∧
      (∀ e m, t.sink ≠ e.node → JoinFits facts p.arena e m →
        JoinFits facts (p.arena.setLocation x l) e m) ∧
      ∀ r m, t.sink ≠ r.terminal → TerminalFits p.arena r m →
        TerminalFits (p.arena.setLocation x l) r m := by
  have ha := hs.arena
  have hget := Arena.get?_newest ha.valid hx
  have hstored : ∀ n, t.sink ≠ n → (p.arena.setLocation x l).storedAt n = p.arena.storedAt n := by
    intro n hn
    rw [Arena.storedAt_setLocation ha.valid hx hloc, if_neg hn, List.append_nil]
  -- Nothing is known of the place of the newest tuple yet, so it is on no list of stored tuples.
  have hlocation : ∀ n, ∀ y ∈ p.arena.storedAt n,
      (p.arena.setLocation x l).locationOf y = p.arena.locationOf y := by
    intro n y hy
    obtain ⟨u, _, hu, _⟩ := (Arena.mem_storedAt ha.valid).mp hy
    have hne : y ≠ x := fun heq => Arena.not_mem_storedAt ha.valid hget (fun _ => hloc) (heq ▸ hy)
    rw [Arena.locationOf_setLocation hu, if_neg hne]
  refine ⟨fun y u hu => ?_, fun r m h => h.stays fun _ y u _ hu => Arena.stays_setLocation hu l,
    fun e m hne h => ?_, fun r m hne h => h.frame (hstored _ hne) (hlocation _)⟩
  · obtain ⟨v, hv⟩ : ∃ v, p.arena.get? y = some v := by
      rw [Arena.get?_setLocation] at hu
      split at hu
      · obtain ⟨v, hv, _⟩ := Option.map_eq_some_iff.mp hu
        exact ⟨v, hv⟩
      · exact ⟨u, hu⟩
    obtain ⟨r, before, e, later, hl⟩ := hs.lineage y v hv
    obtain ⟨v', hv'⟩ := Arena.stays_setLocation (x := x) hv l
    have heq : v' = u := Option.some.inj (hv'.after.symm.trans hu)
    exact ⟨r, before, e, later, heq ▸ hl.stays hv' fun q w _ hw => Arena.stays_setLocation hw l⟩
  · exact h.frame (hstored _ hne)
      (fun y hy => ⟨Arena.handles_setLocation _ _ _ _, hlocation _ y hy⟩)
      fun k => Arena.madeBy_setLocation x l _ k

/-- The newest tuple can be stored at the join where it waits. -/
theorem storeLeft {e : Entry} {x : TupleId} {t : Tuple} (he : e ∈ net.allJoins)
    (hx : p.arena.live.getLast? = some (x, t)) (hsink : t.sink = e.node)
    (hloc : t.location = none) :
    ∃ m l left, p.joins.get? e.node = some m ∧
      storeLeft? e.node (leftKeyOf facts p.arena e x) x p = some (putLeft e.node x m l left p) ∧
      Coherent net facts (putLeft e.node x m l left p).toMatchState := by
  obtain ⟨m, hm, hfits⟩ := hs.joins.at_site e he
  obtain ⟨r, b, before, later, hcut⟩ := mem_allJoins_iff.mp he
  have hget := Arena.get?_newest hs.arena.valid hx
  have hkey := (leftKey_eq_ok hnet hcut (hs.readable_of_sink hnet hget hcut hsink)).2
  obtain ⟨l, left, hadd, hleft⟩ := hfits.left.add hs.arena.valid hx hsink hloc hkey
  obtain ⟨hlineage, hadapter, hjoin, hterminal⟩ := parts_setLocation hs hx hloc l
  refine ⟨m, l, left, hm, ?_, Arena.wellFormed_setLocation hs.arena x l, hlineage, ?_, ?_, ?_⟩
  · rw [storeLeft?, hm, Option.bind_eq_bind, Option.bind_some, hadd]
    rfl
  · exact hs.adapters.imp fun r' _ m' => hadapter r' m'
  · refine hs.joins.insert (i := e) he ⟨hleft, hfits.right, ?_⟩ (fun e' he' => hnet.join_inj he he')
      fun e' _ hne m' => hjoin e' m' fun hc => hne (hc.symm.trans hsink)
    exact hfits.made.frame fun k => Arena.madeBy_setLocation x l _ k
  · exact hs.terminals.imp fun r' hr' m' =>
      hterminal r' m' (by rw [hsink]; exact hnet.join_ne_terminal he hr')

/-- The newest tuple, if it is a full match, can be stored at the terminal. -/
theorem activate {ctx : PropagationContext} {x : TupleId} {t : Tuple} (hr : ctx.rule ∈ net.rules)
    (hx : p.arena.live.getLast? = some (x, t)) (hsink : t.sink = ctx.rule.terminal)
    (hloc : t.location = none) :
    ∃ m, p.terminals.get? ctx.rule.terminal = some m ∧
      Propagation.activate ctx x p = (putFull ctx x m p, none) ∧
      Coherent net facts (putFull ctx x m p).toMatchState := by
  obtain ⟨m, hm, hfits⟩ := hs.terminals.at_site ctx.rule hr
  obtain ⟨hlineage, hadapter, hjoin, hterminal⟩ :=
    parts_setLocation hs hx hloc ⟨none, m.tuples.next⟩
  have hstore : storeFull? ctx.rule.terminal x p = some { p with
      terminals := p.terminals.insert ctx.rule.terminal
        { m with tuples := m.tuples.add x, counters := m.counters.addLeft }
      arena := p.arena.setLocation x ⟨none, m.tuples.next⟩ } := by
    rw [storeFull?, hm]
    rfl
  refine ⟨m, hm, ?_, ?_⟩
  · rw [Propagation.activate]
    simp only [MatchStore.storeFull?, hstore]
    rfl
  refine ⟨Arena.wellFormed_setLocation hs.arena x _, hlineage, ?_, ?_, ?_⟩
  · exact hs.adapters.imp fun r' _ m' => hadapter r' m'
  · exact hs.joins.imp fun e he m' =>
      hjoin e m' (by rw [hsink]; exact (hnet.join_ne_terminal he hr).symm)
  · exact hs.terminals.insert (i := ctx.rule) hr (hfits.add hs.arena.valid hx hsink hloc)
      (fun r' hr' => hnet.terminal_inj hr hr')
      fun r' _ hne m' => hterminal r' m' fun hc => hne (hc.symm.trans hsink)

/-- A fact that is new to a join can be stored on its right. -/
theorem storeRight {e : Entry} {h : Handle} {m : JoinMemory} (he : e ∈ net.allJoins)
    (hread : Readable facts e h) (hm : p.joins.get? e.node = some m)
    (hnew : m.rightEntries.get? h = none) (hmade : p.arena.madeBy e.node h = []) :
    ∃ l right, storeRight? e.node (rightKeyOf facts e h) h p =
      some (putRight e.node h m l right p) ∧
      Coherent net facts (putRight e.node h m l right p).toMatchState := by
  have hfits := hs.joins.fits_of_get? he hm
  obtain ⟨r, b, before, later, hcut⟩ := mem_allJoins_iff.mp he
  have hkey : (rightKeyOf facts e h).isSome = e.condition.isIndexed := by
    obtain ⟨f, hf, hok⟩ := hread
    exact (rightKey_eq_ok hnet hcut hf hok).2
  obtain ⟨l, right, hadd, hright⟩ := hfits.right.add hnew hread hkey
  refine ⟨l, right, ?_, hs.arena, hs.lineage, hs.adapters, ?_, hs.terminals⟩
  · rw [storeRight?, hm, Option.bind_eq_bind, Option.bind_some, hadd]
    rfl
  · exact hs.joins.insert (i := e) he ⟨hfits.left, hright, hfits.made.insert_new hmade l⟩
      (fun e' he' => hnet.join_inj he he') fun _ _ _ _ hfits' => hfits'

/-! ## Facts that leave -/

theorem dropRoot {r : CompiledRule} {h : Handle} {m : AdapterMemory} (hr : r ∈ net.rules)
    (hm : p.adapters.get? r.first.node = some m) :
    Coherent net facts (Propagation.dropRoot r.first.node h m p).toMatchState := by
  refine ⟨hs.arena, hs.lineage, ?_, hs.joins, hs.terminals⟩
  refine hs.adapters.insert (i := r) hr ⟨fun k x hk => ?_⟩ (fun r' hr' => hnet.first_inj hr hr')
    fun _ _ _ _ hfits => hfits
  rw [FiniteMap.get?_erase] at hk
  split at hk
  · cases hk
  · exact (hs.adapters.fits_of_get? hr hm).root k x hk

/-- A fact on the right of a join is found there. -/
theorem dropRight {e : Entry} {h : Handle} {m : JoinMemory} {entry : RightEntry}
    (he : e ∈ net.allJoins) (hm : p.joins.get? e.node = some m)
    (hentry : m.rightEntries.get? h = some entry) :
    ∃ right, m.right.remove? entry.location = some (h, right) ∧
      Coherent net facts (Propagation.dropRight e.node h m right p).toMatchState := by
  have hfits := hs.joins.fits_of_get? he hm
  obtain ⟨right, hremove, hright⟩ := hfits.right.remove hentry
  refine ⟨right, hremove, hs.arena, hs.lineage, hs.adapters, ?_, hs.terminals⟩
  exact hs.joins.insert (i := e) he ⟨hfits.left, hright, hfits.made.erase_fact h⟩
    (fun e' he' => hnet.join_inj he he') fun _ _ _ _ hfits' => hfits'

/-! ## Tuples that go -/

omit hnet in
/-- Removing a tuple without extensions concerns its sink, and the record of the join
that made it. -/
theorem parts_remove {x : TupleId} {t : Tuple} (hx : p.arena.get? x = some t)
    (hleaf : ∀ y u, p.arena.get? y = some u → u.parent ≠ some x) :
    (∀ e left, (t.sink = e.node → t.location = none) → LeftFits facts p.arena e left →
        LeftFits facts (SlotMap.remove p.arena x) e left) ∧
      ∀ r m, (t.sink = r.terminal → t.location = none) → TerminalFits p.arena r m →
        TerminalFits (SlotMap.remove p.arena x) r m := by
  have ha := hs.arena
  have hstored : ∀ n, (t.sink = n → t.location = none) →
      Arena.storedAt (SlotMap.remove p.arena x) n = p.arena.storedAt n := fun n hn =>
    Arena.storedAt_remove_eq_self ha.valid hx hn
  have hne : ∀ n, (t.sink = n → t.location = none) → ∀ y ∈ p.arena.storedAt n, y ≠ x :=
    fun n hn y hy heq => Arena.not_mem_storedAt ha.valid hx hn (heq ▸ hy)
  refine ⟨fun e left hn h => h.frame (hstored _ hn) fun y hy => ?_,
    fun r m hn h => h.frame (hstored _ hn) fun y hy =>
      Arena.locationOf_remove ha.valid (hne _ hn y hy)⟩
  obtain ⟨u, _, hu, _⟩ := (Arena.mem_storedAt ha.valid).mp hy
  exact ⟨Arena.handles_remove ha hleaf hu (hne _ hn y hy),
    Arena.locationOf_remove ha.valid (hne _ hn y hy)⟩

omit hnet hs in
theorem unstore_eq_self (rule : CompiledRule) (x : TupleId) {t : Tuple} (hloc : t.location = none) :
    unstore rule x t p = p := by
  rw [unstore, hloc]

omit hnet in
/-- A tuple that waits at a join is taken off its left. -/
theorem unstore_join (rule : CompiledRule) {x : TupleId} {t : Tuple} (hx : p.arena.get? x = some t)
    {e : Entry} (he : e ∈ net.allJoins) (hsink : t.sink = e.node) {l : Location}
    (hloc : t.location = some l) :
    ∃ m left, p.joins.get? e.node = some m ∧ JoinFits facts p.arena e m ∧
      m.left.remove? l = some (x, left) ∧
      unstore rule x t p =
        { p with
          joins := p.joins.insert e.node { m with left, counters := m.counters.removeLeft } } := by
  obtain ⟨m, hm, hfits⟩ := hs.joins.at_site e he
  have hmem : x ∈ p.arena.storedAt e.node :=
    (Arena.mem_storedAt hs.arena.valid).mpr ⟨t, l, hx, hsink, hloc⟩
  have hat := hfits.left.tuple_at x hmem l ((Arena.locationOf_eq hx).trans hloc)
  rw [Memory.at?, Option.map_eq_some_iff] at hat
  obtain ⟨⟨y, left⟩, hremove, rfl⟩ := hat
  refine ⟨m, left, hm, hfits, hremove, ?_⟩
  rw [unstore_of_left rule y hloc (hsink ▸ hm) hremove, hsink]

/-- A full match is taken out of its terminal, and this is reported. -/
theorem unstore_terminal (rule : CompiledRule) {x : TupleId} {t : Tuple}
    (hx : p.arena.get? x = some t) {r : CompiledRule} (hr : r ∈ net.rules)
    (hsink : t.sink = r.terminal) {l : Location} (hloc : t.location = some l) :
    ∃ m, p.terminals.get? r.terminal = some m ∧ TerminalFits p.arena r m ∧
      m.tuples.get? l.slot = some x ∧
      unstore rule x t p =
        { p with
          terminals := p.terminals.insert r.terminal
            { m with tuples := m.tuples.remove l.slot, counters := m.counters.removeLeft }
          counters := { p.counters with deactivations := p.counters.deactivations + 1 }
          events := p.events ++ [.deactivated ⟨rule.id, rule.name, x, p.arena.handles x⟩] } := by
  obtain ⟨m, hm, hfits⟩ := hs.terminals.at_site r hr
  have hmem : x ∈ p.arena.storedAt r.terminal :=
    (Arena.mem_storedAt hs.arena.valid).mpr ⟨t, l, hx, hsink, hloc⟩
  have hslot := hfits.tuple_at x hmem l ((Arena.locationOf_eq hx).trans hloc)
  have hcontains := (SlotMap.contains_iff _ _).mpr ⟨x, hslot⟩
  refine ⟨m, hm, hfits, hslot, ?_⟩
  have hjoin := hs.join_terminal_eq_none hnet hr
  rw [unstore_of_full rule x hloc (hsink ▸ hjoin) (hsink ▸ hm) hcontains, hsink]

section Remove

variable (rule : CompiledRule) {x : TupleId} {t : Tuple} (hx : p.arena.get? x = some t)
  (hleaf : ∀ y u, p.arena.get? y = some u → u.parent ≠ some x)

include hx hleaf

theorem unstored_join {e : Entry} (he : e ∈ net.allJoins) (hsink : t.sink = e.node) {l : Location}
    (hloc : t.location = some l) : Unstored net facts x p (unstore rule x t p) := by
  obtain ⟨hleft, hterminal⟩ := parts_remove hs hx hleaf
  obtain ⟨m, left, hm, hfits, hremove, heq⟩ := unstore_join hs rule hx he hsink hloc
  obtain ⟨left', hremove', hleft'⟩ := hfits.left.remove hs.arena hx hsink hloc hleaf
  rw [hremove, Option.some.injEq, Prod.mk.injEq] at hremove'
  rw [← hremove'.2] at hleft'
  rw [heq]
  refine ⟨rfl, rfl, ?_, hs.terminals.imp fun r' hr' m' h => ?_⟩
  · refine hs.joins.insert (i := e) he ⟨hleft', hfits.right, hfits.made⟩
      (fun e' he' => hnet.join_inj he he') fun e' _ hne m' h => ?_
    have hne' : t.sink ≠ e'.node := fun hc => hne (hc.symm.trans hsink)
    exact ⟨hleft e' m'.left (fun hc => absurd hc hne') h.left, h.right, h.made⟩
  · have hne' : t.sink ≠ r'.terminal := by
      rw [hsink]
      exact hnet.join_ne_terminal he hr'
    exact hterminal r' m' (fun hc => absurd hc hne') h

theorem unstored_terminal {r : CompiledRule} (hr : r ∈ net.rules) (hsink : t.sink = r.terminal)
    {l : Location} (hloc : t.location = some l) : Unstored net facts x p (unstore rule x t p) := by
  obtain ⟨hleft, hterminal⟩ := parts_remove hs hx hleaf
  obtain ⟨m, hm, hfits, -, heq⟩ := unstore_terminal hnet hs rule hx hr hsink hloc
  have hfits' := (hfits.remove hs.arena hx hsink hloc).2
  rw [heq]
  refine ⟨rfl, rfl, hs.joins.imp fun e he m' h => ?_, ?_⟩
  · have hne' : t.sink ≠ e.node := by
      rw [hsink]
      exact (hnet.join_ne_terminal he hr).symm
    exact ⟨hleft e m'.left (fun hc => absurd hc hne') h.left, h.right, h.made⟩
  · refine hs.terminals.insert (i := r) hr hfits' (fun r' hr' => hnet.terminal_inj hr hr')
      fun r' _ hne m' h => ?_
    exact hterminal r' m' (fun hc => absurd (hc.symm.trans hsink) hne) h

theorem unstored_unstore {r : CompiledRule} {before later : List Entry}
    (hcut : net.Cut r before later) (hsink : t.sink = r.sinkAfter later) :
    Unstored net facts x p (unstore rule x t p) := by
  cases hloc : t.location with
  | none =>
      obtain ⟨hleft, hterminal⟩ := parts_remove hs hx hleaf
      rw [unstore_eq_self rule x hloc]
      refine ⟨rfl, rfl, hs.joins.imp fun e _ m h => ?_, hs.terminals.imp fun r' _ m h => ?_⟩
      · exact ⟨hleft e m.left (fun _ => hloc) h.left, h.right, h.made⟩
      · exact hterminal r' m (fun _ => hloc) h
  | some l =>
      cases later with
      | nil => exact unstored_terminal hnet hs rule hx hleaf hcut.mem hsink hloc
      | cons e later =>
          exact unstored_join hnet hs rule hx hleaf (hs.join_of_sink hnet hx hcut hsink) hsink hloc

omit hnet hx in
/-- The other tuples keep their lineage. -/
theorem lineage_remove : ∀ y u, SlotMap.get? (SlotMap.remove p.arena x) y = some u →
    ∃ r before e later, Lineage net facts (SlotMap.remove p.arena x) y u r before e later := by
  intro y u hu
  rw [SlotMap.get?_remove hs.arena.valid] at hu
  split at hu
  · cases hu
  · next hne =>
    obtain ⟨r, before, e, later, hl⟩ := hs.lineage y u hu
    refine ⟨r, before, e, later, hl.stays (Arena.stays_remove hs.arena hleaf hu hne) ?_⟩
    intro q v hq hv
    exact ⟨v, Arena.stays_remove hs.arena hleaf hv fun hqx => hleaf y u hu (hqx ▸ hq)⟩

omit hleaf in
/-- The record of the join that made the tuple forgets it. -/
theorem joins_forgetMade {q : Propagation} (hq : Unstored net facts x p q) :
    (forgetMade x t q).joins.Covers net.allJoins Entry.node
      (JoinFits facts (SlotMap.remove p.arena x)) := by
  have hvalid := hs.arena.valid
  obtain ⟨r, before, b, later, hl⟩ := hs.lineage x t hx
  by_cases hb : before = []
  · have ho := (hl.root hb).2
    rw [forgetMade, ho]
    refine hq.joins.imp fun e _ m h => ⟨h.1, h.2.1, h.2.2.remove_other hvalid hx ?_⟩
    rw [ho]
    exact fun hc => nomatch hc
  · have ho := (hl.child hb).1
    have hjoin : b ∈ net.allJoins := hl.cut.join hb
    rw [forgetMade, ho]
    refine hq.joins.modify (i := b) hjoin (fun m h => ?_) (fun e' he' => hnet.join_inj hjoin he')
      fun e' _ hne m h => ?_
    · exact ⟨h.1, h.2.1.modify t.handle fun _ => rfl, h.2.2.erase hvalid hx⟩
    · refine ⟨h.1, h.2.1, h.2.2.remove_other hvalid hx ?_⟩
      rw [ho]
      exact fun hc => hne (Option.some.inj hc).symm

/-- A tuple without extensions that no adapter knows can be removed. -/
theorem removeTuple {r : CompiledRule} {before later : List Entry} (hcut : net.Cut r before later)
    (hsink : t.sink = r.sinkAfter later)
    (hroot : ∀ n m, p.adapters.get? n = some m → ∀ h, m.roots.get? h ≠ some x) :
    (Propagation.removeTuple rule p x).arena = SlotMap.remove p.arena x ∧
      (Propagation.removeTuple rule p x).adapters = p.adapters ∧
      Coherent net facts (Propagation.removeTuple rule p x).toMatchState := by
  have hq := unstored_unstore hnet hs rule hx hleaf hcut hsink
  -- The tuple leaves the memory of its sink, then the list of what its fact made, and
  -- last the arena.
  obtain ⟨q, hqdef⟩ : ∃ q, q = unstore rule x t p := ⟨_, rfl⟩
  rw [← hqdef] at hq
  obtain ⟨harena, hadapters, hterminals⟩ : (forgetMade x t q).arena = q.arena ∧
      (forgetMade x t q).adapters = q.adapters ∧ (forgetMade x t q).terminals = q.terminals := by
    unfold forgetMade
    split <;> exact ⟨rfl, rfl, rfl⟩
  have heq : Propagation.removeTuple rule p x = giveUp x (forgetMade x t q) := by
    rw [removeTuple_live hx, hqdef]
  have harena' : (Propagation.removeTuple rule p x).arena = SlotMap.remove p.arena x := by
    rw [heq]
    show SlotMap.remove (forgetMade x t q).arena x = _
    rw [harena, hq.arena]
  have hadapters' : (Propagation.removeTuple rule p x).adapters = p.adapters := by
    rw [heq]
    exact hadapters.trans hq.adapters
  refine ⟨harena', hadapters', ?_⟩
  constructor <;> rw [harena']
  case arena => exact Arena.wellFormed_remove hs.arena hleaf
  case lineage => exact lineage_remove hs hleaf
  case adapters =>
    rw [hadapters']
    refine ⟨fun r' hr' => ?_, hs.adapters.only_sites⟩
    obtain ⟨m, hm, hfits⟩ := hs.adapters.at_site r' hr'
    refine ⟨m, hm, hfits.stays fun k y u hk hu => ⟨u, Arena.stays_remove hs.arena hleaf hu ?_⟩⟩
    exact fun hyx => hroot _ m hm k (hyx ▸ hk)
  case joins =>
    rw [heq]
    exact joins_forgetMade hnet hs hx hq
  case terminals =>
    rw [heq]
    show FiniteMap.Covers (forgetMade x t q).terminals _ _ _
    rw [hterminals]
    exact hq.terminals

end Remove

end Coherent

/-- **Every single change keeps a coherent state coherent.** -/
theorem Change.coherent (hnet : net.WellFormed) {p p' : Propagation} (h : Change net facts p p')
    (hs : Coherent net facts p.toMatchState) : Coherent net facts p'.toMatchState := by
  cases h with
  | root hr hread hm hnew => exact hs.addRoot hnet hr hread hm
  | child hcut hx hsink hm hentry => exact hs.addChild hnet hcut hx hsink hm hentry
  | storeLeft he hx hsink hloc h =>
      obtain ⟨m, l, left, _, heq, hcoherent⟩ := hs.storeLeft hnet he hx hsink hloc
      rw [heq] at h
      cases h
      exact hcoherent
  | activate hr hx hsink hloc =>
      obtain ⟨m, -, heq, hcoherent⟩ := hs.activate hnet hr hx hsink hloc
      rw [heq]
      exact hcoherent
  | storeRight he hread hm hnew hmade h =>
      obtain ⟨l, right, heq, hcoherent⟩ := hs.storeRight hnet he hread hm hnew hmade
      rw [heq] at h
      cases h
      exact hcoherent
  | remove hx hcut hsink hleaf hroot => exact (hs.removeTuple hnet _ hx hleaf hcut hsink hroot).2.2
  | dropRoot hr hm hx => exact hs.dropRoot hnet hr hm
  | dropRight he hm hentry hright =>
      obtain ⟨right, heq, hcoherent⟩ := hs.dropRight hnet he hm hentry
      rw [heq] at hright
      cases hright
      exact hcoherent

/-- **A sequence of changes keeps a coherent state coherent.** -/
theorem Changes.coherent (hnet : net.WellFormed) {p p' : Propagation} (h : Changes net facts p p')
    (hs : Coherent net facts p.toMatchState) : Coherent net facts p'.toMatchState := by
  induction h with
  | refl => exact hs
  | tail _ hstep ih => exact hstep.coherent hnet ih

end RuleMatching
