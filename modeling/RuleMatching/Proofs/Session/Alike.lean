import RuleMatching.Proofs.Arena.Alike
import RuleMatching.Proofs.Network.Depth
import RuleMatching.Proofs.Session.Leaving

set_option autoImplicit false

/-! # States that differ in layout only

Two states are alike if they have the same matches and facts at all nodes, and differ at most in the
places where the joins keep them (`MatchState.Alike`). Nothing that a node shows depends on these
places, and single changes of states that are alike lead to states that are alike, for a network as
well as for one with keys of another length. -/

namespace RuleMatching

open Network

/-- What a join shows beside the matches that wait there: the facts on its right, and
its counters. -/
def JoinMemory.face (m : JoinMemory) : List Handle × NodeCounters :=
  (m.rightEntries.keys, m.counters)

/-- The states are the same but for the places where the joins keep their items. -/
structure MatchState.Alike (s s' : MatchState) : Prop where
  arena : s.arena.Alike s'.arena
  adapters : s'.adapters = s.adapters
  joins : ∀ n, (s'.joins.get? n).map JoinMemory.face = (s.joins.get? n).map JoinMemory.face
  terminals : s'.terminals = s.terminals
  counters : s'.counters = s.counters

/-- The states are the same but for the places where the joins keep their items, with
the same events. -/
structure Propagation.Alike (p p' : Propagation) : Prop
    extends MatchState.Alike p.toMatchState p'.toMatchState where
  events : p'.events = p.events

@[inherit_doc Entry.atDepth]
def PropagationContext.atDepth (d : Nat) (ctx : PropagationContext) : PropagationContext :=
  { ctx with rule := ctx.rule.atDepth d }

/-! ## Joins -/

section Faces

variable {joins joins' : FiniteMap NodeId JoinMemory}
  (h : ∀ n, (joins'.get? n).map JoinMemory.face = (joins.get? n).map JoinMemory.face)

include h

theorem JoinMemory.face_insert {m m' : JoinMemory} (hm : m'.face = m.face) (node n : NodeId) :
    ((joins'.insert node m').get? n).map face = ((joins.insert node m).get? n).map face := by
  rw [FiniteMap.get?_insert, FiniteMap.get?_insert]
  split
  · rw [Option.map_some, Option.map_some, hm]
  · exact h n

theorem JoinMemory.face_modify {f : JoinMemory → JoinMemory} (hf : ∀ m, (f m).face = m.face)
    (node n : NodeId) :
    ((joins'.modify node f).get? n).map face = ((joins.modify node f).get? n).map face := by
  rw [FiniteMap.map_get?_modify _ _ hf, FiniteMap.map_get?_modify _ _ hf, h]

end Faces

namespace MatchState.Alike

variable {s s' : MatchState} (h : s.Alike s')

include h

/-- The same facts are in. -/
theorem holds (n : NodeId) (k : Handle) : s'.holds n k = s.holds n k := by
  refine holds_congr (fun n => by rw [h.adapters]) (fun n => ?_) n k
  have hface := congrArg (Option.map Prod.fst) (h.joins n)
  rwa [Option.map_map, Option.map_map] at hface

/-- A join has the same face in both states. -/
theorem face_eq {n : NodeId} {m m' : JoinMemory} (hm : s.joins.get? n = some m)
    (hm' : s'.joins.get? n = some m') : m'.face = m.face := by
  have hface := h.joins n
  rwa [hm, hm', Option.map_some, Option.map_some, Option.some.injEq] at hface

/-- An adapter is the same in both states. -/
theorem adapter_eq {n : NodeId} {m m' : AdapterMemory} (hm : s.adapters.get? n = some m)
    (hm' : s'.adapters.get? n = some m') : m' = m := by
  rw [h.adapters] at hm'
  exact Option.some.inj (hm'.symm.trans hm)

theorem unrooted {x : TupleId} (hx : Unrooted s x) : Unrooted s' x := by
  rw [Unrooted, h.adapters]
  exact hx

end MatchState.Alike

namespace Propagation.Alike

variable {net : Network} {facts : FactStore} {p p' : Propagation} {d : Nat} (h : p.Alike p')

include h

/-! ## New matches -/

theorem createTuple (k : Handle) (parent : Option TupleId) (sink : NodeId)
    (origin : Option NodeId) :
    (p.createTuple k parent sink origin).Alike (p'.createTuple k parent sink origin) := by
  refine { h with arena := ?_, counters := ?_ }
  · show Arena.Alike (SlotMap.add p.arena _) (SlotMap.add p'.arena _)
    rw [h.arena.childSize]
    exact h.arena.add _
  · exact congrArg (fun c : TupleCounters => { c with created := c.created + 1 }) h.counters

theorem addRoot (r : CompiledRule) (k : Handle) (m : AdapterMemory) :
    (addRoot r k m p).Alike (addRoot (r.atDepth d) k m p') := by
  have hsink : (r.atDepth d).sinkAfter (r.atDepth d).joins = r.sinkAfter r.joins :=
    sinkAfter_atDepth r r.joins
  have hcreate := h.createTuple k none (r.sinkAfter r.joins) none
  refine { hcreate with arena := ?_, adapters := ?_ }
  · show Arena.Alike _ (p'.createTuple k none ((r.atDepth d).sinkAfter (r.atDepth d).joins)
      none).arena
    rw [hsink]
    exact hcreate.arena
  · show p'.adapters.insert r.first.node _ = p.adapters.insert r.first.node _
    rw [h.adapters, h.arena.next]

theorem addChild (node sink : NodeId) (x : TupleId) (k : Handle) :
    (addChild node sink x k p).Alike (addChild node sink x k p') := by
  have hcreate := h.createTuple k (some x) sink (some node)
  refine { hcreate with joins := fun n => ?_ }
  show ((p'.joins.modify node _).get? n).map _ = ((p.joins.modify node _).get? n).map _
  rw [h.arena.next]
  refine JoinMemory.face_modify h.joins (fun m => ?_) node n
  rw [JoinMemory.face, JoinMemory.face, FiniteMap.keys_modify]

/-! ## Matches and facts that are stored -/

theorem putLeft {node : NodeId} {m m' : JoinMemory} (hm : p.joins.get? node = some m)
    (hm' : p'.joins.get? node = some m') (x : TupleId) (l l' : Location)
    (left left' : Memory TupleId) :
    (putLeft node x m l left p).Alike (putLeft node x m' l' left' p') := by
  obtain ⟨hkeys, hcounters⟩ := Prod.mk.inj (h.face_eq hm hm')
  refine
    { h with
      arena := h.arena.setLocation x l l'
      joins := fun n => JoinMemory.face_insert h.joins ?_ node n }
  exact Prod.ext hkeys (congrArg NodeCounters.addLeft hcounters)

theorem putRight {node : NodeId} {m m' : JoinMemory} (hm : p.joins.get? node = some m)
    (hm' : p'.joins.get? node = some m') {k : Handle} (hnew : m.rightEntries.get? k = none)
    (hnew' : m'.rightEntries.get? k = none) (l l' : Location) (right right' : Memory Handle) :
    (putRight node k m l right p).Alike (putRight node k m' l' right' p') := by
  obtain ⟨hkeys, hcounters⟩ := Prod.mk.inj (h.face_eq hm hm')
  refine { h with joins := fun n => JoinMemory.face_insert h.joins ?_ node n }
  refine Prod.ext ?_ (congrArg NodeCounters.addRight hcounters)
  show (m'.rightEntries.insert k _).keys = (m.rightEntries.insert k _).keys
  rw [FiniteMap.keys_insert_new hnew, FiniteMap.keys_insert_new hnew', hkeys]

/-- A full match is stored at the same place and reported alike. -/
theorem activate (ctx : PropagationContext) (x : TupleId) :
    (activate ctx x p).1.Alike (activate (ctx.atDepth d) x p').1 := by
  have hterminals : p'.terminals.get? (ctx.atDepth d).rule.terminal =
      p.terminals.get? ctx.rule.terminal := by
    rw [h.terminals]
    rfl
  simp only [Propagation.activate, MatchStore.storeFull?, storeFull?, hterminals]
  cases p.terminals.get? ctx.rule.terminal with
  | none => exact h
  | some m =>
      refine
        { h with
          arena := h.arena.setLocation x _ _
          terminals := congrArg
            (fun t : FiniteMap NodeId TerminalMemory => t.insert ctx.rule.terminal _) h.terminals
          counters := ?_
          events := ?_ }
      · exact congrArg (fun c : TupleCounters => { c with activations := c.activations + 1 })
          h.counters
      · show p'.events ++ [.activated ⟨_, _, x, p'.arena.handles x⟩] = _
        rw [h.events, h.arena.handles]
        rfl

/-! ## Facts that are forgotten -/

theorem dropRoot (node : NodeId) (k : Handle) (m : AdapterMemory) :
    (dropRoot node k m p).Alike (dropRoot node k m p') :=
  { h with
    adapters := congrArg (fun a : FiniteMap NodeId AdapterMemory => a.insert node _) h.adapters }

theorem dropRight {node : NodeId} {m m' : JoinMemory} (hm : p.joins.get? node = some m)
    (hm' : p'.joins.get? node = some m') (k : Handle) (right right' : Memory Handle) :
    (dropRight node k m right p).Alike (dropRight node k m' right' p') := by
  obtain ⟨hkeys, hcounters⟩ := Prod.mk.inj (h.face_eq hm hm')
  refine { h with joins := fun n => JoinMemory.face_insert h.joins ?_ node n }
  refine Prod.ext ?_ (congrArg NodeCounters.removeRight hcounters)
  show (m'.rightEntries.erase k).keys = (m.rightEntries.erase k).keys
  rw [FiniteMap.keys_erase, FiniteMap.keys_erase, hkeys]

/-! ## Matches that go -/

theorem forgetMade (x : TupleId) (t : Tuple) (l : Option Location) :
    (forgetMade x t p).Alike (forgetMade x { t with location := l } p') := by
  unfold Propagation.forgetMade
  cases t.origin with
  | none => exact h
  | some node =>
      refine { h with joins := fun n => JoinMemory.face_modify h.joins (fun m => ?_) node n }
      rw [JoinMemory.face, JoinMemory.face, FiniteMap.keys_modify]

section Remove

variable (hnet : net.WellFormed) (hnet' : (net.atDepth d).WellFormed)
  (hs : Coherent net facts p.toMatchState) (hs' : Coherent (net.atDepth d) facts p'.toMatchState)

include hnet hnet' hs hs'

/-- A tuple is taken out of the memory of its sink, wherever the memory keeps it. -/
theorem unstore (rule : CompiledRule) {x : TupleId} {t : Tuple} (hx : p.arena.get? x = some t)
    {l : Option Location} (hx' : p'.arena.get? x = some { t with location := l })
    (hl : l.isSome = t.location.isSome) :
    (unstore rule x t p).Alike (unstore (rule.atDepth d) x { t with location := l } p') := by
  cases hloc : t.location with
  | none =>
      rw [hloc, Option.isSome_none, Option.isSome_eq_false_iff, Option.isNone_iff_eq_none] at hl
      rw [Coherent.unstore_eq_self rule x hloc, Coherent.unstore_eq_self (rule.atDepth d) x hl]
      exact h
  | some loc =>
      rw [hloc, Option.isSome_some, Option.isSome_iff_exists] at hl
      obtain ⟨loc', rfl⟩ := hl
      obtain ⟨r, before, e, later, hlineage⟩ := hs.lineage x t hx
      have hsink := hlineage.sink
      -- A full match waits at the terminal, which both states share; every other match
      -- waits at a join.
      cases later with
      | nil =>
          obtain ⟨m, hm, hfits, hslot, heq⟩ :=
            hs.unstore_terminal hnet rule hx hlineage.cut.mem hsink hloc
          obtain ⟨m', hm', -, hslot', heq'⟩ := hs'.unstore_terminal hnet' (rule.atDepth d) hx'
            (hlineage.cut.atDepth d).mem hsink rfl
          have hmm : m' = m := by
            rw [h.terminals] at hm'
            exact Option.some.inj (hm'.symm.trans hm)
          subst hmm
          -- Both terminals are the same memory, and there a tuple has one slot.
          have hslots : loc'.slot = loc.slot := hfits.slot_inj hs.arena.valid hslot' hslot
          rw [heq, heq', hslots]
          refine
            { h with
              terminals := congrArg
                (fun t : FiniteMap NodeId TerminalMemory => t.insert r.terminal _) h.terminals
              counters := ?_
              events := ?_ }
          · exact congrArg
              (fun c : TupleCounters => { c with deactivations := c.deactivations + 1 }) h.counters
          · show p'.events ++ [.deactivated ⟨_, _, x, p'.arena.handles x⟩] = _
            rw [h.events, h.arena.handles]
            rfl
      | cons e' later =>
          have he : e' ∈ net.allJoins := hlineage.cut.next.join (by simp)
          have he' := mem_allJoins_atDepth he d
          obtain ⟨m, left, hm, -, -, heq⟩ := hs.unstore_join rule hx he hsink hloc
          obtain ⟨m', left', hm', -, -, heq'⟩ := hs'.unstore_join (rule.atDepth d) hx' he' hsink rfl
          obtain ⟨hkeys, hcounters⟩ := Prod.mk.inj (h.face_eq hm hm')
          rw [heq, heq']
          refine { h with joins := fun n => JoinMemory.face_insert h.joins ?_ e'.node n }
          exact Prod.ext hkeys (congrArg NodeCounters.removeLeft hcounters)

/-- **A match is removed alike.** -/
theorem removeTuple (rule : CompiledRule) (x : TupleId) :
    (removeTuple rule p x).Alike (removeTuple (rule.atDepth d) p' x) := by
  cases hx : p.arena.get? x with
  | none =>
      rw [removeTuple_dead hx, removeTuple_dead (h.arena.get?_eq_none hx)]
      exact h
  | some t =>
      obtain ⟨l, hx', hl⟩ := h.arena.get? hx
      have hforget := (h.unstore hnet hnet' hs hs' rule hx hx' hl).forgetMade x t l
      rw [removeTuple_live hx, removeTuple_live hx']
      refine { hforget with arena := hforget.arena.remove x, counters := ?_ }
      exact congrArg (fun c : TupleCounters => { c with deleted := c.deleted + 1 }) hforget.counters

end Remove

end Propagation.Alike

end RuleMatching
