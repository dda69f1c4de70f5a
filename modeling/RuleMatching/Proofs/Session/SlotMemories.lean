import RuleMatching.Proofs.Memory.Linked
import RuleMatching.Proofs.Session.Links
import RuleMatching.Session.Slots

set_option autoImplicit false

/-! # Memories of linked lists in a session

The memories of the nodes are kept in linked lists if each shows the memory of the same node, and
every fact on the right of a join is noted with the start of the thread of the matches made with it
(`SlotPropagation.Remembers`). **Every change of a memory can be made in the linked lists as well**:
a match is stored or taken (`Remembers.leftSide`, `Remembers.fullSide`), a fact comes to the right
of a join or leaves it (`Remembers.putRight`, `Remembers.dropRight`), and the thread of a fact is
changed (`Remembers.changeThread`). -/

namespace RuleMatching

open Propagation

/-- The location with the generation of its slot counted in 32 bits. -/
def Location.recounted (l : Location) : Location := l.kept.counted

@[simp] theorem Location.kept_recounted (l : Location) : l.recounted.kept = l.kept := by
  simp [recounted, kept, LinkedLocation.counted]

namespace SlotPropagation

/-- The fact is stored where it is in the other memory, and `start` is the newest match
made with it. -/
structure EntryShows (start : Option TupleId) (e : RightEntry) (e' : LinkedRightEntry) : Prop where
  location : e'.location = e.location.kept
  newest : e'.newest = start

/-- Both sides of the join show those of the other, and the newest matches made are as given. -/
structure JoinShows (starts : Handle → Option TupleId) (m : JoinMemory) (m' : LinkedJoinMemory) :
    Prop where
  left : m'.left.Shows m.left
  right : m'.right.Shows m.right
  entries : FiniteMap.Related (fun h => EntryShows (starts h)) m.rightEntries m'.rightEntries
  counters : m'.counters = m.counters

structure TerminalShows (m : TerminalMemory) (m' : LinkedTerminalMemory) : Prop where
  tuples : m'.tuples.Shows m.tuples
  counters : m'.counters = m.counters

/-- The store has in its memories what the other has, and the threads of matches made
start as given. -/
structure Remembers (starts : NodeId × Handle → Option TupleId) (p : Propagation)
    (q : SlotPropagation) : Prop where
  adapters : q.adapters = p.adapters
  joins : FiniteMap.Related (fun n => JoinShows fun h => starts (n, h)) p.joins q.joins
  terminals : FiniteMap.Related (fun _ => TerminalShows) p.terminals q.terminals
  counters : q.counters = p.counters
  events : q.events = p.events

variable {starts starts' : NodeId × Handle → Option TupleId} {p : Propagation} {q : SlotPropagation}

/-- Without the fact on the right there is no thread to change. -/
theorem modifyMade_of_not_hasRight {n : NodeId} {k : Handle} (hright : q.hasRight n k = false)
    (f : SlotArena → Option TupleId → Option TupleId × SlotArena) : modifyMade n k f q = q := by
  rw [SlotState.hasRight] at hright
  unfold modifyMade
  cases hm : q.joins.get? n with
  | none => rfl
  | some m =>
      rw [hm] at hright
      have hentry : m.rightEntries.get? k = none := (FiniteMap.contains_eq_false_iff _ _).mp hright
      simp only [Option.bind_some, hentry, Option.map_none]

/-- Only the threads of the facts of the join matter. -/
theorem JoinShows.imp {starts starts' : Handle → Option TupleId} {m : JoinMemory}
    {m' : LinkedJoinMemory} (h : JoinShows starts m m') (heq : ∀ k, starts' k = starts k) :
    JoinShows starts' m m' := funext heq ▸ h

namespace Remembers

/-! ## What can be seen -/

section Seen

variable (h : Remembers starts p q)

include h

theorem waiting_eq (n : NodeId) (key : Option IndexKey) :
    (q.joins.get? n).map (·.left.candidates key) = (p.joins.get? n).map (·.left.candidates key) :=
  h.joins.map_get? fun _ _ hm => hm.left.candidates_eq key

theorem facing_eq (n : NodeId) (key : Option IndexKey) :
    (q.joins.get? n).map (·.right.candidates key) = (p.joins.get? n).map (·.right.candidates key) :=
  h.joins.map_get? fun _ _ hm => hm.right.candidates_eq key

theorem hasRight_eq (n : NodeId) (k : Handle) : q.hasRight n k = p.hasRight n k :=
  congrArg (Option.getD · false) (h.joins.map_get? fun _ _ hm => hm.entries.contains_eq k)

theorem holds_eq (n : NodeId) (k : Handle) : q.holds n k = p.holds n k := by
  rw [SlotState.holds, MatchState.holds, h.adapters]
  exact congrArg _ (h.hasRight_eq n k)

theorem leftCount_eq (n : NodeId) : q.leftCount n = p.leftCount n := by
  have hjoin : (q.joins.get? n).map (·.left.size) = (p.joins.get? n).map (·.left.size) :=
    h.joins.map_get? fun _ _ hm => hm.left.size_eq
  have hterminal : (q.terminals.get? n).map (·.tuples.count) =
      (p.terminals.get? n).map (·.tuples.size) :=
    h.terminals.map_get? fun _ _ hm => hm.tuples.count_eq
  rw [SlotState.leftCount, MatchState.leftCount, h.adapters, hjoin, hterminal]

theorem rightCount_eq (n : NodeId) : q.rightCount n = p.rightCount n :=
  congrArg (Option.getD · 0) (h.joins.map_get? fun _ _ hm => hm.right.size_eq)

theorem nodeCounters_eq (n : NodeId) : q.nodeCounters n = p.nodeCounters n := by
  have hjoin : (q.joins.get? n).map LinkedJoinMemory.counters =
      (p.joins.get? n).map JoinMemory.counters := h.joins.map_get? fun _ _ hm => hm.counters
  have hterminal : (q.terminals.get? n).map LinkedTerminalMemory.counters =
      (p.terminals.get? n).map TerminalMemory.counters :=
    h.terminals.map_get? fun _ _ hm => hm.counters
  rw [SlotState.nodeCounters, MatchState.nodeCounters, h.adapters, hjoin, hterminal]

theorem terminalTuples_eq (n : NodeId) : q.terminalTuples n = p.terminalTuples n :=
  congrArg (Option.getD · []) (h.terminals.map_get? fun _ _ hm => hm.tuples.toList_eq)

/-- A fact on the right of a join is noted with the newest match made with it. -/
theorem entry_of_hasRight {n : NodeId} {k : Handle} (hright : p.hasRight n k = true) :
    ∃ m' e', q.joins.get? n = some m' ∧ m'.rightEntries.get? k = some e' ∧
    e'.newest = starts (n, k) := by
  rw [MatchState.hasRight] at hright
  cases hm : p.joins.get? n with
  | none =>
      rw [hm] at hright
      cases hright
  | some m =>
      rw [hm] at hright
      obtain ⟨e, he⟩ := (FiniteMap.contains_iff _ _).mp hright
      obtain ⟨m', hm', hshows⟩ := h.joins.get? hm
      obtain ⟨e', he', hentry⟩ := hshows.entries.get? he
      exact ⟨m', e', hm', he', hentry.newest⟩

end Seen

/-! ## Changes -/

section Changes

variable (h : Remembers starts p q)

include h

theorem withArena (a : Arena) (a' : SlotArena) :
    Remembers starts { p with arena := a } { q with arena := a' } :=
  ⟨h.adapters, h.joins, h.terminals, h.counters, h.events⟩

theorem tally (f : TupleCounters → TupleCounters) :
    Remembers starts (MatchStore.tally f p) (MatchStore.tally f q) :=
  ⟨h.adapters, h.joins, h.terminals, congrArg f h.counters, h.events⟩

theorem emit (event : ActivationEvent) :
    Remembers starts (MatchStore.emit event p) (MatchStore.emit event q) :=
  ⟨h.adapters, h.joins, h.terminals, h.counters, congrArg (· ++ [event]) h.events⟩

variable {n : NodeId} {k : Handle}

/-- A match comes to the left of a join or leaves it. -/
theorem leftSide {m : JoinMemory} {m' : LinkedJoinMemory}
    (hm : JoinShows (fun k => starts (n, k)) m m') {left : Memory TupleId}
    {left' : LinkedMemory TupleId} (hleft : left'.Shows left) (counters : NodeCounters) :
    Remembers starts { p with joins := p.joins.insert n { m with left, counters } }
      { q with joins := q.joins.insert n { m' with left := left', counters } } :=
  ⟨h.adapters, h.joins.insert ⟨hleft, hm.right, hm.entries, rfl⟩ fun _ _ _ _ hj => hj, h.terminals,
    h.counters, h.events⟩

/-- A full match comes to a terminal or leaves it. -/
theorem fullSide {tuples : SlotMap TupleId} {tuples' : Slab TupleId}
    (htuples : tuples'.Shows tuples) (counters : NodeCounters) :
    Remembers starts { p with terminals := p.terminals.insert n ⟨tuples, counters⟩ }
      { q with terminals := q.terminals.insert n ⟨tuples', counters⟩ } :=
  ⟨h.adapters, h.joins, h.terminals.insert ⟨htuples, rfl⟩ fun _ _ _ _ ht => ht, h.counters,
    h.events⟩

section Right

variable (hstarts : ∀ j, starts' j = if (n, k) = j then none else starts j) {m : JoinMemory}
  {m' : LinkedJoinMemory} (hm : JoinShows (fun k => starts (n, k)) m m') {right : Memory Handle}
  {right' : LinkedMemory Handle} (hright : right'.Shows right) (counters : NodeCounters)

include hstarts hm hright

/-- The right of a join changes, and no match made with the fact is known then. -/
theorem rightSide {entries : FiniteMap Handle RightEntry}
    {entries' : FiniteMap Handle LinkedRightEntry}
    (hentries : FiniteMap.Related (fun j => EntryShows (starts' (n, j))) entries entries') :
    Remembers starts'
      { p with joins := p.joins.insert n { m with right, rightEntries := entries, counters } }
      { q with
        joins :=
          q.joins.insert n { m' with right := right', rightEntries := entries', counters } } := by
  refine ⟨h.adapters, ?_, h.terminals, h.counters, h.events⟩
  refine h.joins.insert ⟨hm.left, hright, hentries, rfl⟩ fun j hj v w hjoin => hjoin.imp fun i => ?_
  rw [hstarts, if_neg fun heq => hj (congrArg Prod.fst heq).symm]

omit h hm hright in
/-- What the other facts of the join are noted with stays. -/
theorem entry_of_ne (j : Handle) (hj : j ≠ k) (e : RightEntry) (e' : LinkedRightEntry)
    (he : EntryShows (starts (n, j)) e e') : EntryShows (starts' (n, j)) e e' := by
  refine ⟨he.location, ?_⟩
  rw [he.newest, hstarts, if_neg fun heq => hj (congrArg Prod.snd heq).symm]

/-- A fact comes to the right of a join. -/
theorem putRight (l : Location) : Remembers starts'
    { p with
      joins := p.joins.insert n
        { m with right, rightEntries := m.rightEntries.insert k ⟨l, []⟩, counters } }
    { q with
      joins := q.joins.insert n
        { m' with
          right := right'
          rightEntries := m'.rightEntries.insert k ⟨l.kept, none⟩
          counters } } := by
  have hstart : none = starts' (n, k) := by rw [hstarts, if_pos rfl]
  exact h.rightSide hstarts hm hright counters
    (hm.entries.insert ⟨rfl, hstart⟩ (entry_of_ne hstarts))

/-- A fact leaves the right of a join. -/
theorem dropRight : Remembers starts'
    { p with
      joins := p.joins.insert n
        { m with right, rightEntries := m.rightEntries.erase k, counters } }
    { q with
      joins := q.joins.insert n
        { m' with right := right', rightEntries := m'.rightEntries.erase k, counters } } :=
  h.rightSide hstarts hm hright counters (hm.entries.erase k (entry_of_ne hstarts))

end Right

/-- The list of the matches made with a fact is not kept beside the fact. -/
theorem modifyMade (n : NodeId) (k : Handle) (f : List TupleId → List TupleId) :
    Remembers starts (Propagation.modifyMade n k f p) q := by
  refine ⟨h.adapters, h.joins.modify_left n fun m m' hm => ?_, h.terminals, h.counters, h.events⟩
  exact ⟨hm.left, hm.right, hm.entries.modify_left k fun e e' he => ⟨he.location, he.newest⟩,
    hm.counters⟩

/-- The thread of the matches made with a fact is changed, and where it starts is noted. -/
theorem changeThread (hright : p.hasRight n k = true)
    {f : SlotArena → Option TupleId → Option TupleId × SlotArena} {newest : Option TupleId}
    {a : SlotArena} (hf : f q.arena (starts (n, k)) = (newest, a))
    (hstarts : ∀ j, starts' j = if (n, k) = j then newest else starts j) :
    (SlotPropagation.modifyMade n k f q).arena = a ∧
      Remembers starts' p (SlotPropagation.modifyMade n k f q) := by
  obtain ⟨m', e', hm', he', hnewest⟩ := h.entry_of_hasRight hright
  obtain ⟨m, hm, hjoin⟩ := h.joins.get?_right hm'
  obtain ⟨e, he, hentry⟩ := hjoin.entries.get?_right he'
  have hentries : FiniteMap.Related (fun j => EntryShows (starts' (n, j))) m.rightEntries
      (m'.rightEntries.insert k { e' with newest }) := by
    refine hjoin.entries.insert_right he ⟨hentry.location, ?_⟩ fun j hj v w hvw =>
      ⟨hvw.location, ?_⟩
    · rw [hstarts, if_pos rfl]
    · rw [hvw.newest, hstarts, if_neg fun heq => hj (congrArg Prod.snd heq).symm]
  have hjoins : FiniteMap.Related (fun j => JoinShows fun i => starts' (j, i)) p.joins
      (q.joins.insert n
        { m' with rightEntries := m'.rightEntries.insert k { e' with newest } }) := by
    refine h.joins.insert_right hm ⟨hjoin.left, hjoin.right, hentries, hjoin.counters⟩
      fun j hj v w hvw => hvw.imp fun i => ?_
    rw [hstarts, if_neg fun heq => hj (congrArg Prod.fst heq).symm]
  rw [← hnewest] at hf
  simp only [SlotPropagation.modifyMade, hm', Option.bind_some, he', Option.map_some, hf]
  exact ⟨trivial, h.adapters, hjoins, h.terminals, h.counters, h.events⟩

end Changes

/-! ## Fresh memories -/

/-- The empty memories of the nodes of a rule are added. -/
theorem addRule {s : MatchState} {s' : SlotState} {events : List ActivationEvent}
    (h : Remembers starts ⟨s, events⟩ ⟨s', events⟩) (r : CompiledRule) :
    Remembers starts ⟨s.addRule r, events⟩ ⟨s'.addRule r, events⟩ := by
  refine ⟨congrArg (FiniteMap.insert · r.first.node MatchState.emptyAdapter) h.adapters,
    h.joins.foldl_insert fun e => ⟨.ofKind _, .ofKind _, .empty _, rfl⟩,
    h.terminals.insert ⟨Slab.shows_empty, rfl⟩ fun _ _ _ _ ht => ht, h.counters, rfl⟩

/-- **The memories of a fresh session are kept in linked lists.** -/
theorem ofNetwork (starts : NodeId × Handle → Option TupleId) (net : Network) :
    Remembers starts ⟨.ofNetwork net, []⟩ ⟨.ofNetwork net, []⟩ ∧
      (SlotState.ofNetwork net).arena = .empty := by
  unfold MatchState.ofNetwork SlotState.ofNetwork
  have hempty : Remembers starts ⟨⟨.empty, .empty, .empty, .empty, {}⟩, []⟩
      ⟨⟨.empty, .empty, .empty, .empty, {}⟩, []⟩ := ⟨rfl, .empty _, .empty _, rfl, rfl⟩
  have harena : (⟨.empty, .empty, .empty, .empty, {}⟩ : SlotState).arena = .empty := rfl
  generalize (⟨.empty, .empty, .empty, .empty, {}⟩ : MatchState) = s at hempty
  generalize (⟨.empty, .empty, .empty, .empty, {}⟩ : SlotState) = s' at hempty harena
  induction net.rules generalizing s s' with
  | nil => exact ⟨hempty, harena⟩
  | cons r rest ih => exact ih (s.addRule r) (s'.addRule r) (hempty.addRule r) harena

end Remembers

end SlotPropagation

end RuleMatching
