import Mathlib.Order.Basic
import RuleMatching.Proofs.Session.Frames
import RuleMatching.Proofs.Session.Skipping

set_option autoImplicit false

/-! # Counters

Every counter goes up where something is added or removed, and nothing sets it back. **After every
run what was added and not removed is what is there** (`Session.counters_run`): on both sides of
every node, among the tuples, the full matches and the facts. A single change of the matches keeps
this balance (`Change.balanced`), and no counter is lower after it (`Change.countsUp`). -/

namespace RuleMatching

open Network Propagation

/-! ## Orders of counters -/

/-- None of the counters is above that of the other node. -/
instance : Preorder NodeCounters where
  le c d := c.leftAdds ≤ d.leftAdds ∧ c.leftRemoves ≤ d.leftRemoves ∧ c.rightAdds ≤ d.rightAdds ∧
    c.rightRemoves ≤ d.rightRemoves
  le_refl c := ⟨le_rfl, le_rfl, le_rfl, le_rfl⟩
  le_trans _ _ _ h h' :=
    ⟨h.1.trans h'.1, h.2.1.trans h'.2.1, h.2.2.1.trans h'.2.2.1, h.2.2.2.trans h'.2.2.2⟩

/-- None of the counters of matches is above that of the other state. -/
instance : Preorder TupleCounters where
  le c d := c.created ≤ d.created ∧ c.deleted ≤ d.deleted ∧ c.activations ≤ d.activations ∧
    c.deactivations ≤ d.deactivations
  le_refl c := ⟨le_rfl, le_rfl, le_rfl, le_rfl⟩
  le_trans _ _ _ h h' :=
    ⟨h.1.trans h'.1, h.2.1.trans h'.2.1, h.2.2.1.trans h'.2.2.1, h.2.2.2.trans h'.2.2.2⟩

/-- None of the counters of calls is above that of the other session. -/
instance : Preorder CallCounters where
  le c d := c.inserts ≤ d.inserts ∧ c.updates ≤ d.updates ∧ c.deletes ≤ d.deletes ∧
    c.skippedUpdates ≤ d.skippedUpdates ∧ c.propagationErrors ≤ d.propagationErrors
  le_refl c := ⟨le_rfl, le_rfl, le_rfl, le_rfl, le_rfl⟩
  le_trans _ _ _ h h' := ⟨h.1.trans h'.1, h.2.1.trans h'.2.1, h.2.2.1.trans h'.2.2.1,
    h.2.2.2.1.trans h'.2.2.2.1, h.2.2.2.2.trans h'.2.2.2.2⟩

namespace NodeCounters

theorem le_addLeft (c : NodeCounters) : c ≤ c.addLeft := ⟨Nat.le_succ _, le_rfl, le_rfl, le_rfl⟩

theorem le_removeLeft (c : NodeCounters) : c ≤ c.removeLeft :=
  ⟨le_rfl, Nat.le_succ _, le_rfl, le_rfl⟩

theorem le_addRight (c : NodeCounters) : c ≤ c.addRight := ⟨le_rfl, le_rfl, Nat.le_succ _, le_rfl⟩

theorem le_removeRight (c : NodeCounters) : c ≤ c.removeRight :=
  ⟨le_rfl, le_rfl, le_rfl, Nat.le_succ _⟩

/-- On both sides of a node what was added and not removed is what is there. -/
structure Balance (c : NodeCounters) (left right : Nat) : Prop where
  left : c.leftAdds = c.leftRemoves + left
  right : c.rightAdds = c.rightRemoves + right

variable {c : NodeCounters} {left left' right right' : Nat}

theorem balance_zero : Balance {} 0 0 := ⟨rfl, rfl⟩

theorem Balance.addLeft (h : c.Balance left right) (hleft : left' = left + 1) :
    c.addLeft.Balance left' right := by
  refine ⟨?_, h.right⟩
  show c.leftAdds + 1 = c.leftRemoves + left'
  rw [h.left, hleft, Nat.add_assoc]

theorem Balance.removeLeft (h : c.Balance left right) (hleft : left' + 1 = left) :
    c.removeLeft.Balance left' right := by
  refine ⟨?_, h.right⟩
  show c.leftAdds = c.leftRemoves + 1 + left'
  rw [h.left, ← hleft]
  omega

theorem Balance.addRight (h : c.Balance left right) (hright : right' = right + 1) :
    c.addRight.Balance left right' := by
  refine ⟨h.left, ?_⟩
  show c.rightAdds + 1 = c.rightRemoves + right'
  rw [h.right, hright, Nat.add_assoc]

theorem Balance.removeRight (h : c.Balance left right) (hright : right' + 1 = right) :
    c.removeRight.Balance left right' := by
  refine ⟨h.left, ?_⟩
  show c.rightAdds = c.rightRemoves + 1 + right'
  rw [h.right, ← hright]
  omega

end NodeCounters

/-! ## No counter is ever lower -/

/-- Every node of the first map has a memory in the second whose counters are no lower, and the
second has no others. -/
def FiniteMap.CountsUp {α : Type} (counters : α → NodeCounters) (m m' : FiniteMap NodeId α) :
    Prop :=
  ∀ n, Option.Rel (fun v w => counters v ≤ counters w) (m.get? n) (m'.get? n)

namespace FiniteMap.CountsUp

variable {α : Type} {counters : α → NodeCounters} {m m' m'' : FiniteMap NodeId α}

theorem refl (m : FiniteMap NodeId α) : CountsUp counters m m := by
  intro n
  cases m.get? n with
  | none => exact .none
  | some v => exact .some le_rfl

theorem trans (h : CountsUp counters m m') (h' : CountsUp counters m' m'') :
    CountsUp counters m m'' := by
  intro n
  have hn := h n
  have hn' := h' n
  revert hn hn'
  generalize m.get? n = a, m'.get? n = b, m''.get? n = c
  rintro (hab | -) (hbc | -)
  · exact .some (hab.trans hbc)
  · exact .none

theorem insert {n : NodeId} {v w : α} (hn : m.get? n = some v) (hle : counters v ≤ counters w) :
    CountsUp counters m (m.insert n w) := by
  intro k
  by_cases hk : k = n
  · rw [hk, hn, get?_insert_self]
    exact .some hle
  · rw [get?_insert_ne m w hk]
    exact refl m k

theorem modify (m : FiniteMap NodeId α) (n : NodeId) {f : α → α}
    (hle : ∀ v, counters v ≤ counters (f v)) : CountsUp counters m (m.modify n f) := by
  intro k
  by_cases hk : k = n
  · rw [hk, get?_modify_self]
    cases m.get? n with
    | none => exact .none
    | some v => exact .some (hle v)
  · rw [get?_modify_ne m f hk]
    exact refl m k

end FiniteMap.CountsUp

/-- No counter of the matches is lower in the second state. -/
structure MatchState.CountsUp (s s' : MatchState) : Prop where
  adapters : FiniteMap.CountsUp AdapterMemory.counters s.adapters s'.adapters
  joins : FiniteMap.CountsUp JoinMemory.counters s.joins s'.joins
  terminals : FiniteMap.CountsUp TerminalMemory.counters s.terminals s'.terminals
  tuples : s.counters ≤ s'.counters

namespace MatchState.CountsUp

variable {s s' s'' : MatchState}

theorem refl (s : MatchState) : CountsUp s s := ⟨.refl _, .refl _, .refl _, le_rfl⟩

theorem trans (h : CountsUp s s') (h' : CountsUp s' s'') : CountsUp s s'' :=
  ⟨h.adapters.trans h'.adapters, h.joins.trans h'.joins, h.terminals.trans h'.terminals,
    h.tuples.trans h'.tuples⟩

theorem nodeCounters_le (h : CountsUp s s') (n : NodeId) :
    s.nodeCounters n ≤ s'.nodeCounters n := by
  have ha := h.adapters n
  have hj := h.joins n
  have ht := h.terminals n
  unfold MatchState.nodeCounters
  revert ha hj ht
  generalize s.adapters.get? n = a, s'.adapters.get? n = a', s.joins.get? n = j,
    s'.joins.get? n = j', s.terminals.get? n = t, s'.terminals.get? n = t'
  -- The first kind of memory that the node has in one state is the first that it has in the other.
  rintro (hle | -) (hle' | -) (hle'' | -)
  all_goals first | exact hle | exact hle' | exact hle'' | exact le_rfl

end MatchState.CountsUp

section Step

variable {net : Network} {facts : FactStore} {p p' : Propagation}

theorem countsUp_unstore (rule : CompiledRule) (x : TupleId) (t : Tuple) (p : Propagation) :
    p.CountsUp (unstore rule x t p).toMatchState := by
  rcases unstore_cases rule x t p with
    heq | ⟨m, l, y, left, -, hm, -, heq⟩ | ⟨m, l, -, -, hm, -, heq⟩
  · rw [heq]
    exact .refl _
  · rw [heq]
    exact ⟨.refl _, .insert hm (NodeCounters.le_removeLeft _), .refl _, le_rfl⟩
  · rw [heq]
    exact ⟨.refl _, .refl _, .insert hm (NodeCounters.le_removeLeft _),
      le_rfl, le_rfl, le_rfl, Nat.le_succ _⟩

theorem countsUp_forgetMade (x : TupleId) (t : Tuple) (p : Propagation) :
    p.CountsUp (forgetMade x t p).toMatchState := by
  unfold forgetMade
  split
  · exact .refl _
  · exact ⟨.refl _, .modify _ _ fun _ => le_rfl, .refl _, le_rfl⟩

theorem countsUp_removeTuple (rule : CompiledRule) (x : TupleId) (p : Propagation) :
    p.CountsUp (removeTuple rule p x).toMatchState := by
  unfold removeTuple
  split
  · exact .refl _
  · next t _ =>
    refine (countsUp_unstore rule x t p).trans ((countsUp_forgetMade x t _).trans ?_)
    exact ⟨.refl _, .refl _, .refl _, le_rfl, Nat.le_succ _, le_rfl, le_rfl⟩

/-- **No counter is lower after a single change.** -/
theorem Change.countsUp (hnet : net.WellFormed) (hs : Coherent net facts p.toMatchState)
    (h : Change net facts p p') : p.CountsUp p'.toMatchState := by
  cases h with
  | root hr hread hm hnew =>
      exact ⟨.insert hm (NodeCounters.le_addLeft _), .refl _, .refl _, Nat.le_succ _, le_rfl,
        le_rfl, le_rfl⟩
  | child hcut hx hsink hm hentry =>
      exact ⟨.refl _, .modify _ _ fun _ => le_rfl, .refl _, Nat.le_succ _, le_rfl, le_rfl, le_rfl⟩
  | storeLeft he hx hsink hloc h =>
      obtain ⟨m, l, left, hm, heq, -⟩ := hs.storeLeft hnet he hx hsink hloc
      rw [heq] at h
      cases h
      exact ⟨.refl _, .insert hm (NodeCounters.le_addLeft _), .refl _, le_rfl⟩
  | activate hr hx hsink hloc =>
      obtain ⟨m, hm, heq, -⟩ := hs.activate hnet hr hx hsink hloc
      rw [heq]
      exact ⟨.refl _, .refl _, .insert hm (NodeCounters.le_addLeft _), le_rfl, le_rfl,
        Nat.le_succ _, le_rfl⟩
  | storeRight he hread hm hnew hmade h =>
      obtain ⟨l, right, heq, -⟩ := hs.storeRight hnet he hread hm hnew hmade
      rw [heq] at h
      cases h
      exact ⟨.refl _, .insert hm (NodeCounters.le_addRight _), .refl _, le_rfl⟩
  | remove hx hcut hsink hleaf hroot => exact countsUp_removeTuple _ _ p
  | dropRoot hr hm hx => exact ⟨.insert hm (NodeCounters.le_removeLeft _), .refl _, .refl _, le_rfl⟩
  | dropRight he hm hentry hright =>
      exact ⟨.refl _, .insert hm (NodeCounters.le_removeRight _), .refl _, le_rfl⟩

/-! ## What was added and not removed is there -/

/-- A sum that grows by one at one place. -/
theorem sum_map_succ {α : Type} {l : List α} (hn : l.Nodup) {a : α} (ha : a ∈ l) {f g : α → Nat}
    (hfa : f a + 1 = g a) (hother : ∀ b ∈ l, b ≠ a → f b = g b) :
    (l.map f).sum + 1 = (l.map g).sum := by
  induction l with
  | nil => exact absurd ha List.not_mem_nil
  | cons b rest ih =>
      rw [List.nodup_cons] at hn
      simp only [List.map_cons, List.sum_cons]
      rcases List.mem_cons.mp ha with rfl | ha
      · have hrest : rest.map f = rest.map g := List.map_congr_left fun c hc =>
          hother c (List.mem_cons_of_mem _ hc) fun heq => hn.1 (heq ▸ hc)
        rw [hrest]
        omega
      · have hrest := ih hn.2 ha fun c hc => hother c (List.mem_cons_of_mem _ hc)
        have hb := hother b List.mem_cons_self fun heq => hn.1 (heq ▸ ha)
        omega

theorem Network.WellFormed.nodup_rules (hnet : net.WellFormed) : net.rules.Nodup := by
  refine (List.nodup_flatMap.mp hnet.nodup_nodes).2.imp fun {r r'} hdis heq => ?_
  have hterminal : r.terminal ∈ r.nodes := List.mem_append_right _ (List.mem_singleton_self _)
  exact hdis hterminal (heq ▸ hterminal)

/-- The number of full matches of all rules. -/
def fullCount (net : Network) (a : Arena) : Nat :=
  (net.rules.map fun r => (a.storedAt r.terminal).length).sum

/-- The counters of the nodes and of full matches tell what there is, given the tuples
that are stored. -/
structure StoresBalance (net : Network) (a : Arena) (s : MatchState) : Prop where
  adapters : s.adapters.Covers net.rules (fun r => r.first.node) fun _ m =>
    m.counters.Balance m.roots.size 0
  joins : s.joins.Covers net.allJoins Entry.node fun e m =>
    m.counters.Balance (a.storedAt e.node).length m.rightEntries.size
  terminals : s.terminals.Covers net.rules CompiledRule.terminal fun r m =>
    m.counters.Balance (a.storedAt r.terminal).length 0
  full : s.counters.activations = s.counters.deactivations + fullCount net a

/-- The counters tell what there is: at every node, of the tuples and of the full matches. -/
structure Balanced (net : Network) (s : MatchState) : Prop where
  stores : StoresBalance net s.arena s
  tuples : s.counters.created = s.counters.deleted + s.arena.size

/-- Only the numbers of tuples that the nodes store count. -/
theorem StoresBalance.congr {a a' : Arena} {s : MatchState} (h : StoresBalance net a s)
    (hstored : ∀ n, a'.storedAt n = a.storedAt n) : StoresBalance net a' s := by
  refine ⟨h.adapters, h.joins.imp fun e _ m hm => ?_, h.terminals.imp fun r _ m hm => ?_, ?_⟩
  · rw [hstored]
    exact hm
  · rw [hstored]
    exact hm
  · rw [h.full, fullCount, fullCount]
    simp only [hstored]

theorem fullCount_congr {a a' : Arena}
    (hstored : ∀ r ∈ net.rules, a'.storedAt r.terminal = a.storedAt r.terminal) :
    fullCount net a' = fullCount net a :=
  congrArg List.sum (List.map_congr_left fun r hr => congrArg List.length (hstored r hr))

/-- One more full match of a rule. -/
theorem fullCount_succ (hnet : net.WellFormed) {r : CompiledRule} (hr : r ∈ net.rules)
    {a a' : Arena} (hone : (a.storedAt r.terminal).length + 1 = (a'.storedAt r.terminal).length)
    (hother : ∀ n, n ≠ r.terminal → a'.storedAt n = a.storedAt n) :
    fullCount net a + 1 = fullCount net a' :=
  sum_map_succ hnet.nodup_rules hr hone fun r' hr' hne => by
    rw [hother r'.terminal fun heq => hne (hnet.terminal_inj hr hr' heq)]

/-- The other memories keep their balance when the tuples that one join stores change. -/
theorem StoresBalance.others_of_join (hnet : net.WellFormed) {a a' : Arena} {s : MatchState}
    (h : StoresBalance net a s) {e : Entry} (he : e ∈ net.allJoins)
    (hother : ∀ n, n ≠ e.node → a'.storedAt n = a.storedAt n) :
    (s.terminals.Covers net.rules CompiledRule.terminal fun r m =>
      m.counters.Balance (a'.storedAt r.terminal).length 0) ∧
    s.counters.activations = s.counters.deactivations + fullCount net a' := by
  have hterminal : ∀ r ∈ net.rules, a'.storedAt r.terminal = a.storedAt r.terminal := fun r hr =>
    hother r.terminal (hnet.join_ne_terminal he hr).symm
  refine ⟨h.terminals.imp fun r hr m hm => ?_, ?_⟩
  · rw [hterminal r hr]
    exact hm
  · rw [fullCount_congr hterminal, h.full]

/-- The joins keep their balance when the full matches of one rule change. -/
theorem StoresBalance.joins_of_terminal (hnet : net.WellFormed) {a a' : Arena} {s : MatchState}
    (h : StoresBalance net a s) {r : CompiledRule} (hr : r ∈ net.rules)
    (hother : ∀ n, n ≠ r.terminal → a'.storedAt n = a.storedAt n) :
    s.joins.Covers net.allJoins Entry.node fun e m =>
      m.counters.Balance (a'.storedAt e.node).length m.rightEntries.size := by
  refine h.joins.imp fun e he m hm => ?_
  rw [hother e.node (hnet.join_ne_terminal he hr)]
  exact hm

/-- The record of what a join has made is not counted. -/
theorem StoresBalance.forgetMade {a : Arena} {q : Propagation}
    (h : StoresBalance net a q.toMatchState) (x : TupleId) (t : Tuple) :
    StoresBalance net a (Propagation.forgetMade x t q).toMatchState := by
  unfold Propagation.forgetMade
  split
  · exact h
  · next node _ =>
    refine ⟨h.adapters, h.joins.modify_all node fun e _ m hm => ⟨hm.left, ?_⟩, h.terminals, h.full⟩
    rw [FiniteMap.size_modify]
    exact hm.right

/-! ### Tuples that come -/

section Stored

variable {a : Arena} (ha : a.Valid) {x : TupleId} {t : Tuple} (hx : a.live.getLast? = some (x, t))
  (hloc : t.location = none) (l : Location)

include ha hx hloc

/-- The node that stores a tuple has one more. -/
theorem length_storedAt_setLocation :
    (a.storedAt t.sink).length + 1 = ((a.setLocation x l).storedAt t.sink).length := by
  rw [Arena.storedAt_setLocation ha hx hloc, if_pos rfl, List.length_append, List.length_singleton]

theorem storedAt_setLocation_ne {n : NodeId} (hn : n ≠ t.sink) :
    (a.setLocation x l).storedAt n = a.storedAt n := by
  rw [Arena.storedAt_setLocation ha hx hloc, if_neg hn.symm, List.append_nil]

end Stored

namespace Balanced

variable (hnet : net.WellFormed) (hs : Coherent net facts p.toMatchState)
  (hb : Balanced net p.toMatchState)

include hnet hb

theorem addRoot {r : CompiledRule} {h : Handle} {m : AdapterMemory} (hr : r ∈ net.rules)
    (hm : p.adapters.get? r.first.node = some m) (hnew : m.roots.get? h = none) :
    Balanced net (Propagation.addRoot r h m p).toMatchState := by
  have hbalance := hb.stores.congr fun n => Arena.storedAt_add (a := p.arena)
    (t := ⟨h, none, p.arena.childSize none, r.sinkAfter r.joins, none, none⟩) rfl n
  refine ⟨⟨?_, hbalance.joins, hbalance.terminals, hbalance.full⟩, ?_⟩
  · refine hb.stores.adapters.insert (i := r) hr ?_ (fun r' hr' => hnet.first_inj hr hr')
      fun _ _ _ _ hm' => hm'
    exact (hb.stores.adapters.fits_of_get? hr hm).addLeft (FiniteMap.size_insert_new hnew _)
  · show p.counters.created + 1 = p.counters.deleted + SlotMap.size (SlotMap.add p.arena _)
    rw [SlotMap.size_add, hb.tuples, Nat.add_assoc]

omit hnet in
theorem addChild (node sink : NodeId) (x : TupleId) (h : Handle) :
    Balanced net (Propagation.addChild node sink x h p).toMatchState := by
  have hbalance := hb.stores.congr fun n => Arena.storedAt_add (a := p.arena)
    (t := ⟨h, some x, p.arena.childSize (some x), sink, some node, none⟩) rfl n
  refine ⟨⟨hbalance.adapters, ?_, hbalance.terminals, hbalance.full⟩, ?_⟩
  · refine hbalance.joins.modify_all node fun e _ m hm => ⟨hm.left, ?_⟩
    rw [FiniteMap.size_modify]
    exact hm.right
  · show p.counters.created + 1 = p.counters.deleted + SlotMap.size (SlotMap.add p.arena _)
    rw [SlotMap.size_add, hb.tuples, Nat.add_assoc]

include hs

theorem putLeft {e : Entry} {x : TupleId} {t : Tuple} {m : JoinMemory} (he : e ∈ net.allJoins)
    (hx : p.arena.live.getLast? = some (x, t)) (hsink : t.sink = e.node) (hloc : t.location = none)
    (hm : p.joins.get? e.node = some m) (l : Location) (left : Memory TupleId) :
    Balanced net (Propagation.putLeft e.node x m l left p).toMatchState := by
  have hone := length_storedAt_setLocation hs.arena.valid hx hloc l
  have hother : ∀ n, n ≠ e.node → (p.arena.setLocation x l).storedAt n = p.arena.storedAt n :=
    fun n hn => storedAt_setLocation_ne hs.arena.valid hx hloc l (hsink ▸ hn)
  rw [hsink] at hone
  obtain ⟨hterminals, hfull⟩ := hb.stores.others_of_join hnet he hother
  refine ⟨⟨hb.stores.adapters, ?_, hterminals, hfull⟩, ?_⟩
  · refine hb.stores.joins.insert (i := e) he ?_ (fun e' he' => hnet.join_inj he he')
      fun e' _ hne m' hm' => ?_
    · exact (hb.stores.joins.fits_of_get? he hm).addLeft hone.symm
    · show m'.counters.Balance ((p.arena.setLocation x l).storedAt e'.node).length _
      rw [hother _ hne]
      exact hm'
  · show p.counters.created = p.counters.deleted + SlotMap.size (p.arena.setLocation x l)
    rw [Arena.setLocation, SlotMap.size_modify]
    exact hb.tuples

theorem activate {ctx : PropagationContext} {x : TupleId} {t : Tuple} (hr : ctx.rule ∈ net.rules)
    (hx : p.arena.live.getLast? = some (x, t)) (hsink : t.sink = ctx.rule.terminal)
    (hloc : t.location = none) : Balanced net (Propagation.activate ctx x p).1.toMatchState := by
  obtain ⟨m, hm, heq, -⟩ := hs.activate hnet hr hx hsink hloc
  obtain ⟨l, hl⟩ : ∃ l : Location, l = ⟨none, m.tuples.next⟩ := ⟨_, rfl⟩
  have hone := length_storedAt_setLocation hs.arena.valid hx hloc l
  have hother : ∀ n, n ≠ ctx.rule.terminal →
      (p.arena.setLocation x l).storedAt n = p.arena.storedAt n :=
    fun n hn => storedAt_setLocation_ne hs.arena.valid hx hloc l (hsink ▸ hn)
  rw [hsink] at hone
  rw [heq, putFull, ← hl]
  refine ⟨⟨hb.stores.adapters, hb.stores.joins_of_terminal hnet hr hother, ?_, ?_⟩, ?_⟩
  · refine hb.stores.terminals.insert (i := ctx.rule) hr ?_ (fun r' hr' => hnet.terminal_inj hr hr')
      fun r' _ hne m' hm' => ?_
    · exact (hb.stores.terminals.fits_of_get? hr hm).addLeft hone.symm
    · show m'.counters.Balance ((p.arena.setLocation x l).storedAt r'.terminal).length 0
      rw [hother _ hne]
      exact hm'
  · show p.counters.activations + 1 = p.counters.deactivations + fullCount net
      (p.arena.setLocation x l)
    rw [← fullCount_succ hnet hr hone hother, hb.stores.full, Nat.add_assoc]
  · show p.counters.created = p.counters.deleted + SlotMap.size (p.arena.setLocation x l)
    rw [Arena.setLocation, SlotMap.size_modify]
    exact hb.tuples

/-! ### Tuples that go -/

/-- When a tuple is taken out of the memory of its sink, the nodes are balanced without it. -/
theorem unstore (rule : CompiledRule) {x : TupleId} {t : Tuple} (hx : p.arena.get? x = some t)
    {r : CompiledRule} {before later : List Entry} (hcut : net.Cut r before later)
    (hsink : t.sink = r.sinkAfter later) :
    StoresBalance net (SlotMap.remove p.arena x) (Propagation.unstore rule x t p).toMatchState := by
  have hvalid := hs.arena.valid
  cases hloc : t.location with
  | none =>
      rw [Coherent.unstore_eq_self rule x hloc]
      exact hb.stores.congr fun n => Arena.storedAt_remove_eq_self hvalid hx fun _ => hloc
  | some l =>
      -- The sink has one tuple less, and the other nodes have the tuples that they had.
      have hone : (Arena.storedAt (SlotMap.remove p.arena x) t.sink).length + 1 =
          (p.arena.storedAt t.sink).length := by
        rw [Arena.storedAt_remove]
        exact length_filter_ne (Arena.nodup_storedAt hvalid _)
          ((Arena.mem_storedAt hvalid).mpr ⟨t, l, hx, rfl, hloc⟩)
      have hother : ∀ n, n ≠ t.sink →
          Arena.storedAt (SlotMap.remove p.arena x) n = p.arena.storedAt n :=
        fun n hn => Arena.storedAt_remove_eq_self hvalid hx fun heq => absurd heq.symm hn
      -- At the end of the rule the match is told as gone, so the full matches are counted too.
      cases later with
      | nil =>
          have hsink' : t.sink = r.terminal := hsink
          rw [hsink'] at hone hother
          obtain ⟨m, hm, -, -, heq⟩ := hs.unstore_terminal hnet rule hx hcut.mem hsink' hloc
          rw [heq]
          refine ⟨hb.stores.adapters, hb.stores.joins_of_terminal hnet hcut.mem hother, ?_, ?_⟩
          · refine hb.stores.terminals.insert (i := r) hcut.mem ?_
              (fun r' hr' => hnet.terminal_inj hcut.mem hr') fun r' _ hne m' hm' => ?_
            · exact (hb.stores.terminals.fits_of_get? hcut.mem hm).removeLeft hone
            · rw [hother _ hne]
              exact hm'
          · have hcount := fullCount_succ hnet hcut.mem hone fun n hn => (hother n hn).symm
            have hfull := hb.stores.full
            show p.counters.activations = p.counters.deactivations + 1 + fullCount net _
            omega
      | cons e later =>
          have he := hs.join_of_sink hnet hx hcut hsink
          have hsink' : t.sink = e.node := hsink
          rw [hsink'] at hone hother
          obtain ⟨m, left, hm, -, -, heq⟩ := hs.unstore_join rule hx he hsink' hloc
          obtain ⟨hterminals, hfull⟩ := hb.stores.others_of_join hnet he hother
          rw [heq]
          refine ⟨hb.stores.adapters, ?_, hterminals, hfull⟩
          refine hb.stores.joins.insert (i := e) he ?_ (fun e' he' => hnet.join_inj he he')
            fun e' _ hne m' hm' => ?_
          · exact (hb.stores.joins.fits_of_get? he hm).removeLeft hone
          · rw [hother _ hne]
            exact hm'

theorem removeTuple (rule : CompiledRule) {x : TupleId} {t : Tuple} (hx : p.arena.get? x = some t)
    {r : CompiledRule} {before later : List Entry} (hcut : net.Cut r before later)
    (hsink : t.sink = r.sinkAfter later) :
    Balanced net (Propagation.removeTuple rule p x).toMatchState := by
  have hstores := (hb.unstore hnet hs rule hx hcut hsink).forgetMade x t
  obtain ⟨hcreated, hdeleted⟩ := counters_removeTuple rule hx
  have harena : (Propagation.removeTuple rule p x).arena = SlotMap.remove p.arena x :=
    arena_removeTuple rule x p
  have hsize := SlotMap.size_remove hs.arena.valid hx
  have htuples := hb.tuples
  refine ⟨?_, ?_⟩
  · rw [harena, removeTuple_live hx]
    exact ⟨hstores.adapters, hstores.joins, hstores.terminals, hstores.full⟩
  · rw [hcreated, hdeleted, harena]
    omega

end Balanced

/-- **A single change keeps the balance.** -/
theorem Change.balanced (hnet : net.WellFormed) (hs : Coherent net facts p.toMatchState)
    (h : Change net facts p p') (hb : Balanced net p.toMatchState) :
    Balanced net p'.toMatchState := by
  cases h with
  | root hr hread hm hnew => exact hb.addRoot hnet hr hm hnew
  | child hcut hx hsink hm hentry => exact hb.addChild _ _ _ _
  | storeLeft he hx hsink hloc h =>
      obtain ⟨m, l, left, hm, heq, -⟩ := hs.storeLeft hnet he hx hsink hloc
      rw [heq] at h
      cases h
      exact hb.putLeft hnet hs he hx hsink hloc hm l left
  | activate hr hx hsink hloc => exact hb.activate hnet hs hr hx hsink hloc
  | storeRight he hread hm hnew hmade h =>
      obtain ⟨l, right, heq, -⟩ := hs.storeRight hnet he hread hm hnew hmade
      rw [heq] at h
      cases h
      refine ⟨⟨hb.stores.adapters, ?_, hb.stores.terminals, hb.stores.full⟩, hb.tuples⟩
      refine hb.stores.joins.insert he ?_ (fun e' he' => hnet.join_inj he he')
        fun _ _ _ _ hm' => hm'
      exact (hb.stores.joins.fits_of_get? he hm).addRight (FiniteMap.size_insert_new hnew _)
  | remove hx hcut hsink hleaf hroot => exact hb.removeTuple hnet hs _ hx hcut hsink
  | dropRoot hr hm hx =>
      refine ⟨⟨?_, hb.stores.joins, hb.stores.terminals, hb.stores.full⟩, hb.tuples⟩
      refine hb.stores.adapters.insert hr ?_ (fun r' hr' => hnet.first_inj hr hr')
        fun _ _ _ _ hm' => hm'
      exact (hb.stores.adapters.fits_of_get? hr hm).removeLeft (FiniteMap.size_erase hx)
  | dropRight he hm hentry hright =>
      refine ⟨⟨hb.stores.adapters, ?_, hb.stores.terminals, hb.stores.full⟩, hb.tuples⟩
      refine hb.stores.joins.insert he ?_ (fun e' he' => hnet.join_inj he he')
        fun _ _ _ _ hm' => hm'
      exact (hb.stores.joins.fits_of_get? he hm).removeRight (FiniteMap.size_erase hentry)

/-- **A sequence of changes keeps the balance, and no counter is lower after it.** -/
theorem Changes.counts (hnet : net.WellFormed) (hs : Coherent net facts p.toMatchState)
    (h : Changes net facts p p') : (Balanced net p.toMatchState → Balanced net p'.toMatchState) ∧
      p.CountsUp p'.toMatchState :=
  lift_steps (Q := fun q q' => (Balanced net q.toMatchState → Balanced net q'.toMatchState) ∧
      q.CountsUp q'.toMatchState) hnet (fun _ _ hstep => hstep) (fun _ => ⟨id, .refl _⟩)
    (fun _ _ _ hq hq' => ⟨hq'.1 ∘ hq.1, hq.2.trans hq'.2⟩)
    (fun _ _ hq hstep => ⟨hstep.balanced hnet hq, hstep.countsUp hnet hq⟩) hs h

end Step

/-! ## What is counted is what is there -/

section Counts

variable {net : Network} {facts : FactStore} {s : MatchState} (hnet : net.WellFormed)
  (hs : Coherent net facts s) (hb : Balanced net s)

include hs

/-- The left count of a terminal is the number of its full matches. -/
theorem Coherent.leftCount_terminal {r : CompiledRule} (hr : r ∈ net.rules)
    (hnet : net.WellFormed) : s.leftCount r.terminal = (s.arena.storedAt r.terminal).length := by
  obtain ⟨m, hm, hfits⟩ := hs.terminals.at_site r hr
  rw [MatchState.leftCount, hs.adapter_terminal_eq_none hnet hr,
    hs.join_terminal_eq_none hnet hr, hm,
    ← hfits.toList_eq, SlotMap.toList, List.length_map]
  exact Nat.zero_add _

include hnet hb

/-- The counters of every node tell what it holds. -/
theorem Balanced.nodeCounters (n : NodeId) :
    (s.nodeCounters n).Balance (s.leftCount n) (s.rightCount n) := by
  unfold MatchState.nodeCounters MatchState.leftCount MatchState.rightCount
  -- A node has a memory of one kind only, which tells its counters and what it holds.
  cases ha : s.adapters.get? n with
  | some m =>
      obtain ⟨r, hr, rfl⟩ := hb.stores.adapters.only_sites n m ha
      have hterminal : s.terminals.get? r.first.node = none :=
        hs.terminals.get?_eq_none fun r' hr' => hnet.terminal_ne_first hr' hr
      rw [hs.join_eq_none hnet hr, hterminal]
      exact hb.stores.adapters.fits_of_get? hr ha
  | none =>
      cases hj : s.joins.get? n with
      | some m =>
          obtain ⟨e, he, rfl⟩ := hb.stores.joins.only_sites n m hj
          have hfits := hs.joins.fits_of_get? he hj
          have hleft := hfits.left.holds.size_eq (Arena.nodup_storedAt hs.arena.valid _)
          have hright := hfits.right.holds.size_eq m.rightEntries.nodup_keys
          rw [FiniteMap.length_keys] at hright
          have hbalance := hb.stores.joins.fits_of_get? he hj
          rw [← hleft, ← hright] at hbalance
          rw [hs.terminal_join_eq_none hnet he]
          simpa using hbalance
      | none =>
          cases ht : s.terminals.get? n with
          | some m =>
              obtain ⟨r, hr, rfl⟩ := hb.stores.terminals.only_sites n m ht
              have hbalance := hb.stores.terminals.fits_of_get? hr ht
              rw [← (hs.terminals.fits_of_get? hr ht).toList_eq, SlotMap.toList, List.length_map]
                at hbalance
              simpa [SlotMap.size] using hbalance
          | none => exact NodeCounters.balance_zero

/-- The counters of full matches tell how many the terminals hold together. -/
theorem Balanced.activations : s.counters.activations =
    s.counters.deactivations + (net.rules.map fun r => s.leftCount r.terminal).sum := by
  have hsum : (net.rules.map fun r => s.leftCount r.terminal).sum = fullCount net s.arena :=
    congrArg List.sum (List.map_congr_left fun r hr => hs.leftCount_terminal hr hnet)
  rw [hsum, hb.stores.full]

end Counts

/-! ## Calls -/

namespace Session

variable {s : Session}

theorem propagate_calls_le (s : Session) (h : Handle) (out into : List NodeId) :
    s.calls ≤ (s.propagate h out into).1.calls := by
  rw [(propagate_facts_calls s h out into).2]
  split
  · exact le_rfl
  · exact ⟨le_rfl, le_rfl, le_rfl, le_rfl, Nat.le_succ _⟩

theorem refuse_calls_le {α : Type} (s : Session) (err : EngineError) :
    s.calls ≤ (s.refuse (α := α) err).1.calls := ⟨le_rfl, le_rfl, le_rfl, le_rfl, Nat.le_succ _⟩

theorem insertAt_calls_le (s : Session) (h : Handle) (f : Fact) :
    s.calls ≤ (s.insertAt h f).1.calls := by
  have hbranch := insertAt_branch s h f
  generalize s.insertAt h f = o at hbranch ⊢
  have hcounted : ∀ facts, s.calls ≤ (s.inserted facts).calls := fun _ =>
    ⟨Nat.le_succ _, le_rfl, le_rfl, le_rfl, le_rfl⟩
  cases hbranch with
  | taken => exact le_rfl
  | unroutable => exact (hcounted _).trans (refuse_calls_le _ _)
  | routed => exact (hcounted _).trans (propagate_calls_le _ h _ _)

theorem update_calls_le (s : Session) (h : Handle) (f : Fact) :
    s.calls ≤ (s.update h f).1.calls := by
  have hbranch := update_branch s h f
  generalize s.update h f = o at hbranch ⊢
  have hcounted : ∀ plan, s.calls ≤ (s.replaced h f plan).calls := fun _ =>
    ⟨le_rfl, Nat.le_succ _, le_rfl, Nat.le_add_right _ _, le_rfl⟩
  cases hbranch with
  | dead => exact le_rfl
  | unroutable => exact refuse_calls_le s _
  | unreadable => exact refuse_calls_le s _
  | checked => exact (hcounted _).trans (propagate_calls_le _ h _ _)

theorem delete_calls_le (s : Session) (h : Handle) : s.calls ≤ (s.delete h).1.calls := by
  cases hold : s.facts.get? h with
  | none =>
      rw [delete_of_dead hold]
  | some f =>
      have hle :=
        propagate_calls_le s h ((s.network.entriesFor f.factType).filter (s.state.holds · h)) []
      rw [delete_of_live_eq hold]
      simp only
      split
      · exact hle
      · unfold forget
        split
        · exact hle
        · exact hle.trans ⟨le_rfl, le_rfl, Nat.le_succ _, le_rfl, le_rfl⟩

/-- No counter of calls is lower after a call. -/
theorem perform_calls_le (s : Session) (c : Call) : s.calls ≤ (s.perform c).1.calls := by
  cases c with
  | insert f => exact insertAt_calls_le s s.facts.nextHandle f
  | insertAt h f => exact insertAt_calls_le s h f
  | update h f => exact update_calls_le s h f
  | delete h => exact delete_calls_le s h

/-- As many facts are live as were inserted and not deleted. -/
def CountsFacts (calls : CallCounters) (facts : FactStore) : Prop :=
  calls.inserts = calls.deletes + facts.size

theorem countsFacts_insert {net : Network} {facts : FactStore} {calls : CallCounters}
    (hc : CountsFacts calls facts) (h : Handle) (f : Fact) :
    CountsFacts (insertTally net facts calls h f) (insertAnswer net facts h f).1 := by
  unfold insertTally insertAnswer
  cases hi : facts.insert h f with
  | error cause => exact hc
  | ok facts' =>
      have hsize : facts'.size = facts.size + 1 := by
        have hnew := (FactStore.get?_of_insert hi).1
        obtain ⟨rfl, -⟩ := FactStore.eq_of_insert hi
        exact FiniteMap.size_insert_new hnew f
      have hc' : calls.inserts + 1 = calls.deletes + facts'.size := by
        rw [hsize, ← Nat.add_assoc]
        exact congrArg (· + 1) hc
      simp only
      split <;> exact hc'

theorem countsFacts_update {net : Network} {facts : FactStore} {calls : CallCounters}
    (hc : CountsFacts calls facts) (h : Handle) (f : Fact) :
    CountsFacts (updateTally net facts calls h f) (updateAnswer net facts h f).1 := by
  unfold updateTally updateAnswer
  cases hold : facts.get? h with
  | none => exact hc
  | some old =>
      have hsize : (facts.set h f).size = facts.size := FiniteMap.size_insert_of_get? hold f
      simp only
      cases net.entering h f with
      | ok u =>
          show calls.inserts = calls.deletes + (facts.set h f).size
          rw [hsize]
          exact hc
      | error err => exact hc

theorem countsFacts_delete {facts : FactStore} {calls : CallCounters} (hc : CountsFacts calls facts)
    (h : Handle) : CountsFacts (deleteTally facts calls h) (deleteAnswer facts h).1 := by
  unfold deleteTally deleteAnswer
  cases hold : facts.get? h with
  | none => exact hc
  | some f =>
      have hsize : (facts.drop h).size + 1 = facts.size := FiniteMap.size_erase hold
      unfold CountsFacts at hc
      show calls.inserts = calls.deletes + 1 + (facts.drop h).size
      omega

/-- A call keeps the count of facts. -/
theorem Consistent.countsFacts_perform (hs : s.Consistent) (hc : CountsFacts s.calls s.facts)
    (c : Call) : CountsFacts (s.perform c).1.calls (s.perform c).1.facts := by
  -- The number of skipped entries does not matter, and without it the counters are told
  -- by the facts.
  have hcalls : CountsFacts (s.perform c).1.calls.withoutSkips (s.perform c).1.facts := by
    rw [calls_perform hs c, hs.facts_perform c]
    have hc' : CountsFacts s.calls.withoutSkips s.facts := hc
    cases c with
    | insert f => exact countsFacts_insert hc' _ f
    | insertAt h f => exact countsFacts_insert hc' h f
    | update h f => exact countsFacts_update hc' h f
    | delete h => exact countsFacts_delete hc' h
  exact hcalls

/-- A call keeps the balance of the matches, and none of their counters is lower after it. -/
theorem Advances.counts {s' : Session} {events : List ActivationEvent} (hs : s.Consistent)
    (h : s.Advances s' events) :
    (Balanced s.network s.state → Balanced s.network s'.state) ∧ s.state.CountsUp s'.state := by
  obtain ⟨p, p', hout, hsound, hin, hstate, -⟩ := h.changes
  obtain ⟨hbalance, hup⟩ := hout.counts hs.network hs.sound.coherent
  obtain ⟨hbalance', hup'⟩ := hin.counts hs.network hsound.coherent
  rw [← hstate]
  exact ⟨hbalance' ∘ hbalance, hup.trans hup'⟩

/-- No counter of the session is lower in the other. -/
structure CountsUp (s s' : Session) : Prop where
  calls : s.calls ≤ s'.calls
  tuples : s.state.counters ≤ s'.state.counters
  nodes : ∀ n, s.state.nodeCounters n ≤ s'.state.nodeCounters n

theorem CountsUp.trans {s s' s'' : Session} (h : s.CountsUp s') (h' : s'.CountsUp s'') :
    s.CountsUp s'' :=
  ⟨h.calls.trans h'.calls, h.tuples.trans h'.tuples, fun n => (h.nodes n).trans (h'.nodes n)⟩

theorem Consistent.countsUp_perform (hs : s.Consistent) (c : Call) :
    s.CountsUp (s.perform c).1 := by
  have hup := ((perform_spec hs c).1.counts hs).2
  exact ⟨perform_calls_le s c, hup.tuples, hup.nodeCounters_le⟩

/-- **No counter is lower after some calls.** -/
theorem Consistent.countsUp_run (hs : s.Consistent) (calls : List Call) :
    s.CountsUp (s.run calls).1 := by
  induction calls generalizing s with
  | nil => exact ⟨le_rfl, le_rfl, fun _ => le_rfl⟩
  | cons c rest ih => exact (hs.countsUp_perform c).trans (ih (perform_spec hs c).1.consistent)

/-! ## Runs -/

/-- In a fresh session all counters are zero, and so is what they count. -/
theorem balanced_ofNetwork {net : Network} (hnet : net.WellFormed) :
    Balanced net (MatchState.ofNetwork net) := by
  rw [MatchState.ofNetwork_eq]
  have hfull : fullCount net .empty = 0 := List.sum_eq_zero_iff_forall_eq_nat.mpr fun k hk => by
    obtain ⟨r, -, rfl⟩ := List.mem_map.mp hk
    rfl
  refine ⟨⟨?_, ?_, ?_, ?_⟩, rfl⟩
  · exact FiniteMap.covers_foldl_insert (fun _ _ => NodeCounters.balance_zero)
      fun r hr r' hr' => hnet.first_inj hr hr'
  · exact FiniteMap.covers_foldl_insert (fun _ _ => NodeCounters.balance_zero)
      fun e he e' he' => hnet.join_inj he he'
  · exact FiniteMap.covers_foldl_insert (fun _ _ => NodeCounters.balance_zero)
      fun r hr r' hr' => hnet.terminal_inj hr hr'
  · show 0 = 0 + fullCount net .empty
    rw [hfull]

/-- The counters of a session tell what there is after every run. -/
theorem balanced_run {net : Network} (hnet : net.WellFormed) (calls : List Call) :
    let s := ((ofNetwork net).run calls).1
    Balanced s.network s.state ∧ CountsFacts s.calls s.facts := by
  refine (run_induction (P := fun s => s.Consistent ∧ Balanced s.network s.state ∧
    CountsFacts s.calls s.facts) (fun s c hs => ?_) ?_ calls).2
  · obtain ⟨hs, hb, hc⟩ := hs
    have hadvances := (perform_spec hs c).1
    refine ⟨hadvances.consistent, ?_, hs.countsFacts_perform hc c⟩
    rw [hadvances.network]
    exact (hadvances.counts hs).1 hb
  · exact ⟨hnet.consistent_ofNetwork, balanced_ofNetwork hnet, rfl⟩

/-- **After every run the counters tell what there is**: on both sides of every node what was added
and not removed, the tuples that were created and not deleted, the full matches at all terminals
that were activated and not deactivated, and the facts that were inserted and not deleted. **No
further calls bring any counter down.** -/
theorem counters_run {rules : List Rule} {schemas : SchemaRegistry} {config : Config}
    {net : Network} (hbuild : Network.build rules schemas config = .ok net) (calls : List Call) :
    let s := ((ofNetwork net).run calls).1
    (∀ n, (s.state.nodeCounters n).leftAdds =
      (s.state.nodeCounters n).leftRemoves + s.state.leftCount n ∧
      (s.state.nodeCounters n).rightAdds =
        (s.state.nodeCounters n).rightRemoves + s.state.rightCount n) ∧
    s.state.counters.created = s.state.counters.deleted + s.tupleCount ∧
    s.state.counters.activations =
      s.state.counters.deactivations + (net.rules.map fun r => s.state.leftCount r.terminal).sum ∧
    s.calls.inserts = s.calls.deletes + s.factCount ∧
    ∀ more, s.calls ≤ (s.run more).1.calls ∧ s.state.counters ≤ (s.run more).1.state.counters ∧
      ∀ n, s.state.nodeCounters n ≤ (s.run more).1.state.nodeCounters n := by
  intro s
  obtain ⟨hnet, hs, -⟩ := run_ofNetwork (wellFormed_build hbuild) calls
  obtain ⟨hb, hfacts⟩ := balanced_run (wellFormed_build hbuild) calls
  have hactivations := hb.activations hs.network hs.sound.coherent
  rw [hnet] at hactivations
  refine ⟨fun n => ?_, hb.tuples, hactivations, hfacts, fun more => ?_⟩
  · have hbalance := hb.nodeCounters hs.network hs.sound.coherent n
    exact ⟨hbalance.left, hbalance.right⟩
  · have hup := hs.countsUp_run more
    exact ⟨hup.calls, hup.tuples, hup.nodes⟩

/-- The counters of a session with pairs of orders. -/
theorem counters_orders : ∃ net, Network.build [pairRule] orderSchemas .standard = .ok net ∧
    let s := ((ofNetwork net).run orderCalls).1
    s.state.counters.created = s.state.counters.deleted + s.tupleCount ∧
    s.state.counters.activations =
      s.state.counters.deactivations + (net.rules.map fun r => s.state.leftCount r.terminal).sum ∧
    s.calls.inserts = s.calls.deletes + s.factCount := by
  obtain ⟨net, hnet⟩ : ∃ net, Network.build [pairRule] orderSchemas .standard = .ok net := ⟨_, rfl⟩
  obtain ⟨-, htuples, hactivations, hfacts, -⟩ := counters_run hnet orderCalls
  exact ⟨net, hnet, htuples, hactivations, hfacts⟩

end Session

end RuleMatching
