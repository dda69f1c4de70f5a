import RuleMatching.Arena.Thread

set_option autoImplicit false

/-! # Tuples in slots

A `SlotArena` keeps each tuple in a slot, with its newest extension and with its neighbours in two
threads: the extensions of its parent, and the thread that it was linked to last. A tuple leaves
either thread without anybody going through it, and the slot of a tuple that was released is used
again, the one freed last first. A slot counts its uses in a generation, so that the reference of a
released tuple does not reach the tuple that is in its slot later, not before the 32 bits of the
generation start over. -/

namespace RuleMatching

/-- A tuple with the tuples next to it. -/
structure LinkedTuple extends Tuple where
  /-- Its newest extension. -/
  firstChild : Option TupleId
  /-- Its neighbours among the extensions of its parent. -/
  siblings : Neighbours
  /-- Its neighbours in the thread that it was linked to. -/
  fellows : Neighbours

/-- A place for a tuple. The generation is that of the tuple that is in it, or was in it last. -/
structure TupleSlot where
  generation : Nat
  tuple : Option LinkedTuple

/-- The generation after this one. It is counted in 32 bits. -/
def TupleSlot.nextGeneration (slot : TupleSlot) : Nat := (slot.generation + 1) % UInt32.size

/-- The live tuples in their slots. -/
structure SlotArena where
  slots : List TupleSlot
  /-- The slots without tuple, the one freed last first. -/
  free : List Nat
  count : Nat

namespace SlotArena

def empty : SlotArena := ⟨[], [], 0⟩

instance : Inhabited SlotArena := ⟨empty⟩

/-- The tuple of a reference, unless it was released: then the slot is empty or in
another generation. -/
def get? (a : SlotArena) (t : TupleId) : Option LinkedTuple := do
  let slot ← a.slots[t.index]?
  if slot.generation = t.generation then slot.tuple else none

def contains (a : SlotArena) (t : TupleId) : Bool := (a.get? t).isSome

/-- Changes a live tuple; nothing changes if there is no such tuple. -/
def modify (a : SlotArena) (t : Option TupleId) (f : LinkedTuple → LinkedTuple) : SlotArena :=
  match t with
  | some t =>
    { a with slots := a.slots.modify t.index fun slot =>
        if slot.generation = t.generation then { slot with tuple := slot.tuple.map f } else slot }
  | none => a

/-- Changes the neighbours of a live tuple among the extensions of its parent. -/
def modifySiblings (a : SlotArena) (t : Option TupleId) (f : Neighbours → Neighbours) : SlotArena :=
  a.modify t fun tuple => { tuple with siblings := f tuple.siblings }

/-- Changes the neighbours of a live tuple in the thread that it was linked to. -/
def modifyFellows (a : SlotArena) (t : Option TupleId) (f : Neighbours → Neighbours) : SlotArena :=
  a.modify t fun tuple => { tuple with fellows := f tuple.fellows }

/-- Puts a tuple into the slot freed last, in its next generation, or into a new slot. Answers
its reference. -/
def occupy (a : SlotArena) (tuple : LinkedTuple) : TupleId × SlotArena :=
  match a.free with
  | i :: rest =>
    let generation := (a.slots[i]?.map TupleSlot.nextGeneration).getD 0
    (⟨i, generation⟩,
      { slots := a.slots.modify i fun slot => ⟨slot.nextGeneration, some tuple⟩
        free := rest
        count := a.count + 1 })
  | [] =>
    (⟨a.slots.length, 0⟩, { a with slots := a.slots ++ [⟨0, some tuple⟩], count := a.count + 1 })

/-- Takes the tuple out of a slot. -/
def vacate (a : SlotArena) (i : Nat) : SlotArena :=
  { slots := a.slots.modify i fun slot => { slot with tuple := none }
    free := i :: a.free
    count := a.count - 1 }

/-- The size of an extension of the given tuple; of a tuple without live parent it is one. -/
def childSize (a : SlotArena) (parent : Option TupleId) : Nat :=
  match parent.bind a.get? with
  | some p => p.size + 1
  | none => 1

/-- Creates a tuple in front of the extensions of its parent. -/
def alloc (a : SlotArena) (handle : Handle) (parent : Option TupleId) (sink : NodeId)
    (origin : Option NodeId) : TupleId × SlotArena :=
  let older := (parent.bind a.get?).bind LinkedTuple.firstChild
  let tuple : Tuple := ⟨handle, parent, a.childSize parent, sink, origin, none⟩
  let (t, occupied) := a.occupy ⟨tuple, none, ⟨none, older⟩, {}⟩
  (t, (occupied.modifySiblings older fun n => { n with newer := some t }).modify parent fun p =>
    { p with firstChild := some t })

/-- Notes where the sink stores the tuple. -/
def setLocation (a : SlotArena) (t : TupleId) (l : Location) : SlotArena :=
  a.modify (some t) fun tuple => { tuple with location := some l }

/-- Puts a tuple in front of the thread that starts at `newest`. Answers where the
thread starts then. -/
def link (a : SlotArena) (newest : Option TupleId) (t : TupleId) : Option TupleId × SlotArena :=
  (some t, (a.modifyFellows (some t) fun _ => ⟨none, newest⟩).modifyFellows newest fun n =>
    { n with newer := some t })

/-- Takes a live tuple out of its thread: its neighbours become neighbours of each other. Answers
where the thread that starts at `newest` starts then: at the older neighbour of the tuple if it
starts at the tuple. -/
def unlink (a : SlotArena) (newest : Option TupleId) (t : TupleId) : Option TupleId × SlotArena :=
  match a.get? t with
  | none => (newest, a)
  | some tuple =>
    let n := tuple.fellows
    (if n.newer = none ∧ newest = some t then n.older else newest,
      ((a.modifyFellows (some t) fun _ => {}).modifyFellows n.newer fun m =>
        { m with older := n.older }).modifyFellows n.older fun m => { m with newer := n.newer })

/-- Takes a tuple out of the extensions of its parent: its neighbours become neighbours
of each other. -/
def bridge (a : SlotArena) (t : TupleId) (tuple : LinkedTuple) : SlotArena :=
  let n := tuple.siblings
  let bridged := match n.newer with
    | some s => a.modifySiblings (some s) fun m => { m with older := n.older }
    | none =>
      a.modify tuple.parent fun p =>
        if p.firstChild = some t then { p with firstChild := n.older } else p
  bridged.modifySiblings n.older fun m => { m with newer := n.newer }

/-- Takes a live tuple out of the extensions of its parent and out of its slot, and answers it. -/
def release (a : SlotArena) (t : TupleId) : Option LinkedTuple × SlotArena :=
  match a.get? t with
  | none => (none, a)
  | some tuple =>
    let bridged := a.bridge t tuple
    (bridged.slots[t.index]?.bind TupleSlot.tuple, bridged.vacate t.index)

/-- The next older extension of the parent of a tuple. -/
def olderSibling? (a : SlotArena) (t : TupleId) : Option TupleId :=
  (a.get? t).bind fun tuple => tuple.siblings.older

/-- The next older tuple of the thread of a tuple. -/
def olderFellow? (a : SlotArena) (t : TupleId) : Option TupleId :=
  (a.get? t).bind fun tuple => tuple.fellows.older

/-- The tuples from one on, each found from the one before, at most the given number. -/
def follow (next : TupleId → Option TupleId) : Nat → Option TupleId → List TupleId
  | count + 1, some t => t :: follow next count (next t)
  | _, _ => []

/-- The extensions of a tuple, the newest first. -/
def children (a : SlotArena) (t : TupleId) : List TupleId :=
  follow a.olderSibling? (a.count + 1) ((a.get? t).bind LinkedTuple.firstChild)

/-- The tuples of the thread that starts at `newest`. -/
def thread (a : SlotArena) (newest : Option TupleId) : List TupleId :=
  follow a.olderFellow? (a.count + 1) newest

/-- The facts of a tuple and of those that it extends, from the last to the first, at most the
given number. -/
def ancestry (a : SlotArena) : Nat → Option TupleId → List Handle
  | count + 1, some t =>
    match a.get? t with
    | some tuple => tuple.handle :: a.ancestry count tuple.parent
    | none => []
  | _, _ => []

/-- The facts of a tuple in the order of the patterns. There are no more than live tuples. -/
def handles (a : SlotArena) (t : TupleId) : List Handle := (a.ancestry a.count (some t)).reverse

end SlotArena

end RuleMatching
