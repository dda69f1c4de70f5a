set_option autoImplicit false

/-! # Containers with stable references

A `SlotMap` keeps its items in the order of addition and hands out a reference for each. The slot of
a removed item is used again, the one freed last first, under the next generation; a reference to
the removed item therefore finds nothing, even after its slot was reused. -/

namespace RuleMatching

/-- A reference to an item: its slot and how often the slot had been used before. -/
structure SlotRef where
  index : Nat
  generation : Nat
deriving DecidableEq, Repr, Inhabited

/-- The order of references by slot, then by generation. -/
def SlotRef.compare (a b : SlotRef) : Ordering :=
  (Ord.compare a.index b.index).then (Ord.compare a.generation b.generation)

/-- Items under stable references, in the order of addition. -/
structure SlotMap (α : Type) where
  /-- The current generation of every slot used so far. -/
  generations : List Nat
  /-- The slots that hold no item, the one freed last first. -/
  free : List Nat
  /-- The items with their references, in the order of addition. -/
  live : List (SlotRef × α)
deriving Repr

namespace SlotMap

variable {α : Type}

def empty : SlotMap α := ⟨[], [], []⟩

instance : Inhabited (SlotMap α) := ⟨empty⟩

/-- The items in the order of addition. -/
def toList (m : SlotMap α) : List α := m.live.map Prod.snd

def size (m : SlotMap α) : Nat := m.live.length

def isEmpty (m : SlotMap α) : Bool := m.live.isEmpty

/-- The item of a reference, if it has not been removed. -/
def get? (m : SlotMap α) (r : SlotRef) : Option α := m.live.lookup r

def contains (m : SlotMap α) (r : SlotRef) : Bool := (m.get? r).isSome

/-- The reference that the next item gets: the slot freed last in its next generation,
or a new slot. -/
def next (m : SlotMap α) : SlotRef :=
  match m.free with
  | i :: _ => ⟨i, m.generations.getD i 0 + 1⟩
  | [] => ⟨m.generations.length, 0⟩

/-- Adds an item at the end. -/
def add (m : SlotMap α) (item : α) : SlotMap α where
  generations :=
    match m.free with
    | i :: _ => m.generations.set i (m.generations.getD i 0 + 1)
    | [] => m.generations ++ [0]
  free := m.free.tail
  live := m.live ++ [(m.next, item)]

/-- The container without the item of the reference; nothing changes if there is none. -/
def remove (m : SlotMap α) (r : SlotRef) : SlotMap α :=
  if m.contains r then
    { m with free := r.index :: m.free, live := m.live.filter (fun e => e.1 ≠ r) }
  else m

/-- Changes the item of the reference. -/
def modify (m : SlotMap α) (r : SlotRef) (f : α → α) : SlotMap α :=
  { m with live := m.live.map fun e => if e.1 = r then (e.1, f e.2) else e }

end SlotMap

end RuleMatching
