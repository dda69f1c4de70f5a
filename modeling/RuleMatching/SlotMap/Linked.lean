import RuleMatching.SlotMap

set_option autoImplicit false

/-! # Doubly linked lists in slots

A `Slab` keeps each item in a slot, together with the slots of the items before and after it. An
item is added at the end and can be removed anywhere, both without going through the list. The
slot of a removed item is used again, the one freed last first, and counts its uses in a
generation. So an old reference does not reach the new item, not before the 32 bits of the
generation start over. -/

namespace RuleMatching

/-- A reference to an item of a slab: its slot and the generation of the slot. -/
structure SlabRef where
  slot : Nat
  generation : UInt32
deriving DecidableEq, Repr, Inhabited

/-- The reference as a slab keeps it, with the generation counted in 32 bits. -/
def SlotRef.kept (r : SlotRef) : SlabRef := ⟨r.index, UInt32.ofNat r.generation⟩

/-- The reference with its generation as a number. -/
def SlabRef.counted (r : SlabRef) : SlotRef := ⟨r.slot, r.generation.toNat⟩

/-- An item with the slots of its neighbours. -/
structure LinkedItem (α : Type) where
  item : α
  previous : Option Nat
  next : Option Nat

/-- A place for an item. The generation is that of the item that is in it, or was in it last. -/
structure Slot (α : Type) where
  generation : UInt32
  entry : Option (LinkedItem α)

/-- Items in slots, strung together in the order of addition. -/
structure Slab (α : Type) where
  slots : List (Slot α)
  /-- The slots without item, the one freed last first. -/
  free : List Nat
  first : Option Nat
  last : Option Nat
  count : Nat

namespace Slab

variable {α : Type}

def empty : Slab α := ⟨[], [], none, none, 0⟩

instance : Inhabited (Slab α) := ⟨empty⟩

def isEmpty (s : Slab α) : Bool := s.count == 0

/-- The item in a slot, with its neighbours. -/
def entryAt? (s : Slab α) (i : Nat) : Option (LinkedItem α) := s.slots[i]?.bind Slot.entry

/-- Changes the neighbours of the item in a slot; nothing changes if there is no such slot or
no item in it. -/
def relink (s : Slab α) (i : Option Nat) (f : LinkedItem α → LinkedItem α) : Slab α :=
  match i with
  | some i =>
    { s with slots := s.slots.modify i fun slot => { slot with entry := slot.entry.map f } }
  | none => s

/-- Puts an item into the slot freed last, in its next generation, or into a new slot.
Answers the slot. -/
def occupy (s : Slab α) (entry : LinkedItem α) : Nat × Slab α :=
  match s.free with
  | i :: rest =>
    (i, { s with
      slots := s.slots.modify i fun slot => ⟨slot.generation + 1, some entry⟩
      free := rest })
  | [] => (s.slots.length, { s with slots := s.slots ++ [⟨0, some entry⟩] })

/-- Adds an item at the end and answers its reference. -/
def add (s : Slab α) (item : α) : SlabRef × Slab α :=
  let (i, occupied) := s.occupy ⟨item, s.last, none⟩
  let linked := occupied.relink s.last fun e => { e with next := some i }
  let generation := (linked.slots[i]?.map Slot.generation).getD 0
  (⟨i, generation⟩, { linked with
    first := if s.last.isNone then some i else s.first
    last := some i
    count := s.count + 1 })

/-- Takes the item out of a slot. -/
def vacate (s : Slab α) (i : Nat) : Slab α :=
  { s with slots := s.slots.modify i fun slot => { slot with entry := none } }

/-- The slab without the item that is in a slot. Its neighbours become neighbours of each other. -/
def unlink (s : Slab α) (i : Nat) (removed : LinkedItem α) : Slab α :=
  let bridged :=
    ((s.vacate i).relink removed.previous fun e => { e with next := removed.next }).relink
    removed.next fun e => { e with previous := removed.previous }
  { bridged with
    first := if removed.previous.isNone then removed.next else s.first
    last := if removed.next.isNone then removed.previous else s.last
    free := i :: s.free
    count := s.count - 1 }

/-- The item of the reference with its neighbours, unless it was removed: then the slot is empty or
in another generation. -/
def linked? (s : Slab α) (r : SlabRef) : Option (LinkedItem α) := do
  let slot ← s.slots[r.slot]?
  if slot.generation = r.generation then slot.entry else none

/-- Removes the item of the reference and answers it. -/
def remove? (s : Slab α) (r : SlabRef) : Option (α × Slab α) :=
  (s.linked? r).map fun removed => (removed.item, s.unlink r.slot removed)

def get? (s : Slab α) (r : SlabRef) : Option α := (s.linked? r).map LinkedItem.item

/-- The items from a slot on, each found as the next of the one before, at most the given number. -/
def walk (s : Slab α) : Nat → Option Nat → List α
  | steps + 1, some i =>
    match s.entryAt? i with
    | some e => e.item :: s.walk steps e.next
    | none => []
  | _, _ => []

/-- The items from the first to the last. There is one in each slot at most. -/
def toList (s : Slab α) : List α := s.walk s.slots.length s.first

/-- How far somebody has gone through a slab: the slot of the next item, and how many items are
still to come. -/
structure Cursor where
  slot : Option Nat
  remaining : Nat

/-- Before the first item. -/
def cursor (s : Slab α) : Cursor := ⟨s.first, s.count⟩

/-- The next item, and the cursor after it. -/
def next? (s : Slab α) (c : Cursor) : Option (α × Cursor) := do
  let i ← c.slot
  let e ← s.entryAt? i
  return (e.item, ⟨e.next, c.remaining - 1⟩)

/-- At least and at most how many items are still to come. -/
def Cursor.sizeHint (c : Cursor) : Nat × Option Nat := (c.remaining, some c.remaining)

end Slab

end RuleMatching
