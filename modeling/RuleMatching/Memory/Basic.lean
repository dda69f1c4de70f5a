import RuleMatching.FiniteMap
import RuleMatching.Memory.IndexKey
import RuleMatching.SlotMap

set_option autoImplicit false

/-! # Memories of a join

A `Memory` holds the items of one side of a join. A linear memory is one list; a hashed memory has a
list, its bucket, for every key under which an item is stored. A bucket goes when its last item
goes. Adding answers the location under which the item can be removed. -/

namespace RuleMatching

/-- Where a memory keeps an item: its key, if the memory is hashed, and its place in the list. -/
structure Location where
  key : Option IndexKey
  slot : SlotRef
deriving DecidableEq, Repr

inductive MemoryKind where
  | linear
  | hashed
deriving DecidableEq, Repr

inductive Memory (α : Type) where
  | linear (items : SlotMap α)
  | hashed (buckets : FiniteMap IndexKey (SlotMap α))

namespace Memory

variable {α : Type}

/-- The empty memory of the given kind. -/
def ofKind : MemoryKind → Memory α
  | .linear => linear .empty
  | .hashed => hashed .empty

instance : Inhabited (Memory α) := ⟨ofKind .linear⟩

def kind : Memory α → MemoryKind
  | linear _ => .linear
  | hashed _ => .hashed

def isIndexed (m : Memory α) : Bool := m.kind == .hashed

/-- The items, bucket by bucket. -/
def items : Memory α → List α
  | linear items => items.toList
  | hashed buckets => buckets.values.flatMap SlotMap.toList

/-- The number of items. -/
def size (m : Memory α) : Nat := m.items.length

def isEmpty (m : Memory α) : Bool := m.size == 0

/-- The number of lists that hold an item. -/
def bucketCount : Memory α → Nat
  | linear items => if items.isEmpty then 0 else 1
  | hashed buckets => buckets.size

/-- The items that can join something with the given key, oldest first: the bucket of the key, or
all of a linear memory. -/
def candidates (m : Memory α) (key : Option IndexKey) : List α :=
  match m, key with
  | linear items, _ => items.toList
  | hashed buckets, some k => ((buckets.get? k).map SlotMap.toList).getD []
  | hashed _, none => []

/-- Adds an item. A hashed memory refuses an item without key. -/
def add? (m : Memory α) (key : Option IndexKey) (item : α) : Option (Location × Memory α) :=
  match m, key with
  | linear items, _ => some (⟨none, items.next⟩, linear (items.add item))
  | hashed buckets, some k =>
    let bucket := (buckets.get? k).getD .empty
    some (⟨some k, bucket.next⟩, hashed (buckets.insert k (bucket.add item)))
  | hashed _, none => none

/-- Removes the item at the location and answers it. -/
def remove? (m : Memory α) (l : Location) : Option (α × Memory α) :=
  match m, l.key with
  | linear items, none => (items.get? l.slot).map fun item => (item, linear (items.remove l.slot))
  | hashed buckets, some k => do
    let bucket ← buckets.get? k
    let item ← bucket.get? l.slot
    let rest := bucket.remove l.slot
    return (item, hashed (if rest.isEmpty then buckets.erase k else buckets.insert k rest))
  | _, _ => none

end Memory

end RuleMatching
