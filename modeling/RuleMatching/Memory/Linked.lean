import RuleMatching.Memory.Basic
import RuleMatching.SlotMap.Linked

set_option autoImplicit false

/-! # Memories of linked lists

A `LinkedMemory` is a memory whose lists are slabs. A hashed memory counts its items
over all buckets. -/

namespace RuleMatching

/-- Where a memory keeps an item: its key, if the memory is hashed, and the reference to it. -/
structure LinkedLocation where
  key : Option IndexKey
  entry : SlabRef
deriving DecidableEq, Repr

/-- The location as a memory of linked lists hands it out. -/
def Location.kept (l : Location) : LinkedLocation := ⟨l.key, l.slot.kept⟩

/-- The location with the generation of its slot as a number. -/
def LinkedLocation.counted (l : LinkedLocation) : Location := ⟨l.key, l.entry.counted⟩

inductive LinkedMemory (α : Type) where
  | linear (items : Slab α)
  | hashed (buckets : FiniteMap IndexKey (Slab α)) (count : Nat)

namespace LinkedMemory

variable {α : Type}

/-- The empty memory of the given kind. -/
def ofKind : MemoryKind → LinkedMemory α
  | .linear => linear .empty
  | .hashed => hashed .empty 0

instance : Inhabited (LinkedMemory α) := ⟨ofKind .linear⟩

/-- The number of items, as it was counted. -/
def size : LinkedMemory α → Nat
  | linear items => items.count
  | hashed _ count => count

/-- The items, bucket by bucket. -/
def items : LinkedMemory α → List α
  | linear items => items.toList
  | hashed buckets _ => buckets.values.flatMap Slab.toList

/-- The number of lists that hold an item. -/
def bucketCount : LinkedMemory α → Nat
  | linear items => if items.isEmpty then 0 else 1
  | hashed buckets _ => buckets.size

/-- The items that can join something with the given key: the bucket of the key, or all of a
linear memory. -/
def candidates (m : LinkedMemory α) (key : Option IndexKey) : List α :=
  match m, key with
  | linear items, _ => items.toList
  | hashed buckets _, some k => ((buckets.get? k).map Slab.toList).getD []
  | hashed _ _, none => []

/-- Adds an item. A hashed memory refuses an item without key. -/
def add? (m : LinkedMemory α) (key : Option IndexKey) (item : α) :
    Option (LinkedLocation × LinkedMemory α) :=
  match m, key with
  | linear items, _ =>
    let (entry, items) := items.add item
    some (⟨none, entry⟩, linear items)
  | hashed buckets count, some k =>
    let (entry, bucket) := ((buckets.get? k).getD .empty).add item
    some (⟨some k, entry⟩, hashed (buckets.insert k bucket) (count + 1))
  | hashed _ _, none => none

/-- Removes the item at the location and answers it. A bucket goes when its last item goes. -/
def remove? (m : LinkedMemory α) (l : LinkedLocation) : Option (α × LinkedMemory α) :=
  match m, l.key with
  | linear items, none => (items.remove? l.entry).map fun (item, items) => (item, linear items)
  | hashed buckets count, some k => do
    let bucket ← buckets.get? k
    let (item, rest) ← bucket.remove? l.entry
    return (item, hashed (if rest.isEmpty then buckets.erase k else buckets.insert k rest)
      (count - 1))
  | _, _ => none

end LinkedMemory

end RuleMatching
