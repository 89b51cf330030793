/-
# The working buffer

A doubly linked list of chunks in an array of slots.  A handle is the number
of a slot.  Slot 0 stands before the first element and slot 1 after the last;
neither holds a chunk.  A removed element leaves its slot empty, with its old
links, on a list of free slots, and the slot that was freed last is used
first.

Every operation is defined for every handle.  One that names no slot is a
fault; one that names an empty slot is a fault only where its chunk is asked
for.
-/

import Highlight.Chunk.Basic

namespace Highlight
namespace Buffer

/-- The slot before the first element. -/
def head : Nat := 0

/-- The slot after the last element. -/
def tail : Nat := 1

/-- A place for an element, with the handles of its neighbours. -/
structure Slot where
  value : Option Chunk
  next : Nat
  prev : Nat
  deriving DecidableEq, Repr

/-- What can be wrong with a handle. -/
inductive Fault where
  /-- There is no such slot. -/
  | outOfRange
  /-- The slot holds no chunk. -/
  | dead (handle : Nat)
  deriving DecidableEq, Repr

/-- The wording of a fault. -/
def Fault.message : Fault → String
  | .outOfRange => "list index out of range"
  | .dead handle => "Handle " ++ toString handle ++ " is not a live element"

end Buffer

/-- A linked list of chunks with handles: its slots, the free ones of them,
and the number of elements. -/
structure Buffer where
  slots : Array Buffer.Slot
  free : List Nat
  size : Int
  deriving DecidableEq, Repr

namespace Buffer

/-- The buffer without elements. -/
def empty : Buffer where
  slots := #[⟨none, tail, head⟩, ⟨none, tail, head⟩]
  free := []
  size := 0

/-- The slot of a handle. -/
def slot (b : Buffer) (handle : Nat) : Except Fault Slot :=
  match b.slots[handle]? with
  | some slot => .ok slot
  | none => .error .outOfRange

/-- The handle after a handle. -/
def next (b : Buffer) (handle : Nat) : Except Fault Nat :=
  (b.slot handle).map (·.next)

/-- The handle before a handle. -/
def prev (b : Buffer) (handle : Nat) : Except Fault Nat :=
  (b.slot handle).map (·.prev)

/-- The chunk of a live element. -/
def value (b : Buffer) (handle : Nat) : Except Fault Chunk :=
  match b.slot handle with
  | .error fault => .error fault
  | .ok slot =>
    match slot.value with
    | some chunk => .ok chunk
    | none => .error (.dead handle)

/-- Whether a handle names an element. -/
def isLive (b : Buffer) (handle : Nat) : Bool :=
  (b.slots[handle]?).any (·.value.isSome)

/-- Lets one handle follow another. -/
def setNext (b : Buffer) (handle next : Nat) : Buffer :=
  { b with slots := b.slots.modify handle fun s => { s with next } }

/-- Lets one handle precede another. -/
def setPrev (b : Buffer) (handle prev : Nat) : Buffer :=
  { b with slots := b.slots.modify handle fun s => { s with prev } }

/-- Links two handles to each other. -/
def link (b : Buffer) (left right : Nat) : Buffer :=
  (b.setNext left right).setPrev right left

/-- Puts a slot in the place freed last, or in a new place, and returns its
handle. -/
def place (b : Buffer) (slot : Slot) : Nat × Buffer :=
  match b.free with
  | handle :: free => (handle, { b with slots := b.slots.setIfInBounds handle slot, free })
  | [] => (b.slots.size, { b with slots := b.slots.push slot })

/-- Inserts a chunk after a handle and returns the handle of the new
element. -/
def insertAfter (b : Buffer) (handle : Nat) (chunk : Chunk) : Except Fault (Nat × Buffer) :=
  match b.next handle with
  | .error fault => .error fault
  | .ok following =>
    let (new, b) := b.place ⟨some chunk, following, handle⟩
    let b := (b.setNext handle new).setPrev following new
    .ok (new, { b with size := b.size + 1 })

/-- Empties a slot and puts it on the list of free slots. -/
def release (b : Buffer) (handle : Nat) : Buffer :=
  { b with
    slots := b.slots.modify handle fun s => { s with value := none }
    free := handle :: b.free }

/-- Releases up to a number of elements from a handle on, and returns the
handle after them and how many there were. -/
def releaseRun (b : Buffer) (handle removed : Nat) : Nat → Buffer × Nat × Nat
  | 0 => (b, handle, removed)
  | count + 1 =>
    if handle = tail then (b, handle, removed)
    else
      match b.next handle with
      | .error _ => (b, handle, removed)
      | .ok following => releaseRun (b.release handle) following (removed + 1) count

/-- Removes up to a number of elements after a handle, and returns how many
there were. -/
def removeRun (b : Buffer) (handle : Nat) (count : Int) : Except Fault (Nat × Buffer) :=
  match b.next handle with
  | .error fault => .error fault
  | .ok first =>
    let (b, following, removed) := b.releaseRun first 0 count.toNat
    let b := b.link handle following
    .ok (removed, { b with size := b.size - removed })

/-- The handles from one on by a step, up to a last one that is not listed,
and at most a number of them. -/
def trail (b : Buffer) (step : Slot → Nat) (last : Nat) : Nat → Nat → List Nat
  | 0, _ => []
  | fuel + 1, handle =>
    if handle = last then []
    else
      match b.slots[handle]? with
      | none => []
      | some slot => handle :: trail b step last fuel (step slot)

/-- The handles of the elements from first to last, at most a number of
them. -/
def forward (b : Buffer) (most : Nat) : List Nat :=
  match b.slots[head]? with
  | none => []
  | some slot => b.trail (·.next) tail most slot.next

/-- The handles of the elements from last to first, at most a number of
them. -/
def backward (b : Buffer) (most : Nat) : List Nat :=
  match b.slots[tail]? with
  | none => []
  | some slot => b.trail (·.prev) head most slot.prev

/-- What stands in the slots of the elements from first to last.  No list of
handles without repetition is longer than the array. -/
def values (b : Buffer) : List (Option Chunk) :=
  (b.forward b.slots.size).map fun handle => (b.slots[handle]?).bind (·.value)

/-- The chunks from first to last. -/
def toList (b : Buffer) : List Chunk :=
  b.values.filterMap id

/-- Linking changes no number of slots. -/
@[simp] theorem size_slots_link (b : Buffer) (left right : Nat) :
    (b.link left right).slots.size = b.slots.size := by
  simp [link, setNext, setPrev]

/-- Releasing changes no number of slots. -/
@[simp] theorem size_slots_release (b : Buffer) (handle : Nat) :
    (b.release handle).slots.size = b.slots.size := by
  simp [release]

end Buffer
end Highlight
