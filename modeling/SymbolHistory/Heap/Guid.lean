import SymbolHistory.Guid
import Std.Data.HashMap

/-!
# The GUID heap

GUIDs one after the other, addressed from 1 up. Index 0 means that there is none.

## Main definitions

* `GuidHeap` : a heap to read from, with `GuidHeap.ofBytes` and `GuidHeap.get`.
* `GuidHeap.Builder` : a heap that grows, with `GuidHeap.Builder.add`; equal GUIDs share one place.
-/

namespace SymbolHistory

/-- A heap of GUIDs. -/
structure GuidHeap where
  /-- The GUIDs, in order. -/
  guids : Array Guid

namespace GuidHeap

/-- The first `count` GUIDs stored in `bytes`, behind the ones in `found`. -/
def collect : (count : Nat) → (bytes : List UInt8) → (found : Array Guid) → Array Guid
  | 0, _, found => found
  | count + 1, bytes, found =>
    collect count (bytes.drop 16) (found.push (.ofBytes (bytes.take 16)))

/-- The heap stored in `bytes`, which must hold whole GUIDs. -/
def ofBytes (bytes : List UInt8) : Except Error GuidHeap :=
  let size := bytes.length
  if size % 16 = 0 then .ok ⟨collect (size / 16) bytes #[]⟩
  else .error (.malformed (.guidHeapSize size))

/-- The heap without GUIDs. -/
def empty : GuidHeap :=
  ⟨#[]⟩

/-- The number of GUIDs. -/
def size (heap : GuidHeap) : Nat :=
  heap.guids.size

/-- The GUID at `index`; at 0 that is the nil GUID. -/
def get (heap : GuidHeap) : Nat → Except Error Guid
  | 0 => .ok .nil
  | index + 1 =>
    match heap.guids[index]? with
    | some guid => .ok guid
    | none => .error .outOfBounds

/-- A heap that grows. -/
structure Builder where
  /-- The GUIDs so far. -/
  guids : Array Guid
  /-- The index of each GUID that was added. -/
  places : Std.HashMap Guid UInt32

namespace Builder

/-- A heap to which nothing was added. -/
def new : Builder :=
  ⟨#[], ∅⟩

/-- Adds a GUID, unless it is there already, and says at which index it is. The nil GUID is at 0. -/
def add (heap : Builder) (guid : Guid) : UInt32 × Builder :=
  if guid = .nil then (0, heap)
  else
    let ⟨guids, places⟩ := heap
    match places[guid]? with
    | some place => (place, ⟨guids, places⟩)
    | none =>
      let place := UInt32.ofNat (guids.size + 1)
      (place, ⟨guids.push guid, places.insert guid place⟩)

/-- The stored form. -/
def toBytes (heap : Builder) : List UInt8 :=
  heap.guids.toList.flatMap Guid.toBytes

end Builder

end GuidHeap

end SymbolHistory
