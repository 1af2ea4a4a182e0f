import SymbolHistory.Bytes.Compressed
import Std.Data.HashMap

/-!
# The blob heap

Byte strings, each behind its length as a compressed number, addressed by the position of the
length. Position 0 holds the empty blob.

## Main definitions

* `BlobHeap` : a heap to read from, with `BlobHeap.ofBytes` and `BlobHeap.get`.
* `BlobHeap.Builder` : a heap that grows, with `BlobHeap.Builder.add`; equal blobs share one place.
-/

namespace SymbolHistory

open Bytes

/-- A heap of byte strings. -/
structure BlobHeap where
  /-- The bytes of the heap. -/
  bytes : Array UInt8

namespace BlobHeap

/-- The heap stored in `bytes`, which must start with the empty blob. -/
def ofBytes (bytes : List UInt8) : Except Error BlobHeap :=
  if bytes.head? = some 0 then .ok ⟨bytes.toArray⟩ else .error (.malformed .blobHeapStart)

/-- The heap that holds the empty blob alone. -/
def empty : BlobHeap :=
  ⟨#[0]⟩

/-- The blob at `index`. A length takes four bytes at most, so these decide about it. -/
def get (heap : BlobHeap) (index : Nat) : Except Error (List UInt8) :=
  match scan (heap.bytes.extract index (index + 4)).toList with
  | .error (e, _) => .error e
  | .ok (length, w) =>
    let start := index + w.length
    if start + length ≤ heap.bytes.size then
      .ok (heap.bytes.extract start (start + length)).toList
    else
      .error .outOfBounds

/-- A size as a 32-bit word. -/
def checkSize (size : Nat) : Except Error UInt32 :=
  if size < UInt32.size then .ok (UInt32.ofNat size) else .error (.malformed (.sizeRange size))

/-- A heap that grows. -/
structure Builder where
  /-- The bytes so far. -/
  bytes : Array UInt8
  /-- Where each blob is that was added. -/
  places : Std.HashMap (List UInt8) UInt32

namespace Builder

/-- A heap to which nothing was added. -/
def new : Builder :=
  ⟨#[0], ∅⟩

/-- Adds a blob, unless it is there already, and says where it is. The empty blob is at 0. -/
def add (heap : Builder) (blob : List UInt8) : Except Error (UInt32 × Builder) :=
  if blob.isEmpty then .ok (0, heap)
  else
    let ⟨bytes, places⟩ := heap
    match places[blob]? with
    | some place => .ok (place, ⟨bytes, places⟩)
    | none => do
      let place ← checkSize bytes.size
      let length ← checkSize blob.length
      let lengthForm ← encodeUnsigned length.toNat
      return (place, ⟨bytes ++ lengthForm ++ blob, places.insert blob place⟩)

/-- The heap as one can read it. -/
def toHeap (heap : Builder) : BlobHeap :=
  ⟨heap.bytes⟩

/-- Before anything is added, there is the empty blob alone. -/
@[simp] theorem toHeap_new : new.toHeap = .empty := rfl

end Builder

end BlobHeap

end SymbolHistory
