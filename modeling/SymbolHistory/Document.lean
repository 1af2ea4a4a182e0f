import SymbolHistory.Heap.Blob
import SymbolHistory.Heap.Guid
import SymbolHistory.Layout.Row

/-!
# Documents

A document is a source file: its path, a hash of its content and its language.

A path is not stored as text but as a blob: a separator character, then for each part of the path
the place of a blob with the part. So paths share the names of their directories. A separator of 0
joins the parts without anything between them, and place 0 is an empty part.

## Main definitions

* `Document` : a document, with `DocumentRow.resolve` for the stored form.
* `DocumentName.decode` : the path that a name blob spells.
* `DocumentName.encode` : the name blob of a path.
-/

namespace SymbolHistory

open Bytes

/-- A source document. -/
structure Document where
  /-- The number of its row, from 1. -/
  rid : UInt32
  /-- The token of its row. -/
  token : Token
  /-- The whole path, as the compiler gave it. -/
  name : String
  /-- The algorithm of the hash, nil if there is no hash. -/
  hashAlgorithm : Guid
  /-- The hash of the content. -/
  hash : List UInt8
  /-- The language that the document is written in. -/
  language : Guid
  deriving DecidableEq

/-- A C# document without a hash. -/
def Document.ofName (rid : UInt32) (name : String) : Document :=
  ⟨rid, .ofRow .document rid, name, .nil, [], .csharp⟩

namespace DocumentName

/-- The parts of a path, one for each compressed place. -/
def decodeParts (heap : BlobHeap) (places : List UInt8) : Except Error (List String) :=
  match places with
  | [] => .ok []
  | b :: bs =>
    match h : unsigned (b :: bs) with
    | .error e => .error e
    | .ok (place, rest) =>
      have : rest.length < (b :: bs).length := by
        have := consumes_unsigned _ _ _ h
        omega
      if place = 0 then ("" :: ·) <$> decodeParts heap rest
      else do
        let part ← heap.get place
        match String.fromUTF8? ⟨part.toArray⟩ with
        | some text => (text :: ·) <$> decodeParts heap rest
        | none => throw (.malformed (.namePart place))
termination_by places.length
decreasing_by all_goals exact this

/-- What stands between the parts of a path with this separator. -/
def separatorText (separator : UInt8) : String :=
  if separator = 0 then "" else String.singleton (Char.ofNat separator.toNat)

/-- The path that the blob at `index` spells. -/
def decode (heap : BlobHeap) (index : Nat) : Except Error String := do
  match ← heap.get index with
  | [] => return ""
  | separator :: places =>
    if separator < 128 then
      return (separatorText separator).intercalate (← decodeParts heap places)
    else
      throw (.malformed (.nameSeparator separator))

/-- The separator of a path: a slash if it has one, else a backslash if it has one. -/
def separator? (name : List Char) : Option Char :=
  if '/' ∈ name then some '/' else if '\\' ∈ name then some '\\' else none

/-- The bytes of text. -/
def utf8 (text : List Char) : List UInt8 :=
  (String.ofList text).toUTF8.data.toList

/-- Adds the parts of a path, and spells their places out. -/
def encodeParts : BlobHeap.Builder → List (List Char) →
    Except Error (List UInt8 × BlobHeap.Builder)
  | heap, [] => .ok ([], heap)
  | heap, part :: parts => do
    let (place, heap) ← heap.add (utf8 part)
    let form ← encodeUnsigned place.toNat
    let (forms, heap) ← encodeParts heap parts
    return (form ++ forms, heap)

/-- Adds the name blob of a path and says where it is; the empty path is the empty blob. -/
def encode (heap : BlobHeap.Builder) (name : String) : Except Error (UInt32 × BlobHeap.Builder) :=
  if name.isEmpty then .ok (0, heap)
  else
    let text := name.toList
    match separator? text with
    | some separator => do
      let (places, heap) ← encodeParts heap (text.splitOn separator)
      heap.add (UInt8.ofNat separator.toNat :: places)
    | none => do
      let (places, heap) ← encodeParts heap [text]
      heap.add (0 :: places)

end DocumentName

/-- The document of a stored row. -/
def DocumentRow.resolve (row : DocumentRow) (blobs : BlobHeap) (guids : GuidHeap) :
    Except Error Document := do
  let name ← DocumentName.decode blobs row.name.toNat
  let hashAlgorithm ← guids.get row.hashAlgorithm.toNat
  let hash ← blobs.get row.hash.toNat
  let language ← guids.get row.language.toNat
  return ⟨row.rid, row.token, name, hashAlgorithm, hash, language⟩

end SymbolHistory
