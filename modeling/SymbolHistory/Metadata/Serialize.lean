import SymbolHistory.Metadata.Basic
import SymbolHistory.Layout.Root

/-!
# Writing debug metadata

The streams are the module, if there is one, the tables, two heaps that hold nothing, the GUIDs and
the blobs. Every blob and GUID is written once, and indices take four bytes only where two are not
enough. An update gets a log with one entry for each entry of its map.

## Main definitions

* `Metadata.Heaps` : the heaps while they fill.
* `Metadata.encodeTables` : the tables stream.
* `Metadata.serialize` : the whole metadata.
-/

namespace SymbolHistory.Metadata

open Bytes

/-- The heaps while they fill. -/
structure Heaps where
  /-- The blobs so far. -/
  blobs : BlobHeap.Builder
  /-- The GUIDs so far. -/
  guids : GuidHeap.Builder

/-- The heap indices of a document. -/
structure DocumentCells where
  /-- The blob that spells the name. -/
  name : UInt32
  /-- The GUID of the hash algorithm. -/
  hashAlgorithm : UInt32
  /-- The blob with the hash. -/
  hash : UInt32
  /-- The GUID of the language. -/
  language : UInt32

/-- The columns of a method. -/
structure MethodCells where
  /-- The document column. -/
  document : UInt32
  /-- The blob with the line table. -/
  lineTable : UInt32

/-- Adds what a document holds to the heaps, behind the documents in `done`. -/
def addDocument (state : Heaps × Array DocumentCells) (document : Document) :
    Except Error (Heaps × Array DocumentCells) := do
  let (⟨blobs, guids⟩, done) := state
  let (name, blobs) ← DocumentName.encode blobs document.name
  let (hashAlgorithm, guids) := guids.add document.hashAlgorithm
  let (hash, blobs) ← blobs.add document.hash
  let (language, guids) := guids.add document.language
  return (⟨blobs, guids⟩, done.push ⟨name, hashAlgorithm, hash, language⟩)

/-- Adds the line table of a method to the heap, behind the methods in `done`. -/
def addMethod (state : BlobHeap.Builder × Array MethodCells) (method : MethodDebug) :
    Except Error (BlobHeap.Builder × Array MethodCells) := do
  let (blobs, done) := state
  match method.lineTable with
  | some stored =>
    let (lineTable, blobs) ← blobs.add stored
    return (blobs, done.push ⟨method.document, lineTable⟩)
  | none => return (blobs, done.push ⟨method.document, 0⟩)

/-- Zeros behind `bytes`, up to a multiple of 4. -/
def pad (bytes : List UInt8) : List UInt8 :=
  let size := bytes.length
  bytes ++ List.replicate (roundUp4 size - size) 0

/-- The tables that are written, with their row counts: the log and the map of an update, documents
and methods, each only if it has rows. -/
def presentTables (encMap documents methods : Nat) : List (Table × Nat) :=
  [(.encLog, encMap), (.encMap, encMap), (.document, documents),
    (.methodDebugInformation, methods)].filter (·.2 ≠ 0)

/-- The tables stream. -/
def encodeTables (encMap : List Token) (documents : Array DocumentCells)
    (methods : Array MethodCells) (heaps : Heaps) : Except Error (List UInt8) := do
  let wideBlobs : Bool := UInt16.size ≤ heaps.blobs.bytes.size
  let wideGuids : Bool := UInt16.size ≤ heaps.guids.guids.size
  let wideDocuments : Bool := UInt16.size ≤ documents.size
  let tables := presentTables encMap.length documents.size methods.size
  let counts ← tables.mapM fun (_, rows) => BlobHeap.checkSize rows
  let heapFlags := (if wideGuids then 2 else 0) + if wideBlobs then 4 else 0
  let present := tables.foldl (fun mask (table, _) => mask ||| 1 <<< table.number) 0
  let header := toLittle 4 0 ++ [2, 0, UInt8.ofNat heapFlags, 1] ++ toLittle 8 present ++
    toLittle 8 0 ++ counts.flatMap fun count => toLittle 4 count.toNat
  let log := encMap.flatMap fun token => toLittle 4 token.value.toNat ++ toLittle 4 0
  let map := encMap.flatMap fun token => toLittle 4 token.value.toNat
  let documentRows := documents.toList.flatMap fun row =>
    encodeIndex wideBlobs row.name ++ encodeIndex wideGuids row.hashAlgorithm ++
      encodeIndex wideBlobs row.hash ++ encodeIndex wideGuids row.language
  let methodRows := methods.toList.flatMap fun row =>
    encodeIndex wideDocuments row.document ++ encodeIndex wideBlobs row.lineTable
  return pad (header ++ log ++ map ++ documentRows ++ methodRows)

/-- The version text. -/
def version : List UInt8 :=
  "PDB v1.0".toUTF8.data.toList

/-- The stored headers of streams of which the first starts at byte `offset`. -/
def encodeHeaders : (offset : Nat) → List (StreamName × List UInt8) → Except Error (List UInt8)
  | _, [] => .ok []
  | offset, (name, stream) :: streams => do
    let start ← BlobHeap.checkSize offset
    let size ← BlobHeap.checkSize stream.length
    let text := name.text.toUTF8.data.toList
    let field := text ++ List.replicate (name.fieldSize - text.length) 0
    let headers ← encodeHeaders (offset + stream.length) streams
    return toLittle 4 start.toNat ++ toLittle 4 size.toNat ++ field ++ headers

/-- Metadata that consists of these streams. -/
def encodeRoot (streams : List (StreamName × List UInt8)) : Except Error (List UInt8) := do
  let versionLength := roundUp4 (version.length + 1)
  let start := toLittle 4 Root.magic.toNat ++ toLittle 2 1 ++ toLittle 2 1 ++ toLittle 4 0 ++
    toLittle 4 versionLength ++ version ++
    List.replicate (versionLength - version.length) 0 ++ toLittle 2 0 ++
    toLittle 2 streams.length
  let headersSize := streams.foldl (fun size (name, _) => size + 8 + name.fieldSize) 0
  let headers ← encodeHeaders (start.length + headersSize) streams
  return start ++ headers ++ streams.flatMap (·.2)

/-- The stored form of debug metadata. -/
def serialize (metadata : Metadata) : Except Error (List UInt8) := do
  let (⟨blobs, guids⟩, documents) ← metadata.documents.toList.foldlM addDocument (⟨.new, .new⟩, #[])
  let (blobs, methods) ← metadata.methods.toList.foldlM addMethod (blobs, #[])
  let tables ← encodeTables metadata.encMap documents methods ⟨blobs, guids⟩
  let module := match metadata.module with
    | some info => [(.pdb, info.encode)]
    | none => []
  encodeRoot (module ++ [(.tables, tables), (.strings, [0, 0, 0, 0]), (.userStrings, [0, 0, 0, 0]),
    (.guid, guids.toBytes), (.blob, pad blobs.bytes.toList)])

end SymbolHistory.Metadata
