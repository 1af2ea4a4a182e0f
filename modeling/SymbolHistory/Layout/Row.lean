import SymbolHistory.Layout.Sizing

/-!
# Table rows

Rows as they are stored, with heap indices in place of what these point to.

## Main definitions

* `TableRow` : a kind of row, with its table, its size and its reader.
* `DocumentRow`, `MethodRow`, `MapRow` : the rows of the three tables that symbols consist of.
* `rowsAt` : consecutive rows.
-/

namespace SymbolHistory

open Bytes

/-- A kind of table row. -/
class TableRow (ρ : Type) where
  /-- The table that the rows belong to. -/
  table : Table
  /-- The number of bytes of a row. -/
  size : Sizing → Nat
  /-- Reads row number `rid`, which stands at byte `offset` of the stream. -/
  read : (sizing : Sizing) → (rid : UInt32) → (offset : Nat) → Reader ρ

/-- The stored form of a document. -/
structure DocumentRow where
  /-- The number of the row, from 1. -/
  rid : UInt32
  /-- The token of the row. -/
  token : Token
  /-- Where the row starts in the stream. -/
  offset : Nat
  /-- The blob that spells the name. -/
  name : UInt32
  /-- The GUID of the hash algorithm. -/
  hashAlgorithm : UInt32
  /-- The blob with the hash. -/
  hash : UInt32
  /-- The GUID of the language. -/
  language : UInt32
  deriving DecidableEq, Repr

instance : TableRow DocumentRow where
  table := .document
  size sizing := 2 * sizing.blobBytes + 2 * sizing.guidBytes
  read sizing rid offset := do
    let name ← readIndex sizing.wideBlobs
    let hashAlgorithm ← readIndex sizing.wideGuids
    let hash ← readIndex sizing.wideBlobs
    let language ← readIndex sizing.wideGuids
    return ⟨rid, .ofRow .document rid, offset, name, hashAlgorithm, hash, language⟩

/-- The stored form of the debug information of a method. -/
structure MethodRow where
  /-- The number of the row, from 1. -/
  rid : UInt32
  /-- The token of the row. -/
  token : Token
  /-- Where the row starts in the stream. -/
  offset : Nat
  /-- The document of the method; 0 if it has several or none. -/
  document : UInt32
  /-- The blob with the line table; 0 if there is none. -/
  lineTable : UInt32
  deriving DecidableEq, Repr

instance : TableRow MethodRow where
  table := .methodDebugInformation
  size sizing := sizing.tableBytes .document + sizing.blobBytes
  read sizing rid offset := do
    let document ← readIndex (sizing.isWide .document)
    let lineTable ← readIndex sizing.wideBlobs
    return ⟨rid, .ofRow .methodDebugInformation rid, offset, document, lineTable⟩

/-- A row of the map of an update. -/
structure MapRow where
  /-- The number of the row, from 1. -/
  rid : UInt32
  /-- Where the row starts in the stream. -/
  offset : Nat
  /-- The row that the update adds or replaces. -/
  token : Token
  deriving DecidableEq, Repr

instance : TableRow MapRow where
  table := .encMap
  size _ := 4
  read _ rid offset := do
    return ⟨rid, offset, ⟨← word32⟩⟩

/-- The number of bytes of a row in the log of an update: a token and a function code. -/
def logRowSize : Nat := 8

/-- Reads `count` rows behind the ones in `found`, from row number `rid` and byte `offset` on. -/
def collectRows {ρ : Type} [TableRow ρ] (sizing : Sizing) :
    (count rid offset : Nat) → (found : Array ρ) → Reader (Array ρ)
  | 0, _, _, found => pure found
  | count + 1, rid, offset, found => fun bytes =>
    match TableRow.read sizing (UInt32.ofNat rid) offset bytes with
    | .error e => .error e
    | .ok (row, rest) =>
      collectRows sizing count (rid + 1) (offset + TableRow.size ρ sizing) (found.push row) rest

/-- The `count` rows that stand at byte `offset` of a stream, and the byte behind them. -/
def rowsAt (ρ : Type) [TableRow ρ] (sizing : Sizing) (stream : List UInt8) (offset count : Nat) :
    Except Error (List ρ × Nat) :=
  match collectRows sizing count 1 offset #[] (stream.drop offset) with
  | .ok (rows, _) => .ok (rows.toList, offset + count * TableRow.size ρ sizing)
  | .error e => .error e

end SymbolHistory
