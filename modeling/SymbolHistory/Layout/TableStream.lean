import SymbolHistory.Layout.Row

/-!
# The tables stream

A header names the tables that are present and counts their rows; the tables follow without gaps, by
ascending number. The size of a row is known only for the tables of debug symbols, so a table of
another kind in front of them cannot be skipped. Tables behind them are not looked at.

## Main definitions

* `TableStream` : a tables stream with the places of its tables.
* `TableStream.parse` : reads the header and finds the tables.
* `TableStream.rows` : all rows of a table.
-/

namespace SymbolHistory

open Bytes

/-- The number of bytes of a row of a table with this number, for the tables that can be sized. -/
def rowSize? (sizing : Sizing) (number : Nat) : Option Nat :=
  if number = Table.encLog.number then some logRowSize
  else if number = Table.encMap.number then some (TableRow.size MapRow sizing)
  else if number = Table.document.number then some (TableRow.size DocumentRow sizing)
  else if number = Table.methodDebugInformation.number then some (TableRow.size MethodRow sizing)
  else none

/-- A tables stream. -/
structure TableStream where
  /-- The major version of the format. -/
  majorVersion : UInt8
  /-- The minor version of the format. -/
  minorVersion : UInt8
  /-- The flags for the widths of heap indices. -/
  heapFlags : UInt8
  /-- The tables that are present. -/
  present : UInt64
  /-- The tables that are sorted. -/
  sorted : UInt64
  /-- The widths of indices, and the row counts. -/
  sizing : Sizing
  /-- The whole stream. -/
  stream : List UInt8
  /-- The number of each table and the byte that it starts at. -/
  starts : List (Nat × Nat)

namespace TableStream

/-- Where the tables with these numbers start, the first one at `offset`, in a stream of `length`
bytes. Nothing behind the last table of debug symbols is looked at. -/
def locate (present : UInt64) (sizing : Sizing) (length : Nat) :
    (numbers : List (Fin 64)) → (offset : Nat) → Except Error (List (Nat × Nat))
  | [], _ => .ok []
  | number :: numbers, offset =>
    if !hasBit present number then locate present sizing length numbers offset
    else if Table.methodDebugInformation.number < number then .ok []
    else
      match rowSize? sizing number with
      | none => .error (.unsupportedTable number)
      | some size =>
        let next := offset + size * (sizing.rows.get number).toNat
        if next ≤ length then
          ((number.val, offset) :: ·) <$> locate present sizing length numbers next
        else
          .error .outOfBounds

/-- Reads the word that stands behind the row counts if the flags announce it. -/
def readExtra (heapFlags : UInt8) : Reader Unit :=
  if heapFlags.toNat.testBit 6 then do
    discard word32
  else
    pure ()

/-- Reads the header of a tables stream and finds the tables. All indices take four bytes if
`allWide` is set. -/
def parse (stream : List UInt8) (allWide : Bool) : Except Error TableStream := do
  if (stream.take 24).length < 24 then
    throw .outOfBounds
  else
    let byte (i : Nat) : UInt8 := stream[i]?.getD 0
    let present := UInt64.ofNat (ofLittle ((stream.drop 8).take 8))
    let sorted := UInt64.ofNat (ofLittle ((stream.drop 16).take 8))
    let (rows, behindCounts) ← RowCounts.read present (stream.drop 24)
    let (_, tables) ← readExtra (byte 6) behindCounts
    let sizing := Sizing.ofHeader (byte 6) rows allWide
    let length := stream.length
    let starts ← locate present sizing length (List.finRange 64) (length - tables.length)
    return ⟨byte 4, byte 5, byte 6, present, sorted, sizing, stream, starts⟩

/-- The number of tables that are present. -/
def tableCount (tables : TableStream) : Nat :=
  bitCount tables.present

/-- Whether a table is present. -/
def hasTable (tables : TableStream) (table : Table) : Bool :=
  hasBit tables.present table.number

/-- All rows of a table; an absent one has none. -/
def rows (tables : TableStream) (ρ : Type) [TableRow ρ] : Except Error (List ρ) :=
  match tables.starts.lookup (TableRow.table ρ).number with
  | some start =>
    (·.1) <$> rowsAt ρ tables.sizing tables.stream start
      (tables.sizing.rows.ofTable (TableRow.table ρ)).toNat
  | none => .ok []

end TableStream

end SymbolHistory
