import SymbolHistory.Bytes.Word

/-!
# Row counts

How many rows each of the 64 possible tables has. In the stored form a 64-bit mask says which tables
are present, and only these have a count.

## Main definitions

* `hasBit` : the bits of a mask.
* `RowCounts` : one count for each table number.
* `RowCounts.read`, `RowCounts.encode` : the counts of the tables in a mask.
-/

namespace SymbolHistory

open Bytes

/-- Whether bit `i` of a mask is set. -/
def hasBit (mask : UInt64) (i : Nat) : Bool :=
  mask.toNat.testBit i

/-- The number of bits of a mask that are set. -/
def bitCount (mask : UInt64) : Nat :=
  (List.range 64).countP (hasBit mask)

/-- How many rows each table has, by table number. -/
abbrev RowCounts := Vector UInt32 64

namespace RowCounts

/-- No table has rows. -/
def zero : RowCounts :=
  Vector.replicate 64 0

/-- The number of rows of a table. -/
def ofTable (counts : RowCounts) (table : Table) : UInt32 :=
  counts.get ⟨table.number, table.number_lt⟩

/-- Reads the count of one table, if the mask has it. -/
def readOne (mask : UInt64) (counts : RowCounts) (number : Fin 64) : Reader RowCounts :=
  if hasBit mask number then do
    return counts.set number (← word32)
  else
    return counts

/-- Reads the counts of the tables in a mask; all others have no rows. -/
def read (mask : UInt64) : Reader RowCounts :=
  (List.finRange 64).foldlM (readOne mask) zero

/-- The stored counts of the tables in a mask. -/
def encode (mask : UInt64) (counts : RowCounts) : List UInt8 :=
  (List.finRange 64).flatMap fun (number : Fin 64) =>
    if hasBit mask number then toLittle 4 (counts.get number).toNat else []

end RowCounts

end SymbolHistory
