import SymbolHistory.Layout.RowCounts

/-!
# Index widths

An index takes two bytes where these are enough and four where they are not: into a heap as the
header of the tables says, into a table by the number of its rows. Metadata of a minimal update
takes four bytes throughout.

## Main definitions

* `Sizing` : what the widths depend on, with `Sizing.ofHeader`.
* `Sizing.isWide`, `Sizing.tableBytes`, `Sizing.blobBytes`, `Sizing.guidBytes` : the widths.
* `readIndex`, `encodeIndex` : an index of either width.
-/

namespace SymbolHistory

open Bytes

/-- What the widths of indices depend on. -/
structure Sizing where
  /-- How many rows the tables have. -/
  rows : RowCounts
  /-- Whether indices into the string heap take four bytes. -/
  wideStrings : Bool
  /-- Whether indices into the GUID heap take four bytes. -/
  wideGuids : Bool
  /-- Whether indices into the blob heap take four bytes. -/
  wideBlobs : Bool
  /-- Whether all indices take four bytes. -/
  allWide : Bool
  deriving DecidableEq

namespace Sizing

/-- The sizing of tables whose header has these heap flags and row counts. -/
def ofHeader (heapFlags : UInt8) (rows : RowCounts) (allWide : Bool) : Sizing where
  rows
  wideStrings := allWide || heapFlags.toNat.testBit 0
  wideGuids := allWide || heapFlags.toNat.testBit 1
  wideBlobs := allWide || heapFlags.toNat.testBit 2
  allWide

/-- Two bytes throughout. -/
def narrow : Sizing :=
  ofHeader 0 .zero false

/-- Whether an index into a table takes four bytes. -/
def isWide (sizing : Sizing) (table : Table) : Bool :=
  sizing.allWide || UInt16.size ≤ (sizing.rows.ofTable table).toNat

/-- The number of bytes of an index. -/
def width (wide : Bool) : Nat :=
  if wide then 4 else 2

/-- No index takes more than four bytes. -/
theorem width_le (wide : Bool) : width wide ≤ 4 := by
  cases wide <;> decide

/-- The number of bytes of an index into a table. -/
def tableBytes (sizing : Sizing) (table : Table) : Nat :=
  width (sizing.isWide table)

/-- The number of bytes of an index into the blob heap. -/
def blobBytes (sizing : Sizing) : Nat :=
  width sizing.wideBlobs

/-- The number of bytes of an index into the GUID heap. -/
def guidBytes (sizing : Sizing) : Nat :=
  width sizing.wideGuids

end Sizing

/-- Reads an index of four or two bytes. -/
def readIndex (wide : Bool) : Reader UInt32 := do
  return UInt32.ofNat (← word (Sizing.width wide))

/-- An index in four or two bytes; what does not fit is cut off. -/
def encodeIndex (wide : Bool) (index : UInt32) : List UInt8 :=
  toLittle (Sizing.width wide) index.toNat

@[simp] theorem length_encodeIndex (wide : Bool) (index : UInt32) :
    (encodeIndex wide index).length = Sizing.width wide := by
  simp [encodeIndex]

/-- An index that fits is read back. -/
theorem readIndex_encodeIndex {wide : Bool} {index : UInt32} (rest : List UInt8)
    (h : wide ∨ index.toNat < UInt16.size) :
    readIndex wide (encodeIndex wide index ++ rest) = .ok (index, rest) := by
  have fits : index.toNat < capacity (Sizing.width wide) := by
    cases wide
    · exact h.resolve_left Bool.false_ne_true
    · exact index.toNat_lt
  unfold readIndex
  rw [bind_eq_ok_iff]
  exact ⟨_, rest, word_append rest fits, by rw [UInt32.ofNat_toNat]; rfl⟩

end SymbolHistory
