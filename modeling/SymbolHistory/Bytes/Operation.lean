import SymbolHistory.Bytes.Cursor

/-!
# Operations of a cursor

A cursor is asked one thing after the other. Each time it has an answer, and the next question finds
it where the last one left it, whether that one failed or not.

## Main definitions

* `Cursor.Operation`, `Cursor.Value` : what a cursor is asked, and what it answers with.
* `Cursor.perform` : the answer to an operation, with the cursor after it.
* `Cursor.trace` : the answers to operations one after the other, each with the cursor after it.
-/

namespace SymbolHistory.Bytes.Cursor

/-- One thing that a cursor is asked. -/
inductive Operation where
  /-- How many bytes there are in all. -/
  | length
  /-- Whether there are no bytes at all. -/
  | isEmpty
  /-- All bytes. -/
  | data
  /-- How many bytes are in front of the cursor. -/
  | position
  /-- Whether there are bytes behind the cursor. -/
  | hasMore
  /-- Moves to a position. -/
  | seek (position : Nat)
  /-- Moves over bytes. -/
  | advance (step : Nat)
  /-- The byte behind the cursor. -/
  | peek
  /-- Reads bytes. -/
  | read (length : Nat)
  /-- Reads a word. -/
  | readWord (order : ByteOrder) (width : Nat)
  /-- Reads a word whose top bit is its sign. -/
  | readSignedWord (order : ByteOrder) (width : Nat)
  /-- Reads a compressed number. -/
  | readUnsigned
  /-- Reads a signed compressed number. -/
  | readSigned
  deriving DecidableEq, Repr

/-- What a cursor answers with, unless an operation fails. -/
inductive Value where
  /-- The cursor was moved, and there is nothing to tell. -/
  | moved
  /-- Yes or no. -/
  | truth (holds : Bool)
  /-- A number. -/
  | number (n : Nat)
  /-- A signed number. -/
  | signed (n : Int)
  /-- A single byte. -/
  | byte (b : UInt8)
  /-- Bytes. -/
  | bytes (bytes : List UInt8)
  deriving DecidableEq, Repr

/-- The answer to an operation, with the cursor after it. -/
def perform (c : Cursor) : Operation → Except Error Value × Cursor
  | .length => (.ok (.number c.data.length), c)
  | .isEmpty => (.ok (.truth c.data.isEmpty), c)
  | .data => (.ok (.bytes c.data), c)
  | .position => (.ok (.number c.position), c)
  | .hasMore => (.ok (.truth c.hasMore), c)
  | .seek position => (c.seek position).map (·.map fun _ => .moved) id
  | .advance step => (c.advance step).map (·.map fun _ => .moved) id
  | .peek => (c.peek.map .byte, c)
  | .read length => (c.read length).map (·.map .bytes) id
  | .readWord order width => (c.readWord order width).map (·.map .number) id
  | .readSignedWord order width => (c.readSignedWord order width).map (·.map .signed) id
  | .readUnsigned => c.readUnsigned.map (·.map .number) id
  | .readSigned => c.readSigned.map (·.map .signed) id

/-- The answers to operations, each with the cursor after it. -/
def trace (c : Cursor) : List Operation → List (Except Error Value × Cursor)
  | [] => []
  | operation :: operations =>
    c.perform operation :: (c.perform operation).2.trace operations

end SymbolHistory.Bytes.Cursor
