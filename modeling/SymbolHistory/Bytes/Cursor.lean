import SymbolHistory.Bytes.Compressed

/-!
# Cursors

A cursor is a place in a list of bytes. Every operation answers with a value or an error, and with
the cursor after it. Moves and reads of fixed size leave the cursor where it is when they fail; the
reads of compressed numbers go byte by byte, so a failed one leaves the cursor behind the bytes that
it has looked at.

## Main definitions

* `Cursor` : bytes and a position in them.
* `Cursor.seek`, `Cursor.advance` : moves.
* `Cursor.peek`, `Cursor.read`, `Cursor.readWord`, `Cursor.readSignedWord`,
  `Cursor.readUnsigned`, `Cursor.readSigned` : reads.
-/

namespace SymbolHistory.Bytes

/-- Which byte of a word comes first. -/
inductive ByteOrder where
  /-- The least significant byte. -/
  | little
  /-- The most significant byte. -/
  | big
  deriving DecidableEq, Repr

/-- The number that bytes stand for in a given order. -/
def ByteOrder.decode : ByteOrder → List UInt8 → Nat
  | .little, bytes => ofLittle bytes
  | .big, bytes => ofBig bytes

/-- A place in a list of bytes. -/
structure Cursor where
  /-- All bytes. -/
  data : List UInt8
  /-- The number of bytes in front of the cursor. -/
  position : Nat
  deriving DecidableEq, Repr

namespace Cursor

/-- The cursor in front of the first byte. -/
def start (data : List UInt8) : Cursor :=
  ⟨data, 0⟩

/-- The bytes behind the cursor. -/
def rest (c : Cursor) : List UInt8 :=
  c.data.drop c.position

/-- Whether there are bytes behind the cursor. -/
def hasMore (c : Cursor) : Bool :=
  c.position < c.data.length

/-- Moves to a position in front of a byte; the end of the data is none. -/
def seek (c : Cursor) (position : Nat) : Except Error Unit × Cursor :=
  if position < c.data.length then (.ok (), { c with position }) else (.error .outOfBounds, c)

/-- Moves over `step` bytes, up to the end of the data at most. -/
def advance (c : Cursor) (step : Nat) : Except Error Unit × Cursor :=
  if c.position + step ≤ c.data.length then
    (.ok (), { c with position := c.position + step })
  else
    (.error .outOfBounds, c)

/-- The byte behind the cursor. -/
def peek (c : Cursor) : Except Error UInt8 :=
  match c.rest with
  | [] => .error .outOfBounds
  | b :: _ => .ok b

/-- Reads `length` bytes. -/
def read (c : Cursor) (length : Nat) : Except Error (List UInt8) × Cursor :=
  match c.advance length with
  | (.ok (), next) => (.ok (c.rest.take length), next)
  | (.error e, next) => (.error e, next)

/-- Reads a word of `width` bytes. -/
def readWord (c : Cursor) (order : ByteOrder) (width : Nat) : Except Error Nat × Cursor :=
  match c.read width with
  | (.ok bytes, next) => (.ok (order.decode bytes), next)
  | (.error e, next) => (.error e, next)

/-- Reads a word of `width` bytes whose top bit is its sign. -/
def readSignedWord (c : Cursor) (order : ByteOrder) (width : Nat) : Except Error Int × Cursor :=
  match c.readWord order width with
  | (.ok n, next) => (.ok (Int.bmod n (capacity width)), next)
  | (.error e, next) => (.error e, next)

/-- Reads a compressed number of any width. -/
def readUnsigned (c : Cursor) : Except Error Nat × Cursor :=
  match scan c.rest with
  | .ok (n, w) => (.ok n, { c with position := c.position + w.length })
  | .error (e, looked) => (.error e, { c with position := c.position + looked })

/-- Reads a signed compressed number of any width. -/
def readSigned (c : Cursor) : Except Error Int × Cursor :=
  match scan c.rest with
  | .ok (n, w) => (.ok (w.unrotate n), { c with position := c.position + w.length })
  | .error (e, looked) => (.error e, { c with position := c.position + looked })

end Cursor

end SymbolHistory.Bytes
