import SymbolHistory.Bytes.Word

/-!
# The metadata root

The root stands at the start of metadata and says where its streams are: a signature, a version text
and one header for each stream.

## Main definitions

* `StreamName` : the streams that debug metadata can have.
* `StreamHeader` : the name, place and size of a stream.
* `Root` : the root, with `Root.parse` and `Root.stream?`.
-/

namespace SymbolHistory

open Bytes

/-- The least multiple of 4 that is not below `n`. -/
def roundUp4 (n : Nat) : Nat :=
  (n + 3) / 4 * 4

/-- Text whose characters are the code points with the numbers of the bytes. -/
def latinText (bytes : List UInt8) : String :=
  String.ofList (bytes.map fun b => Char.ofNat b.toNat)

/-- The streams that debug metadata can have. -/
inductive StreamName where
  /-- The tables. -/
  | tables
  /-- The tables, in the form that updates may use. -/
  | editTables
  /-- What symbols say about their module. -/
  | pdb
  /-- The heap of byte strings. -/
  | blob
  /-- The heap of GUIDs. -/
  | guid
  /-- The heap of identifiers. -/
  | strings
  /-- The heap of text literals. -/
  | userStrings
  /-- The mark of a minimal update. -/
  | minimalDelta
  deriving DecidableEq, Repr

namespace StreamName

/-- Every stream name. -/
def all : List StreamName :=
  [tables, editTables, pdb, blob, guid, strings, userStrings, minimalDelta]

/-- The spelling of a stream name. -/
def text : StreamName → String
  | tables => "#~"
  | editTables => "#-"
  | pdb => "#Pdb"
  | blob => "#Blob"
  | guid => "#GUID"
  | strings => "#Strings"
  | userStrings => "#US"
  | minimalDelta => "#JTD"

/-- The stream name with a given spelling. -/
def ofText? (text : String) : Option StreamName :=
  all.find? (·.text == text)

/-- A stream name is found by its spelling. -/
theorem ofText?_text (name : StreamName) : ofText? name.text = some name := by
  cases name <;> decide

/-- The number of bytes of the stored spelling: a zero behind it, and then up to a multiple of 4. -/
def fieldSize (name : StreamName) : Nat :=
  roundUp4 (name.text.length + 1)

end StreamName

/-- The name, place and size of a stream. -/
structure StreamHeader where
  /-- The name. -/
  name : StreamName
  /-- Where the stream starts, from the root on. -/
  offset : UInt32
  /-- The number of bytes of the stream. -/
  size : UInt32
  deriving DecidableEq, Repr

namespace StreamHeader

/-- The number of bytes of a stored header. -/
def storedSize (header : StreamHeader) : Nat :=
  8 + header.name.fieldSize

/-- The header at the front of `bytes`. A name ends at a zero byte or after 32 characters. -/
def parse (bytes : List UInt8) : Except Error StreamHeader :=
  if (bytes.take 9).length < 9 then .error .outOfBounds
  else
    let text := latinText (((bytes.drop 8).take 32).takeWhile (· ≠ 0))
    match StreamName.ofText? text with
    | none => .error (.malformed (.streamName text))
    | some name =>
      .ok ⟨name, UInt32.ofNat (ofLittle (bytes.take 4)),
        UInt32.ofNat (ofLittle ((bytes.drop 4).take 4))⟩

end StreamHeader

/-- The root of metadata. -/
structure Root where
  /-- The signature, which is always the same. -/
  signature : UInt32
  /-- The major version of the format. -/
  majorVersion : UInt16
  /-- The minor version of the format. -/
  minorVersion : UInt16
  /-- A field without a meaning. -/
  reserved : UInt32
  /-- The number of bytes that the version text takes. -/
  versionLength : UInt32
  /-- The version text. -/
  version : String
  /-- Flags without a meaning. -/
  flags : UInt16
  /-- The headers of the streams, in the order in which they stand. -/
  headers : List StreamHeader
  deriving DecidableEq, Repr

namespace Root

/-- The signature that metadata starts with. -/
def magic : UInt32 := 0x424A5342

/-- Reads `count` headers that stand at byte `position`, behind the ones in `found`. A stream has to
lie inside the data, and no two have the same name. -/
def parseHeaders (data : List UInt8) (length : Nat) :
    (count position : Nat) → (found : List StreamHeader) → Except Error (List StreamHeader)
  | 0, _, found => .ok found
  | count + 1, position, found => do
    let header ← StreamHeader.parse (data.drop position)
    let stop := header.offset.toNat + header.size.toNat
    if UInt32.size ≤ stop then
      throw (.malformed (.streamRange header.offset.toNat header.size.toNat))
    else if length < stop then
      throw .outOfBounds
    else if found.any (·.name = header.name) then
      throw (.malformed (.streamTwice header.name.text))
    else
      parseHeaders data length count (position + header.storedSize) (found ++ [header])

/-- Reads the root at the start of `data`. -/
def parse (data : List UInt8) : Except Error Root := do
  let field (position width : Nat) : Nat := ofLittle ((data.drop position).take width)
  let length := data.length
  if length < 20 then
    throw .outOfBounds
  else if field 0 4 ≠ magic.toNat then
    throw (.malformed (.rootSignature (field 0 4)))
  else
    let versionEnd := field 12 4 + 16
    if length < versionEnd + 4 then
      throw .outOfBounds
    else
      let count := field (versionEnd + 2) 2
      if count = 0 ∨ StreamName.all.length < count then
        throw (.malformed (.streamCount count))
      else
        let headers ← parseHeaders data length count (versionEnd + 4) []
        return {
          signature := magic
          majorVersion := UInt16.ofNat (field 4 2)
          minorVersion := UInt16.ofNat (field 6 2)
          reserved := UInt32.ofNat (field 8 4)
          versionLength := UInt32.ofNat (field 12 4)
          version := latinText (((data.drop 16).take (field 12 4)).takeWhile (· ≠ 0))
          flags := UInt16.ofNat (field versionEnd 2)
          headers }

/-- The bytes of a stream, if there is one of that name. -/
def stream? (root : Root) (data : List UInt8) (name : StreamName) : Option (List UInt8) :=
  (root.headers.find? (·.name = name)).map fun header =>
    (data.drop header.offset.toNat).take header.size.toNat

end Root

end SymbolHistory
