import SymbolHistory.Identity

/-!
# What can go wrong

Errors are causes: one constructor for each thing that input or a caller can get wrong, with the
values that its message shows. Errors come up only while data is taken in. A question about a
session never fails, it has an empty answer.

## Main definitions

* `Defect` : what is wrong with bytes that break the format, or with values that have no form in it.
* `Conflict` : how an update would give two things one identity.
* `Error` : every error of the library, with `Error.message` and `Error.blamesInput`.
-/

namespace SymbolHistory

/-- What is wrong with bytes that break the format, or with a value that has no form in it. -/
inductive Defect where
  /-- No compressed number starts with this byte. -/
  | compressedLead (lead : UInt8)
  /-- The number is too large to be compressed. -/
  | unsignedTooLarge (value : Nat)
  /-- The number is too far from zero to be compressed. -/
  | signedTooLarge (value : Int)
  /-- The number is written in more bytes than it needs. -/
  | unsignedNotMinimal (value : Nat)
  /-- The signed number is written in more bytes than it needs. -/
  | signedNotMinimal (value : Int)
  /-- A document column that is said to be present holds row 0. -/
  | documentColumnZero
  /-- The header of a line table names document row 0. -/
  | initialDocumentZero
  /-- A document record names row 0. -/
  | documentRecordZero
  /-- A document record names the document that is current already. -/
  | documentRecordRepeats (row : Nat)
  /-- Two document records follow one another. -/
  | documentRecordsAdjacent
  /-- An offset into the method's code is too large. -/
  | codeOffsetRange (offset : Nat)
  /-- A line lies outside of what a visible point may have. -/
  | lineRange (line : Int)
  /-- A column does not fit into 16 bits. -/
  | columnRange (column : Int)
  /-- The first point is not in the initial document. -/
  | firstPointElsewhere
  /-- A point after the first is in document row 0. -/
  | pointDocumentZero
  /-- The offset of a point is not larger than the one before. -/
  | codeOffsetOrder (offset previous : Nat)
  /-- A point ends on a line before its first. -/
  | endLineBeforeStart (line : Nat)
  /-- A point on a single line does not end after it starts. -/
  | emptyRange
  /-- The distance of two start lines does not fit into 32 bits. -/
  | lineDeltaRange
  /-- The metadata does not start with its signature. -/
  | rootSignature (found : Nat)
  /-- The number of streams is zero or larger than the number of stream names. -/
  | streamCount (count : Nat)
  /-- No stream of debug metadata has this name. -/
  | streamName (name : String)
  /-- The end of a stream does not fit into 32 bits. -/
  | streamRange (offset size : Nat)
  /-- A stream name occurs twice. -/
  | streamTwice (name : String)
  /-- There is no tables stream. -/
  | noTables
  /-- The blob heap does not start with the empty blob. -/
  | blobHeapStart
  /-- The size of the GUID heap is no multiple of 16. -/
  | guidHeapSize (size : Nat)
  /-- The entry point is not a method. -/
  | entryPoint (token : Token)
  /-- The separator of a document name is not ASCII. -/
  | nameSeparator (byte : UInt8)
  /-- A part of a document name is not UTF-8. -/
  | namePart (index : Nat)
  /-- A size or count does not fit into 32 bits. -/
  | sizeRange (value : Nat)
  /-- The map of an update covers more or fewer method rows than the update has. -/
  | encMapCount (named generation rows : Nat)
  /-- The map of an update names method row 0. -/
  | encMapRowZero
  /-- A method row has no method. -/
  | rowWithoutMethod (row : UInt32)
  /-- A point lies in a document row that is not there. -/
  | unknownDocumentRow (row : UInt32)
  /-- A method refers to a row that is not there. -/
  | missingMethodRow (method : MethodId) (row : UInt32)
  deriving DecidableEq, Repr

namespace Defect

/-- The message of a defect. -/
def message : Defect → String
  | compressedLead lead => s!"Invalid compressed uint - {lead.toNat}"
  | unsignedTooLarge value =>
    "Value 0x" ++ Text.hexDigits value ++ " cannot be encoded as a compressed uint"
  | signedTooLarge value => s!"Value {value} cannot be encoded as a compressed int"
  | unsignedNotMinimal value => "Non-minimal compressed uint 0x" ++ Text.hexDigits value
  | signedNotMinimal value => s!"Non-minimal compressed int {value}"
  | documentColumnZero => "Document column references row 0"
  | initialDocumentZero => "Initial document references row 0"
  | documentRecordZero => "Document record references row 0"
  | documentRecordRepeats row => s!"Document record re-selects the current document {row}"
  | documentRecordsAdjacent => "Document record follows a document record"
  | codeOffsetRange offset => s!"IL offset out of range - {offset}"
  | lineRange line => s!"Line number out of range - {line}"
  | columnRange column => s!"Column out of range - {column}"
  | firstPointElsewhere => "First sequence point must belong to the initial document"
  | pointDocumentZero => "Sequence point references row 0"
  | codeOffsetOrder offset previous =>
    s!"IL offsets must be strictly increasing - {offset} after {previous}"
  | endLineBeforeStart line => s!"End line {line} before start line"
  | emptyRange => "Single-line sequence point needs a positive width"
  | lineDeltaRange => "Line delta out of range"
  | rootSignature found =>
    "Metadata root signature does not match - 0x" ++ Text.hexPadded 8 found
  | streamCount count => s!"Invalid stream count - {count}"
  | streamName name => "Invalid stream header name - " ++ name
  | streamRange offset size =>
    s!"Stream offset and size cause integer overflow - {offset} + {size}"
  | streamTwice name => "Duplicate stream - " ++ name
  | noTables => "Metadata has no tables stream"
  | blobHeapStart => "Invalid memory for #Blob heap"
  | guidHeapSize size => s!"Size of #GUID heap is not a multiple of 16 - {size}"
  | entryPoint token => "#Pdb entry point is not a MethodDef token - " ++ token.text
  | nameSeparator byte => s!"Document name separator is not ASCII - {byte.toNat}"
  | namePart index => s!"Document name part {index} is not valid UTF-8"
  | sizeRange value => s!"Value {value} exceeds u32::MAX"
  | encMapCount named generation rows =>
    s!"EncMap names {named} MethodDebugInformation rows, generation {generation} has {rows}"
  | encMapRowZero => "EncMap references MethodDebugInformation row 0"
  | rowWithoutMethod row => s!"MethodDebugInformation row {row.toNat} has no method"
  | unknownDocumentRow row => s!"Sequence point references unknown document row {row.toNat}"
  | missingMethodRow method row =>
    method.text ++ s!" points to missing MethodDebugInformation row {row.toNat}"

end Defect

/-- How an update would give two things one identity. -/
inductive Conflict where
  /-- One generation declares a document path twice. -/
  | documentTwice (name : String) (generation : Nat)
  /-- One generation replaces a method twice. -/
  | methodTwice (method : MethodId) (generation : Nat)
  /-- Line deltas come along with the first generation, which has nothing to move. -/
  | deltasWithBaseline
  deriving DecidableEq, Repr

namespace Conflict

/-- The message of a conflict. -/
def message : Conflict → String
  | documentTwice name generation =>
    "document '" ++ name ++ s!"' is declared twice in generation {generation}"
  | methodTwice method generation =>
    method.text ++ s!" is redefined twice in generation {generation}"
  | deltasWithBaseline => "line deltas cannot be applied along with the baseline"

end Conflict

/-- Every error of the library. -/
inductive Error where
  /-- The data ends before what has to be read. -/
  | outOfBounds
  /-- The data breaks the format, or a value has no form in it. -/
  | malformed (defect : Defect)
  /-- The metadata has a table whose rows cannot be sized. -/
  | unsupportedTable (number : Nat)
  /-- An update would give two things one identity. -/
  | identityConflict (conflict : Conflict)
  /-- Line deltas for single points are not as many as the method's points. -/
  | deltaCount (method : MethodId) (expected actual : Nat)
  /-- Line deltas move a point off the valid lines. -/
  | deltaRange (method : MethodId) (line : Int)
  /-- Line deltas name a method without debug information. -/
  | unknownMethod (method : MethodId)
  /-- A generation has not been applied. -/
  | unknownGeneration (number : Nat)
  deriving DecidableEq, Repr

namespace Error

/-- The message of an error; data that ends early has none. -/
def message : Error → Option String
  | outOfBounds => none
  | malformed defect => some defect.message
  | unsupportedTable number =>
    some ("This metadata layout is not supported - metadata table 0x" ++
      Text.hexPadded 2 number ++ " in a Portable PDB")
  | identityConflict conflict => some ("Identity conflict - " ++ conflict.message)
  | deltaCount method expected actual =>
    some ("Line deltas for " ++ method.text ++
      s!" have {actual} entries, method has {expected} sequence points")
  | deltaRange method line =>
    some ("Line deltas for " ++ method.text ++ s!" move a sequence point to line {line}")
  | unknownMethod method =>
    some ("Method " ++ method.text ++ " has no debug information in this session")
  | unknownGeneration number => some s!"Generation {number} does not exist"

/-- Whether an error is the fault of the data, and not of how the session is used. -/
def blamesInput : Error → Bool
  | outOfBounds | malformed _ | unsupportedTable _ | identityConflict _ => true
  | deltaCount .. | deltaRange .. | unknownMethod _ | unknownGeneration _ => false

end Error

end SymbolHistory
