import SymbolHistory.LineTable.Basic
import SymbolHistory.Bytes.Compressed

/-!
# Writing line tables

Every number takes as few bytes as it can, and a document record is written only where the document
changes, so what is written is what reading accepts. Values that have no written form are refused.

## Main definitions

* `encodePoint` : the record of one point.
* `encode` : a whole line table.
-/

namespace SymbolHistory.LineTable

open Bytes

/-- The code offset of a point, after a document record if the document changes. -/
def encodePlace (context : Context) (point : SequencePoint) : Except Error (List UInt8) :=
  match context.offset with
  | none =>
    if point.document = context.document then encodeUnsigned point.codeOffset.toNat
    else .error (.malformed .firstPointElsewhere)
  | some previous => do
    let change ←
      if point.document = context.document then pure []
      else if point.document = 0 then throw (.malformed .pointDocumentZero)
      else (0 :: ·) <$> encodeUnsigned point.document.toNat
    if previous < point.codeOffset then
      return change ++ (← encodeUnsigned (point.codeOffset.toNat - previous.toNat))
    else
      throw (.malformed (.codeOffsetOrder point.codeOffset.toNat previous.toNat))

/-- How far the end of a range is from its start, in lines and columns. -/
def encodeSpan (range : SourceRange) : Except Error (List UInt8) := do
  if range.endLine < range.startLine then
    throw (.malformed (.endLineBeforeStart range.endLine.toNat))
  else
    let lines := range.endLine.toNat - range.startLine.toNat
    let linesForm ← encodeUnsigned lines
    if lines = 0 then
      if range.startColumn < range.endColumn then
        return linesForm ++
          (← encodeUnsigned (range.endColumn.toNat - range.startColumn.toNat))
      else
        throw (.malformed .emptyRange)
    else
      return linesForm ++
        (← encodeSigned (range.endColumn.toNat - range.startColumn.toNat : Int))

/-- Where a range starts, relative to the last visible point if there is one. -/
def encodeStart (anchor : Option (UInt32 × UInt16)) (range : SourceRange) :
    Except Error (List UInt8) :=
  match anchor with
  | none => do
    let line ← encodeUnsigned range.startLine.toNat
    return line ++ (← encodeUnsigned range.startColumn.toNat)
  | some (line, column) => do
    let lineStep : Int := range.startLine.toNat - line.toNat
    if -0x80000000 ≤ lineStep ∧ lineStep < 0x80000000 then
      let lineForm ← encodeSigned lineStep
      return lineForm ++ (← encodeSigned (range.startColumn.toNat - column.toNat : Int))
    else
      throw (.malformed .lineDeltaRange)

/-- The range of a point; a hidden one is two zeros. -/
def encodeRange (anchor : Option (UInt32 × UInt16)) : Option SourceRange →
    Except Error (List UInt8)
  | none => .ok [0, 0]
  | some range => do
    let span ← encodeSpan range
    return span ++ (← encodeStart anchor range)

/-- The record of a point. -/
def encodePoint (context : Context) (point : SequencePoint) : Except Error (List UInt8) := do
  let place ← encodePlace context point
  return place ++ (← encodeRange context.anchor point.range)

/-- The records of points, one after the other. -/
def encodePoints (context : Context) : List SequencePoint → Except Error (List UInt8)
  | [] => .ok []
  | point :: points => do
    let record ← encodePoint context point
    return record ++ (← encodePoints (context.after point) points)

/-- What stands in front of the points. -/
def encodeHeader (header : Header) : Except Error (List UInt8) := do
  let signature ← encodeUnsigned header.localSignature.toNat
  if header.documentInHeader then
    return signature ++ (← encodeUnsigned header.initialDocument.toNat)
  else
    return signature

/-- The written form of a line table. -/
def encode (table : LineTable) : Except Error (List UInt8) := do
  let header ← encodeHeader table.toHeader
  return header ++ (← encodePoints (.initial table.initialDocument) table.points)

end SymbolHistory.LineTable
