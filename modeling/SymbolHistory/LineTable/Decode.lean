import SymbolHistory.LineTable.Basic
import SymbolHistory.Bytes.Compressed

/-!
# Reading line tables

A line table has one written form, so everything redundant is refused: numbers that take more bytes
than they need, document records that change nothing, points without text that are not hidden.

## Main definitions

* `readHeader`, `readPoint` : readers of the header and of one record.
* `readPoints` : all points up to the end of the data, or up to the first error.
* `decode` : a whole line table.

## Main results

* `consumes_readPoint` : every record takes at least three bytes.
-/

namespace SymbolHistory.LineTable

open Bytes

/-- Reads what stands in front of the points. The document column of the method's row is `none`
where the column is nil, and the header then has the document. -/
def readHeader (column : Option UInt32) : Reader Header := do
  let signature := UInt32.ofNat (← minimalUnsigned)
  match column with
  | some document =>
    if document = 0 then throw (.malformed .documentColumnZero)
    else return ⟨signature, document, false⟩
  | none =>
    let document ← minimalUnsigned
    if document = 0 then throw (.malformed .initialDocumentZero)
    else return ⟨signature, UInt32.ofNat document, true⟩

/-- Reads the document and the code offset of a point. After the first point offsets are distances,
and a distance of 0 announces another document. -/
def readPlace (context : Context) : Reader (UInt32 × Nat) :=
  match context.offset with
  | none => do
    return (context.document, ← minimalUnsigned)
  | some previous => do
    let step ← minimalUnsigned
    if step = 0 then
      let document ← minimalUnsigned
      if document = 0 then throw (.malformed .documentRecordZero)
      else if document = context.document.toNat then
        throw (.malformed (.documentRecordRepeats document))
      else
        let step ← minimalUnsigned
        if step = 0 then throw (.malformed .documentRecordsAdjacent)
        else return (UInt32.ofNat document, previous.toNat + step)
    else
      return (context.document, previous.toNat + step)

/-- Reads the distance of the last column from the first; it can be negative only if the point goes
over several lines. -/
def readColumns (lines : Nat) : Reader Int :=
  if lines = 0 then do
    return Int.ofNat (← minimalUnsigned)
  else
    minimalSigned

/-- Reads where the text of a point starts, relative to the last visible point if there is one. -/
def readStart : Option (UInt32 × UInt16) → Reader (Int × Int)
  | none => do
    let line ← minimalUnsigned
    let column ← minimalUnsigned
    return (line, column)
  | some (line, column) => do
    let lineStep ← minimalSigned
    let columnStep ← minimalSigned
    return (line.toNat + lineStep, column.toNat + columnStep)

/-- The line of a visible point. -/
def checkLine (line : Int) : Except Error UInt32 :=
  if 0 ≤ line ∧ line < SequencePoint.valueBound ∧ line ≠ SequencePoint.hiddenLine.toNat then
    .ok (UInt32.ofNat line.toNat)
  else
    .error (.malformed (.lineRange line))

/-- The column of a visible point. -/
def checkColumn (column : Int) : Except Error UInt16 :=
  if 0 ≤ column ∧ column < UInt16.size then .ok (UInt16.ofNat column.toNat)
  else .error (.malformed (.columnRange column))

/-- The range from a start and the distances of the end from it. -/
def checkRange (start : Int × Int) (lines : Nat) (columns : Int) : Except Error SourceRange := do
  let startLine ← checkLine start.1
  let endLine ← checkLine (start.1 + lines)
  let startColumn ← checkColumn start.2
  let endColumn ← checkColumn (start.2 + columns)
  return ⟨startLine, startColumn, endLine, endColumn⟩

/-- Reads the range of a point; two zeros stand for a hidden one. -/
def readRange (anchor : Option (UInt32 × UInt16)) : Reader (Option SourceRange) := do
  let lines ← minimalUnsigned
  let columns ← readColumns lines
  if lines = 0 ∧ columns = 0 then
    return none
  else
    let start ← readStart anchor
    match checkRange start lines columns with
    | .ok range => return some range
    | .error e => throw e

/-- Reads the record of a point. -/
def readPoint (context : Context) : Reader SequencePoint := do
  let (document, offset) ← readPlace context
  if offset < SequencePoint.valueBound then
    let range ← readRange context.anchor
    return ⟨UInt32.ofNat offset, document, range⟩
  else
    throw (.malformed (.codeOffsetRange offset))

theorem consumes_readPlace (context : Context) : Consumes 1 (readPlace context) := by
  unfold readPlace
  split
  · exact consumes_minimalUnsigned.bind fun _ => consumes_pure _
  · refine consumes_minimalUnsigned.bind fun step => .ite ?_ (consumes_pure _)
    refine (consumes_minimalUnsigned.bind (n := 0) fun document => ?_).mono (Nat.zero_le _)
    refine .ite (consumes_throw _ _) (.ite (consumes_throw _ _) ?_)
    refine (consumes_minimalUnsigned.bind (n := 0) fun step => ?_).mono (Nat.zero_le _)
    exact .ite (consumes_throw _ _) (consumes_pure _)

theorem consumes_readColumns (lines : Nat) : Consumes 1 (readColumns lines) :=
  .ite (consumes_minimalUnsigned.bind fun _ => consumes_pure _) consumes_minimalSigned

theorem consumes_readStart (anchor : Option (UInt32 × UInt16)) :
    Consumes 0 (readStart anchor) := by
  rcases anchor with _ | ⟨line, column⟩
  · exact (consumes_minimalUnsigned.bind fun _ =>
      consumes_minimalUnsigned.bind fun _ => consumes_pure _).mono (Nat.zero_le _)
  · exact (consumes_minimalSigned.bind fun _ =>
      consumes_minimalSigned.bind fun _ => consumes_pure _).mono (Nat.zero_le _)

theorem consumes_readRange (anchor : Option (UInt32 × UInt16)) :
    Consumes 2 (readRange anchor) := by
  refine consumes_minimalUnsigned.bind (n := 1) fun lines =>
    (consumes_readColumns lines).bind (n := 0) fun columns => .ite (consumes_pure _) ?_
  refine (consumes_readStart anchor).bind (n := 0) fun start => ?_
  split
  · exact consumes_pure _
  · exact consumes_throw _ _

/-- Every record takes at least three bytes. -/
theorem consumes_readPoint (context : Context) : Consumes 3 (readPoint context) :=
  (consumes_readPlace context).bind (n := 2) fun _ =>
    .ite ((consumes_readRange _).bind fun _ => consumes_pure _) (consumes_throw _ _)

/-- All points up to the end of the data, or up to the first error, which then comes along. -/
def readPoints (context : Context) (bytes : List UInt8) : List SequencePoint × Option Error :=
  match bytes with
  | [] => ([], none)
  | b :: bs =>
    match h : readPoint context (b :: bs) with
    | .error e => ([], some e)
    | .ok (point, rest) =>
      have : rest.length < (b :: bs).length := by
        have := consumes_readPoint context _ _ _ h
        omega
      let (points, failure) := readPoints (context.after point) rest
      (point :: points, failure)
termination_by bytes.length
decreasing_by all_goals exact this

/-- Reads a whole line table. -/
def decode (bytes : List UInt8) (column : Option UInt32) : Except Error LineTable :=
  match readHeader column bytes with
  | .error e => .error e
  | .ok (header, rest) =>
    match readPoints (.initial header.initialDocument) rest with
    | (points, none) => .ok { header with points }
    | (_, some e) => .error e

end SymbolHistory.LineTable
