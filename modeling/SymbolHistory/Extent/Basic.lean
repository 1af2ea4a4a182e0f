import SymbolHistory.SequencePoint
import SymbolHistory.Error
import SymbolHistory.LineDeltas

/-!
# Extents

An extent is the range of lines, in one document, from the first to the last line that a method has
visible points on. Extents of one document may overlap, as a method may be written inside another.

## Main definitions

* `Extent` : the lines of a method in one document.
* `Span` : the same without the method, as it is worked out from points.
* `Span.ofPoints` : the spans of a method from its sequence points, one for each document.
-/

namespace SymbolHistory

/-- The lines that one version of a method has in one document. -/
structure Extent where
  /-- The method. -/
  method : MethodId
  /-- The generation that declared this version of the method. -/
  version : Nat
  /-- The first line. -/
  minLine : UInt32
  /-- The last line. -/
  maxLine : UInt32
  deriving DecidableEq, Repr

namespace Extent

/-- Whether a line lies in an extent. -/
def covers (extent : Extent) (line : UInt32) : Bool :=
  extent.minLine ≤ line && line ≤ extent.maxLine

/-- An extent moved by a delta. -/
def shift (extent : Extent) (delta : Int32) : Extent :=
  { extent with
    minLine := shiftLine extent.minLine delta
    maxLine := shiftLine extent.maxLine delta }

theorem covers_iff {extent : Extent} {line : UInt32} :
    extent.covers line ↔ extent.minLine ≤ line ∧ line ≤ extent.maxLine := by
  simp [covers]

end Extent

/-- The lines of a method in one document. -/
structure Span where
  /-- The document. -/
  document : DocumentId
  /-- The first line. -/
  minLine : UInt32
  /-- The last line. -/
  maxLine : UInt32
  deriving DecidableEq, Repr

namespace Span

/-- A span widened to contain a range. -/
def widen (span : Span) (range : SourceRange) : Span :=
  { span with
    minLine := min span.minLine range.startLine
    maxLine := max span.maxLine range.endLine }

/-- Widens the span of a document to contain a range, or adds a span for it at the end. -/
def insert (document : DocumentId) (range : SourceRange) : List Span → List Span
  | [] => [⟨document, range.startLine, range.endLine⟩]
  | span :: spans =>
    if span.document = document then span.widen range :: spans
    else span :: insert document range spans

/-- Adds a visible point to spans, if its document row is known. -/
def insertPoint (documentOf : UInt32 → Option DocumentId) (spans : List Span)
    (point : UInt32 × SourceRange) : Except Error (List Span) :=
  match documentOf point.1 with
  | some document => .ok (insert document point.2 spans)
  | none => .error (.malformed (.unknownDocumentRow point.1))

/-- The spans of a method from its sequence points, by ascending document. `documentOf` says which
documents the rows are that the points name. -/
def ofPoints (documentOf : UInt32 → Option DocumentId) (points : List SequencePoint) :
    Except Error (List Span) := do
  let spans ← (SequencePoint.visibleRanges points).foldlM (insertPoint documentOf) []
  return spans.mergeSort fun a b => a.document.val ≤ b.document.val

end Span

end SymbolHistory
