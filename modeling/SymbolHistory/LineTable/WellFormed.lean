import SymbolHistory.LineTable.Basic
import Mathlib.Data.List.Chain

/-!
# Well-formed line tables

What a line table has to be like so that it has a written form. The rules speak about the points as
a list, and not about records, so they say nothing of how a line table is written.

## Main definitions

* `SourceRange.WellFormed` : the ranges that visible points can have.
* `LineTable.Header.WellFormed` : the headers that line tables can have.
* `LineTable.WellFormed` : the line tables that have a written form.
-/

namespace SymbolHistory

/-- A range that a visible point can have. -/
structure SourceRange.WellFormed (range : SourceRange) : Prop where
  /-- The range does not end on a line before its first. -/
  startLine_le_endLine : range.startLine ≤ range.endLine
  /-- Lines are below 2^29. -/
  endLine_lt : range.endLine.toNat < SequencePoint.valueBound
  /-- The first line is not the hidden line. -/
  startLine_ne : range.startLine ≠ SequencePoint.hiddenLine
  /-- The last line is not the hidden line. -/
  endLine_ne : range.endLine ≠ SequencePoint.hiddenLine
  /-- A range on a single line is not empty. -/
  startColumn_lt : range.startLine = range.endLine → range.startColumn < range.endColumn

namespace LineTable

/-- A header that a line table can have. -/
structure Header.WellFormed (header : Header) : Prop where
  /-- The row of the local signature is below 2^29. -/
  localSignature_lt : header.localSignature.toNat < SequencePoint.valueBound
  /-- There is an initial document. -/
  initialDocument_ne : header.initialDocument ≠ 0
  /-- Its row is below 2^29 if the header has it; if not, it can be any row. -/
  initialDocument_lt :
    header.documentInHeader → header.initialDocument.toNat < SequencePoint.valueBound

/-- A point behind another one is in the same document, or in one whose row can be written. -/
def DocumentFollows (first second : SequencePoint) : Prop :=
  second.document = first.document ∨
    second.document ≠ 0 ∧ second.document.toNat < SequencePoint.valueBound

/-- A visible point starts at most 2^28 lines before, and fewer than 2^28 lines behind, the visible
point in front of it. -/
def StartFollows (first second : SourceRange) : Prop :=
  -0x10000000 ≤ (second.startLine.toNat : Int) - first.startLine.toNat ∧
    (second.startLine.toNat : Int) - first.startLine.toNat < 0x10000000

/-- A line table that has a written form. A hidden point has no range at all, so nothing is asked of
its lines and columns. -/
structure WellFormed (table : LineTable) : Prop where
  /-- The header is well-formed. -/
  header : table.toHeader.WellFormed
  /-- Code offsets are below 2^29. -/
  codeOffset_lt : ∀ point ∈ table.points, point.codeOffset.toNat < SequencePoint.valueBound
  /-- Each code offset is larger than the ones before. -/
  ascending : table.points.Pairwise (·.codeOffset < ·.codeOffset)
  /-- The first point is in the initial document. -/
  firstDocument : ∀ point ∈ table.points.head?, point.document = table.initialDocument
  /-- Documents that are changed to have rows that can be written. -/
  documents : table.points.IsChain DocumentFollows
  /-- Visible points have well-formed ranges. -/
  ranges : ∀ point ∈ table.points, ∀ range ∈ point.range, range.WellFormed
  /-- The starts of visible points, hidden ones left out, are not too far from one another. -/
  starts : (table.points.filterMap (·.range)).IsChain StartFollows

end LineTable

end SymbolHistory
