import SymbolHistory.Identity

/-!
# Sequence points

A sequence point ties an offset in the code of a method to a range of text in one document. A hidden
point marks code that no text belongs to: it has no range, and where a line has to be shown for it,
that line is `0xFEEFEE`.

## Main definitions

* `SourceRange` : where a piece of text starts and ends.
* `SequencePoint` : an offset, a document row and, unless hidden, a range.
* `SequencePoint.visibleRanges` : the ranges of the visible points, with their document rows.
-/

namespace SymbolHistory

/-- A piece of text from one line and column up to another. -/
structure SourceRange where
  /-- The first line. -/
  startLine : UInt32
  /-- The column in front of the first character. -/
  startColumn : UInt16
  /-- The last line. -/
  endLine : UInt32
  /-- The column behind the last character. -/
  endColumn : UInt16
  deriving DecidableEq, Repr

namespace SourceRange

/-- Whether a line lies between the first and the last line of a range, ends included. -/
def covers (range : SourceRange) (line : UInt32) : Bool :=
  range.startLine ≤ line && line ≤ range.endLine

end SourceRange

/-- A place in the code of a method, with the text that it comes from. -/
structure SequencePoint where
  /-- The offset in the method's code. -/
  codeOffset : UInt32
  /-- The document row, in the metadata that the point is read from. -/
  document : UInt32
  /-- The text of a visible point; a hidden one has none. -/
  range : Option SourceRange
  deriving DecidableEq, Repr

namespace SequencePoint

/-- The line that is shown for hidden points, and that no visible point may have. -/
def hiddenLine : UInt32 := 0xFEEFEE

/-- Code offsets and lines lie below this. -/
def valueBound : Nat := 0x20000000

/-- Whether a point is hidden. -/
def isHidden (point : SequencePoint) : Bool :=
  point.range.isNone

/-- The range of a point; a hidden one shows the hidden line, and columns 0. -/
def shownRange (point : SequencePoint) : SourceRange :=
  point.range.getD ⟨hiddenLine, 0, hiddenLine, 0⟩

/-- The token of the point's document. -/
def documentToken (point : SequencePoint) : Token :=
  .ofRow .document point.document

/-- Whether a point is visible and its range covers a line. -/
def covers (point : SequencePoint) (line : UInt32) : Bool :=
  point.range.any (·.covers line)

/-- The first point at a code offset. -/
def atOffset? (points : List SequencePoint) (offset : UInt32) : Option SequencePoint :=
  points.find? (·.codeOffset == offset)

/-- The document rows of points, each once, in order of first appearance. -/
def documentRows (points : List SequencePoint) : List UInt32 :=
  points.foldl (fun rows point =>
    if point.document ∈ rows then rows else rows ++ [point.document]) []

/-- The visible points, as document rows and ranges. -/
def visibleRanges (points : List SequencePoint) : List (UInt32 × SourceRange) :=
  points.filterMap fun point => point.range.map (point.document, ·)

@[simp] theorem visibleRanges_nil : visibleRanges [] = [] := rfl

@[simp] theorem visibleRanges_append (points more : List SequencePoint) :
    visibleRanges (points ++ more) = visibleRanges points ++ visibleRanges more := by
  simp [visibleRanges]

/-- A hidden point covers no line. -/
theorem covers_of_isHidden {point : SequencePoint} (h : point.isHidden) (line : UInt32) :
    point.covers line = false := by
  simp_all [isHidden, covers]

end SequencePoint

end SymbolHistory
