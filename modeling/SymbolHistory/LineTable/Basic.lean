import SymbolHistory.SequencePoint
import SymbolHistory.Error

/-!
# Line tables

The line table of a method is the list of its sequence points, with the method's local signature
and the document that the first point lies in.

A line table is written as a header and one record per point. Numbers in a record are relative to
what came before: the document and the offset to the last point, the lines and columns to the last
visible point. `Context` is this state; reading and writing advance it alike, by `Context.after`.

## Main definitions

* `LineTable.Header`, `LineTable` : what a line table holds.
* `LineTable.Context` : what the next record is relative to.
* `LineTable.VisibleLine` : the lines that a visible point may have after it is moved.
-/

namespace SymbolHistory

namespace LineTable

/-- What stands in front of the points. -/
structure Header where
  /-- The row of the method's local signature, 0 if there is none. -/
  localSignature : UInt32
  /-- The document that the first point lies in. -/
  initialDocument : UInt32
  /-- Whether the initial document is written in the header; if not, the method's row has it. -/
  documentInHeader : Bool
  deriving DecidableEq, Repr

/-- What the next record is relative to. -/
structure Context where
  /-- The current document. -/
  document : UInt32
  /-- The offset of the last point; none before the first. -/
  offset : Option UInt32
  /-- Where the last visible point starts; none before the first of these. -/
  anchor : Option (UInt32 × UInt16)
  deriving DecidableEq, Repr

namespace Context

/-- The context before the first record. -/
def initial (document : UInt32) : Context :=
  ⟨document, none, none⟩

/-- The context after the record of a point. -/
def after (context : Context) (point : SequencePoint) : Context where
  document := point.document
  offset := some point.codeOffset
  anchor := match point.range with
    | some range => some (range.startLine, range.startColumn)
    | none => context.anchor

end Context

/-- The lines that a visible point may be moved to: from 1 up to 2^29, the hidden line excluded. -/
def VisibleLine (line : Int) : Prop :=
  1 ≤ line ∧ line < SequencePoint.valueBound ∧ line ≠ SequencePoint.hiddenLine.toNat

instance (line : Int) : Decidable (VisibleLine line) :=
  inferInstanceAs (Decidable (_ ∧ _ ∧ _))

end LineTable

/-- The sequence points of a method and what is written in front of them. -/
structure LineTable extends LineTable.Header where
  /-- The points, by ascending code offset. -/
  points : List SequencePoint
  deriving DecidableEq, Repr

end SymbolHistory
