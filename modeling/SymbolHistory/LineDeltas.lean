import SymbolHistory.LineTable.Basic

/-!
# Line deltas

An edit above a method moves its lines and leaves its body alone. Then the update does not bring a
new line table but says by how many lines the points move: all of them by one number, and single
ones by another on top of it.

Deltas are 32-bit numbers. Deltas of successive updates add up with wrap-around, so the order of the
updates does not matter. Moving a line stops at 0 and at 2^32 - 1.

## Main definitions

* `LineDeltas` : by how many lines the points of a method move; two moves in one are their sum.
* `LineDeltas.deltaOf` : by how many lines one of the points moves.
* `LineDeltas.apply` : the moved points.
* `LineDeltas.strayLine?` : the first line that would leave the lines that a point may have.

## Main results

* `LineDeltas.deltaOf_add` : adding moves adds the delta of every point.
-/

namespace SymbolHistory

/-- A line moved by a delta; it stops at 0 and at the largest word. -/
def shiftLine (line : UInt32) (delta : Int32) : UInt32 :=
  UInt32.ofNat (min (line.toNat + delta.toInt).toNat 0xFFFFFFFF)

/-- A range moved by a delta. -/
def SourceRange.shift (range : SourceRange) (delta : Int32) : SourceRange :=
  { range with
    startLine := shiftLine range.startLine delta
    endLine := shiftLine range.endLine delta }

/-- A point moved by a delta; a hidden one does not move. -/
def SequencePoint.shift (point : SequencePoint) (delta : Int32) : SequencePoint :=
  { point with range := point.range.map (·.shift delta) }

/-- By how many lines the points of a method move. -/
structure LineDeltas where
  /-- The delta of every point. -/
  common : Int32
  /-- What single points move by on top of it, in the order of the points. Points behind the last
  one of these have nothing on top. -/
  single : List Int32
  deriving DecidableEq, Repr

namespace LineDeltas

/-- Every point moves by `delta`. -/
def uniform (delta : Int32) : LineDeltas :=
  ⟨delta, []⟩

instance : Zero LineDeltas where
  zero := uniform 0

/-- Whether the deltas are the same for all points. -/
def isUniform (deltas : LineDeltas) : Bool :=
  deltas.single.all (· == 0)

/-- Whether nothing moves. -/
def isStill (deltas : LineDeltas) : Bool :=
  deltas.common == 0 && deltas.isUniform

/-- The delta of point number `index`, from 0. -/
def deltaOf (deltas : LineDeltas) (index : Nat) : Int32 :=
  deltas.common + deltas.single[index]?.getD 0

/-- The sums of deltas at the same place; the shorter list goes on with zeros. -/
def addPointwise : List Int32 → List Int32 → List Int32
  | [], others => others
  | deltas, [] => deltas
  | delta :: deltas, other :: others => (delta + other) :: addPointwise deltas others

instance : Add LineDeltas where
  add deltas others := ⟨deltas.common + others.common, addPointwise deltas.single others.single⟩

/-- The moved points. -/
def apply (deltas : LineDeltas) (points : List SequencePoint) : List SequencePoint :=
  points.mapIdx fun index point => point.shift (deltas.deltaOf index)

/-- The exact first and last line of a point after a move; a hidden point has none. -/
def movedLines (delta : Int32) (point : SequencePoint) : List Int :=
  match point.range with
  | none => []
  | some range =>
    [(range.startLine.toNat : Int) + delta.toInt, (range.endLine.toNat : Int) + delta.toInt]

/-- The first line after the move that no visible point may have. -/
def strayLine? (deltas : LineDeltas) (points : List SequencePoint) : Option Int :=
  (points.mapIdx fun index point => movedLines (deltas.deltaOf index) point).flatten.find?
    fun line => ¬ LineTable.VisibleLine line

theorem getElem?_addPointwise (deltas others : List Int32) (index : Nat) :
    (addPointwise deltas others)[index]?.getD 0 =
      deltas[index]?.getD 0 + others[index]?.getD 0 := by
  induction deltas generalizing others index with
  | nil => simp [addPointwise]
  | cons delta deltas ih =>
    cases others with
    | nil => simp [addPointwise]
    | cons other others =>
      cases index with
      | zero => simp [addPointwise]
      | succ index => simpa [addPointwise] using ih others index

@[simp] theorem length_addPointwise (deltas others : List Int32) :
    (addPointwise deltas others).length = max deltas.length others.length := by
  induction deltas generalizing others with
  | nil => simp [addPointwise]
  | cons delta deltas ih =>
    cases others with
    | nil => simp [addPointwise]
    | cons other others => simp [addPointwise, ih, Nat.add_max_add_right]

/-- Adding moves adds the delta of every point. -/
theorem deltaOf_add (deltas others : LineDeltas) (index : Nat) :
    (deltas + others).deltaOf index = deltas.deltaOf index + others.deltaOf index := by
  change deltas.common + others.common + (addPointwise deltas.single others.single)[index]?.getD 0 =
    _
  rw [getElem?_addPointwise, deltaOf, deltaOf]
  ac_rfl

/-- Moving keeps the number of points. -/
@[simp] theorem length_apply (deltas : LineDeltas) (points : List SequencePoint) :
    (deltas.apply points).length = points.length := by
  simp [apply]

end LineDeltas

end SymbolHistory
