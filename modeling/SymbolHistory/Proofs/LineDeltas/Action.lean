import SymbolHistory.Proofs.LineDeltas

/-!
# Deltas act on points

Deltas add up in any order and any grouping, and moving points by a sum is moving them by one
summand and then by the other. The first of these needs nothing, for sums wrap around. The second
one needs that lines stay valid on the way: a sum that wraps around is 2^32 off, which is further
than any two valid lines are apart. So it neither hides a line that strays nor makes one stray.

## Main definitions

* `SequencePoint.Bounded` : points whose lines are below 2^29.

## Main results

* `LineTable.visibleLine_add_iff` : where one line ends up by the sum of two deltas.
* `LineDeltas.strayLine?_add_eq_none_iff` : no line strays by a sum exactly if none does in turn.
* `LineDeltas.sums_move_in_turn` : the laws of sums, and what they do to points.
-/

namespace SymbolHistory

/-- The lines of all visible points are below 2^29. -/
def SequencePoint.Bounded (points : List SequencePoint) : Prop :=
  ∀ point ∈ points, ∀ range ∈ point.range,
    range.startLine.toNat < valueBound ∧ range.endLine.toNat < valueBound

/-- A line that stays valid is moved exactly. -/
theorem LineTable.VisibleLine.toNat_shiftLine_eq {line : UInt32} {delta : Int32}
    (valid : LineTable.VisibleLine (line.toNat + delta.toInt)) :
    ((shiftLine line delta).toNat : Int) = line.toNat + delta.toInt := by
  obtain ⟨lower, upper⟩ := valid.bounds
  rw [toNat_shiftLine]
  omega

/-- The sum of two deltas is the exact one, or 2^32 off. -/
theorem toInt_add_cases (delta other : Int32) :
    (delta + other).toInt = delta.toInt + other.toInt ∨
      (2 ^ 31 ≤ delta.toInt + other.toInt ∧
        (delta + other).toInt = delta.toInt + other.toInt - 2 ^ 32) ∨
      (delta.toInt + other.toInt < -2 ^ 31 ∧
        (delta + other).toInt = delta.toInt + other.toInt + 2 ^ 32) := by
  have lower := delta.le_toInt
  have upper := delta.toInt_lt
  have lower' := other.le_toInt
  have upper' := other.toInt_lt
  rw [Int32.toInt_add, Int.bmod_def]
  split <;> omega

/-- **A line ends up valid by a sum exactly if it does in turn**, given that it is valid on the
way. -/
theorem LineTable.visibleLine_add_iff {line : UInt32} {delta other : Int32}
    (bounded : line.toNat < SequencePoint.valueBound)
    (between : VisibleLine (line.toNat + delta.toInt)) :
    VisibleLine (line.toNat + (delta + other).toInt) ↔
      VisibleLine ((shiftLine line delta).toNat + other.toInt) := by
  obtain ⟨lower, upper⟩ := between.bounds
  have small : line.toNat < 2 ^ 29 := bounded
  have least := other.le_toInt
  have largest := other.toInt_lt
  rw [between.toNat_shiftLine_eq]
  obtain exact | wrapped := toInt_add_cases delta other
  · rw [exact, Int.add_assoc]
  -- Where the sum wraps around, the line strays both ways: it is too far up, or too far down.
  · refine iff_of_false (fun valid => ?_) fun valid => ?_
    · have := valid.bounds
      omega
    · have := valid.bounds
      omega

namespace LineDeltas

variable {deltas others : LineDeltas} {points : List SequencePoint}

/-- **No line strays by a sum exactly if none does in turn**, given that none does on the way. -/
theorem strayLine?_add_eq_none_iff (bounded : SequencePoint.Bounded points)
    (between : deltas.strayLine? points = none) :
    (deltas + others).strayLine? points = none ↔
      others.strayLine? (deltas.apply points) = none := by
  have valid := strayLine?_eq_none_iff.1 between
  have ends : ∀ index point range, points[index]? = some point → point.range = some range →
      (LineTable.VisibleLine
          (range.startLine.toNat + ((deltas + others).deltaOf index).toInt) ↔
        LineTable.VisibleLine ((range.shift (deltas.deltaOf index)).startLine.toNat +
          (others.deltaOf index).toInt)) ∧
      (LineTable.VisibleLine
          (range.endLine.toNat + ((deltas + others).deltaOf index).toInt) ↔
        LineTable.VisibleLine ((range.shift (deltas.deltaOf index)).endLine.toNat +
          (others.deltaOf index).toInt)) := by
    intro index point range at_index visible
    obtain ⟨first, last⟩ := bounded point (List.mem_of_getElem? at_index) range visible
    obtain ⟨first_valid, last_valid⟩ := valid index point range at_index visible
    rw [deltaOf_add]
    exact ⟨LineTable.visibleLine_add_iff first first_valid,
      LineTable.visibleLine_add_iff last last_valid⟩
  rw [strayLine?_eq_none_iff, strayLine?_eq_none_iff]
  constructor
  · intro h index moved range at_index visible
    rw [getElem?_apply, Option.map_eq_some_iff] at at_index
    obtain ⟨point, at_index, rfl⟩ := at_index
    obtain ⟨range, own, rfl⟩ := Option.map_eq_some_iff.1 visible
    obtain ⟨first, last⟩ := ends index point range at_index own
    exact (h index point range at_index own).imp first.1 last.1
  · intro h index point range at_index visible
    obtain ⟨first, last⟩ := ends index point range at_index visible
    have moved : (deltas.apply points)[index]? = some (point.shift (deltas.deltaOf index)) := by
      rw [getElem?_apply, at_index, Option.map_some]
    have shifted : (point.shift (deltas.deltaOf index)).range =
        some (range.shift (deltas.deltaOf index)) := by
      rw [SequencePoint.shift, visible, Option.map_some]
    exact (h index _ _ moved shifted).imp first.2 last.2

/-- Hidden points do not move. -/
theorem getElem?_apply_of_isHidden {index : Nat} {point : SequencePoint}
    (at_index : points[index]? = some point) (hidden : point.isHidden) :
    (deltas.apply points)[index]? = some point := by
  rcases point with ⟨codeOffset, document, range⟩
  obtain rfl : range = none := Option.isNone_iff_eq_none.1 hidden
  rw [getElem?_apply, at_index, Option.map_some]
  rfl

/-- **Sums move in turn.** Deltas add up in any grouping and order, and deltas that move nothing add
nothing; the delta of every point is the sum of its deltas, up to multiples of 2^32. If the lines of
points are below 2^29 and no line strays by the first deltas, then none strays by the sum exactly if
none strays by the second deltas afterwards, and then moving the points by the sum is moving them by
the first deltas and then by the second. Hidden points stay as they are, whatever the deltas. -/
theorem sums_move_in_turn :
    ((∀ deltas others more : LineDeltas, deltas + others + more = deltas + (others + more)) ∧
      (∀ deltas others : LineDeltas, deltas + others = others + deltas) ∧
      ∀ deltas : LineDeltas, ⟨0, []⟩ + deltas = deltas ∧ deltas + ⟨0, []⟩ = deltas) ∧
    (∀ (deltas others : LineDeltas) (index : Nat),
      ((deltas + others).deltaOf index).toInt =
        ((deltas.deltaOf index).toInt + (others.deltaOf index).toInt).bmod (2 ^ 32)) ∧
    ∀ (points : List SequencePoint) (deltas others : LineDeltas),
      (SequencePoint.Bounded points → deltas.strayLine? points = none →
        ((deltas + others).strayLine? points = none ↔
          others.strayLine? (deltas.apply points) = none) ∧
        ((deltas + others).strayLine? points = none →
          (deltas + others).apply points = others.apply (deltas.apply points))) ∧
      ∀ (index : Nat) (point : SequencePoint), points[index]? = some point → point.isHidden →
        (deltas.apply points)[index]? = some point := by
  refine ⟨⟨add_assoc, add_comm, fun deltas => ⟨zero_add deltas, add_zero deltas⟩⟩,
    fun deltas others index => ?_, fun points deltas others => ⟨fun bounded between => ?_,
      fun index point at_index hidden => getElem?_apply_of_isHidden at_index hidden⟩⟩
  · rw [deltaOf_add, Int32.toInt_add]
  · exact ⟨strayLine?_add_eq_none_iff bounded between, fun atEnd => apply_add between atEnd⟩

/-- Points of a method with a hidden one between them. -/
def hiddenBetween : List SequencePoint :=
  [⟨0, 1, some ⟨10, 5, 10, 9⟩⟩, ⟨4, 1, none⟩, ⟨6, 1, some ⟨0x1FFFFFFE, 1, 0x1FFFFFFF, 2⟩⟩]

/-- Deltas that move single points by a few lines, out of numbers of which no two can be added
without leaving 32 bits. -/
def farUp : LineDeltas :=
  ⟨0x7FFFFFFF, [-0x7FFFFFFA, 3, -0x80000000]⟩

/-- Others of that kind, the other way round. -/
def farDown : LineDeltas :=
  ⟨-0x80000000, [0x7FFFFFFE, 0, -0x80000000]⟩

/-- The points are moved by both, though single sums wrap around. -/
theorem sums_move_in_turn_hiddenBetween :
    SequencePoint.Bounded hiddenBetween ∧ farUp.strayLine? hiddenBetween = none ∧
      farDown.strayLine? (farUp.apply hiddenBetween) = none ∧
      (farUp + farDown).apply hiddenBetween = farDown.apply (farUp.apply hiddenBetween) ∧
      (farUp.apply hiddenBetween)[1]? = some ⟨4, 1, none⟩ := by
  have bounded : SequencePoint.Bounded hiddenBetween := by
    simp [SequencePoint.Bounded, hiddenBetween, SequencePoint.valueBound]
  have between : farUp.strayLine? hiddenBetween = none := by decide
  have afterwards : farDown.strayLine? (farUp.apply hiddenBetween) = none := by decide
  obtain ⟨moves, hidden⟩ := sums_move_in_turn.2.2 hiddenBetween farUp farDown
  obtain ⟨same, moved⟩ := moves bounded between
  exact ⟨bounded, between, afterwards, moved (same.2 afterwards), hidden 1 _ rfl rfl⟩

end LineDeltas

end SymbolHistory
