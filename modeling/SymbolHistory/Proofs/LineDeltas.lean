import SymbolHistory.LineDeltas
import SymbolHistory.Proofs.Extent.Span
import Mathlib.Algebra.BigOperators.Group.List.Basic

/-!
# Moves in one go and one after the other

Deltas of successive updates are added up with wrap-around, and points are moved by the sum. That
comes to the same as moving them by each of the deltas in turn, as long as the lines where points
end up are valid: lines are far smaller than 2^32, so a sum that wraps around is still the distance
between two valid lines.

## Main definitions

* `LineDeltas.total?` : what deltas come to that are given one after the other.

## Main results

* `LineDeltas.total?_eq_of_perm` : the order in which deltas are given does not matter.
* `LineDeltas.strayLine?_eq_none_iff` : when all lines stay valid.
* `LineDeltas.apply_add` : moving by a sum is moving twice.
* `LineDeltas.apply_of_isUniform` : uniform deltas move all points alike.
* `LineDeltas.rowsKnown_apply` : moving points leaves them in their documents.
-/

namespace SymbolHistory

/-- A valid line is positive and below 2^29. -/
theorem LineTable.VisibleLine.bounds {line : Int} (h : LineTable.VisibleLine line) :
    1 ≤ line ∧ line < 0x20000000 :=
  ⟨h.1, h.2.1⟩

/-- A line that ends up valid after both moves can be moved by the sum of the deltas, though that
may wrap around. -/
theorem shiftLine_shiftLine {line : UInt32} {delta other : Int32}
    (between : LineTable.VisibleLine (line.toNat + delta.toInt))
    (atEnd : LineTable.VisibleLine (line.toNat + (delta + other).toInt)) :
    shiftLine (shiftLine line delta) other = shiftLine line (delta + other) := by
  obtain ⟨lower, upper⟩ := between.bounds
  obtain ⟨lower', upper'⟩ := atEnd.bounds
  have least := other.le_toInt
  have largest := other.toInt_lt
  -- The sum is the exact one up to a multiple of 2^32, which the two valid lines leave no room for.
  have exact : (delta + other).toInt = delta.toInt + other.toInt := by
    rw [Int32.toInt_add, Int.bmod_def] at lower' upper' ⊢
    split at lower' <;> split <;> omega
  rw [← UInt32.toNat_inj, toNat_shiftLine, toNat_shiftLine, toNat_shiftLine, exact]
  omega

/-- A range whose lines end up valid after both moves can be moved by the sum of the deltas. -/
theorem SourceRange.shift_shift {range : SourceRange} {delta other : Int32}
    (first : LineTable.VisibleLine (range.startLine.toNat + delta.toInt))
    (first' : LineTable.VisibleLine (range.startLine.toNat + (delta + other).toInt))
    (last : LineTable.VisibleLine (range.endLine.toNat + delta.toInt))
    (last' : LineTable.VisibleLine (range.endLine.toNat + (delta + other).toInt)) :
    (range.shift delta).shift other = range.shift (delta + other) := by
  simp only [shift, shiftLine_shiftLine first first', shiftLine_shiftLine last last']

/-- A point can be moved by the sum of two deltas if its range can, should it have one. -/
theorem SequencePoint.shift_shift {point : SequencePoint} {delta other : Int32}
    (h : ∀ range, point.range = some range →
      (range.shift delta).shift other = range.shift (delta + other)) :
    (point.shift delta).shift other = point.shift (delta + other) := by
  rcases point with ⟨codeOffset, document, range⟩
  rw [shift, shift, shift, SequencePoint.mk.injEq]
  refine ⟨rfl, rfl, ?_⟩
  cases range with
  | none => simp only [Option.map_none]
  | some range => rw [Option.map_some, Option.map_some, Option.map_some, h range rfl]

namespace LineDeltas

/-! ### Sums -/

/-- Adding no deltas changes nothing. -/
theorem addPointwise_nil (deltas : List Int32) : addPointwise deltas [] = deltas := by
  cases deltas <;> rfl

/-- Deltas are added in any order. -/
theorem addPointwise_comm (deltas others : List Int32) :
    addPointwise deltas others = addPointwise others deltas := by
  induction deltas generalizing others with
  | nil => rw [addPointwise_nil, addPointwise]
  | cons delta deltas ih =>
      cases others with
      | nil => rfl
      | cons other others => rw [addPointwise, addPointwise, ih, Int32.add_comm]

/-- They are added in any grouping as well, also if there are not equally many. -/
theorem addPointwise_assoc (deltas others more : List Int32) :
    addPointwise (addPointwise deltas others) more =
      addPointwise deltas (addPointwise others more) := by
  induction deltas generalizing others more with
  | nil => rfl
  | cons delta deltas ih =>
      cases others with
      | nil => rfl
      | cons other others =>
          cases more with
          | nil => rfl
          | cons last more =>
              rw [addPointwise, addPointwise, addPointwise, addPointwise, ih, Int32.add_assoc]

instance : AddCommMonoid LineDeltas where
  add_assoc deltas others more :=
    congrArg₂ mk (Int32.add_assoc _ _ _) (addPointwise_assoc _ _ _)
  zero_add deltas := congrArg₂ mk (Int32.zero_add _) rfl
  add_zero deltas := congrArg₂ mk (Int32.add_zero _) (addPointwise_nil _)
  add_comm deltas others := congrArg₂ mk (Int32.add_comm _ _) (addPointwise_comm _ _)
  nsmul := nsmulRec

/-- What deltas come to that are given one after the other, if there are any. -/
def total? : List LineDeltas → Option LineDeltas
  | [] => none
  | first :: rest => some (rest.foldl (· + ·) first)

/-- Deltas that are given come to their sum. -/
theorem total?_eq (given : List LineDeltas) :
    total? given = if given = [] then none else some given.sum := by
  cases given with
  | nil => rfl
  | cons first rest =>
      have step : rest.foldl (· + ·) (first + 0) = first + rest.foldl (· + ·) 0 :=
        List.foldl_assoc
      rw [add_zero] at step
      rw [if_neg (List.cons_ne_nil _ _), total?, step, List.sum_cons, List.sum_eq_foldl]

/-- **The order in which deltas are given does not matter.** -/
theorem total?_eq_of_perm {given others : List LineDeltas} (h : given.Perm others) :
    total? given = total? others := by
  have none : given = [] ↔ others = [] :=
    ⟨fun eq => (eq ▸ h).nil_eq.symm, fun eq => (eq ▸ h).eq_nil⟩
  rw [total?_eq, total?_eq, h.sum_eq]
  simp only [none]

/-- Deltas that are given later are added to those before. -/
theorem total?_append {given more : List LineDeltas} (h : more ≠ []) :
    total? (given ++ more) = some ((total? given).elim more.sum (· + more.sum)) := by
  rw [total?_eq, total?_eq, if_neg (List.append_ne_nil_of_right_ne_nil _ h), List.sum_append]
  by_cases first : given = []
  · rw [if_pos first, Option.elim_none, first, List.sum_nil, zero_add]
  · rw [if_neg first, Option.elim_some]

/-! ### Moved points -/

/-- No line strays exactly if both lines of every visible point stay valid. -/
theorem strayLine?_eq_none_iff {deltas : LineDeltas} {points : List SequencePoint} :
    deltas.strayLine? points = none ↔
      ∀ index point range, points[index]? = some point → point.range = some range →
        LineTable.VisibleLine (range.startLine.toNat + (deltas.deltaOf index).toInt) ∧
          LineTable.VisibleLine (range.endLine.toNat + (deltas.deltaOf index).toInt) := by
  rw [strayLine?, List.find?_eq_none]
  constructor
  · intro h index point range at_index visible
    have lines : ∀ line ∈ movedLines (deltas.deltaOf index) point,
        LineTable.VisibleLine line := by
      intro line mem
      have := h line (List.mem_flatten.2 ⟨_, List.mem_mapIdx.2 ⟨index, ?_, rfl⟩, ?_⟩)
      · simpa using this
      · exact (List.getElem?_eq_some_iff.1 at_index).1
      · rwa [(List.getElem?_eq_some_iff.1 at_index).2]
    rw [movedLines, visible] at lines
    exact ⟨lines _ List.mem_cons_self, lines _ (List.mem_cons_of_mem _ List.mem_cons_self)⟩
  · intro h line mem
    obtain ⟨lines, lines_mem, line_mem⟩ := List.mem_flatten.1 mem
    obtain ⟨index, lt, rfl⟩ := List.mem_mapIdx.1 lines_mem
    rw [movedLines] at line_mem
    split at line_mem
    · simp at line_mem
    · next range visible =>
      obtain ⟨first, last⟩ := h index _ range (List.getElem?_eq_getElem lt) visible
      simp only [List.mem_cons, List.not_mem_nil, or_false] at line_mem
      rcases line_mem with rfl | rfl
      · simpa using first
      · simpa using last

/-- Each point moves by its own delta. -/
theorem getElem?_apply (deltas : LineDeltas) (points : List SequencePoint) (index : Nat) :
    (deltas.apply points)[index]? = points[index]?.map (·.shift (deltas.deltaOf index)) := by
  rw [apply, List.getElem?_mapIdx]

/-- **Moving by a sum is moving twice**, if no line strays on the way or in the end. -/
theorem apply_add {deltas others : LineDeltas} {points : List SequencePoint}
    (between : deltas.strayLine? points = none)
    (atEnd : (deltas + others).strayLine? points = none) :
    (deltas + others).apply points = others.apply (deltas.apply points) := by
  apply List.ext_getElem?
  intro index
  rw [getElem?_apply, getElem?_apply, getElem?_apply, Option.map_map]
  cases at_index : points[index]? with
  | none => simp only [Option.map_none]
  | some point =>
      rw [Option.map_some, Option.map_some, Function.comp_apply]
      refine congrArg some (Eq.symm ?_)
      rw [deltaOf_add, SequencePoint.shift_shift]
      intro range visible
      have valid := strayLine?_eq_none_iff.1 between index point range at_index visible
      have valid' := strayLine?_eq_none_iff.1 atEnd index point range at_index visible
      rw [deltaOf_add] at valid'
      exact SourceRange.shift_shift valid.1 valid'.1 valid.2 valid'.2

/-- The delta of a point in uniform deltas is the common one. -/
theorem deltaOf_of_isUniform {deltas : LineDeltas} (h : deltas.isUniform) (index : Nat) :
    deltas.deltaOf index = deltas.common := by
  have zero : deltas.single[index]?.getD 0 = 0 := by
    cases at_index : deltas.single[index]? with
    | none => rfl
    | some delta =>
        have mem : delta ∈ deltas.single := List.mem_of_getElem? at_index
        simpa using List.all_eq_true.1 h delta mem
  rw [deltaOf, zero, Int32.add_zero]

/-- **Uniform deltas move all points alike.** -/
theorem apply_of_isUniform {deltas : LineDeltas} (h : deltas.isUniform)
    (points : List SequencePoint) :
    deltas.apply points = points.map (·.shift deltas.common) := by
  apply List.ext_getElem?
  intro index
  rw [getElem?_apply, deltaOf_of_isUniform h, List.getElem?_map]

/-- **Moving points leaves them in their documents**, and visible ones visible. -/
theorem rowsKnown_apply {documentOf : UInt32 → Option DocumentId} {deltas : LineDeltas}
    {points : List SequencePoint} :
    Span.RowsKnown documentOf (deltas.apply points) ↔ Span.RowsKnown documentOf points := by
  constructor
  · intro h point mem visible
    obtain ⟨index, at_index⟩ := List.mem_iff_getElem?.1 mem
    have moved := getElem?_apply deltas points index
    rw [at_index, Option.map_some] at moved
    refine h (point.shift (deltas.deltaOf index)) (List.mem_of_getElem? moved) ?_
    rwa [SequencePoint.shift, Option.isSome_map]
  · intro h moved mem visible
    obtain ⟨index, at_index⟩ := List.mem_iff_getElem?.1 mem
    rw [getElem?_apply, Option.map_eq_some_iff] at at_index
    obtain ⟨point, at_index, rfl⟩ := at_index
    rw [SequencePoint.shift, Option.isSome_map] at visible
    exact h point (List.mem_of_getElem? at_index) visible

end LineDeltas

/-- The ranges of moved points are the moved ranges. -/
theorem SequencePoint.visibleRanges_map_shift (points : List SequencePoint) (delta : Int32) :
    visibleRanges (points.map (·.shift delta)) =
      (visibleRanges points).map fun (row, range) => (row, range.shift delta) := by
  rw [visibleRanges, visibleRanges, List.filterMap_map, List.map_filterMap]
  refine List.filterMap_congr fun point _ => ?_
  rw [Function.comp_apply, SequencePoint.shift, Option.map_map, Option.map_map]
  rfl

/-- Moving ranges leaves them in their documents. -/
theorem resolveRanges_shift (documentOf : UInt32 → Option DocumentId)
    (ranges : List (UInt32 × SourceRange)) (delta : Int32) :
    resolveRanges documentOf (ranges.map fun (row, range) => (row, range.shift delta)) =
      (resolveRanges documentOf ranges).map
        (·.map fun (document, range) => (document, range.shift delta)) := by
  induction ranges with
  | nil => rfl
  | cons entry ranges ih =>
      rcases entry with ⟨row, range⟩
      rw [List.map_cons, resolveRanges_cons, ih, resolveRanges_cons]
      cases documentOf row with
      | none => rfl
      | some document => cases resolveRanges documentOf ranges <;> rfl

/-- **Spans of points move along**, if all points move alike. -/
theorem Span.ofPoints_map_shift {documentOf : UInt32 → Option DocumentId}
    {points : List SequencePoint} {spans : List Span}
    (h : ofPoints documentOf points = .ok spans) (delta : Int32) :
    ofPoints documentOf (points.map (·.shift delta)) = .ok (spans.map (·.shift delta)) := by
  obtain ⟨ranges, resolved, rfl⟩ := ofPoints_eq_ok_iff.1 h
  refine ofPoints_eq_ok_iff.2 ⟨_, ?_, (ofRanges_shift ranges delta).symm⟩
  rw [SequencePoint.visibleRanges_map_shift, resolveRanges_shift, resolved, Option.map_some]

end SymbolHistory
