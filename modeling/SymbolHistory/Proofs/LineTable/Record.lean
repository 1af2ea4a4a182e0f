import SymbolHistory.Proofs.LineTable.Range

/-!
# Records of points

Every record is about a point that fits to the points before it, and each such point has exactly one
record.

## Main definitions

* `LineTable.Context.Admits` : the points that the next record can be about.

## Main results

* `LineTable.readPoint_eq_ok_iff` : reading a record accepts exactly what writing produces, for the
  points that are admitted.
* `LineTable.exists_encodePoint` : all of these points have a record.
-/

namespace SymbolHistory.LineTable

open Bytes

/-- A point that the next record can be about. -/
structure Context.Admits (context : Context) (point : SequencePoint) : Prop where
  /-- Its offset is below 2^29. -/
  codeOffset_lt : point.codeOffset.toNat < SequencePoint.valueBound
  /-- It is larger than the last one. -/
  behind : ∀ previous ∈ context.offset, previous < point.codeOffset
  /-- The first point is in the initial document; a later one can be elsewhere. -/
  document : point.document = context.document ∨ context.offset.isSome ∧ point.document ≠ 0 ∧
    point.document.toNat < SequencePoint.valueBound
  /-- A visible point has a well-formed range. -/
  range : ∀ range ∈ point.range, range.WellFormed
  /-- It starts not too far from the last visible point. -/
  start : ∀ range ∈ point.range, ∀ anchor ∈ context.anchor,
    Width.four.Holds (range.startLine.toNat - anchor.1.toNat)

/-- A place that has a form is one that the next point can have. -/
theorem PlaceForm.admitted {context : Context} {document : UInt32} {offset : Nat}
    {form : List UInt8} (h : PlaceForm context document offset form) :
    (∀ previous ∈ context.offset, previous.toNat < offset) ∧
      (document = context.document ∨ context.offset.isSome ∧ document ≠ 0 ∧
        document.toNat < SequencePoint.valueBound) := by
  cases h with
  | first start same _ =>
      rw [start]
      exact ⟨fun _ found => absurd found (Option.not_mem_none _), .inl same⟩
  | later start same far ne _ =>
      rw [start]
      refine ⟨?_, .inl same⟩
      rintro _ ⟨⟩
      omega
  | elsewhere start other named announced far ne _ =>
      rw [start]
      refine ⟨?_, .inr ⟨rfl, named, lt_of_encodeUnsigned announced⟩⟩
      rintro _ ⟨⟩
      omega

/-- A range that has a form is well-formed if its lines are valid, and starts not too far from the
last one. -/
theorem RangeForm.admitted {anchor : Option (UInt32 × UInt16)} {range : Option SourceRange}
    {form : List UInt8} (h : RangeForm anchor range form)
    (valid : ∀ visible ∈ range, OnLines visible) :
    ∀ visible ∈ range, visible.WellFormed ∧
      ∀ last ∈ anchor, Width.four.Holds (visible.startLine.toNat - last.1.toNat) := by
  cases h with
  | hidden => exact fun _ visible => absurd visible (Option.not_mem_none _)
  | @visible range lines columns linesForm columnsForm startForm last right wide lines_written
      columns_written start_written =>
      rintro _ ⟨⟩
      obtain ⟨lt, first_ne, last_ne⟩ := valid range rfl
      refine ⟨⟨UInt32.le_iff_toNat_le.2 (by omega), lt, first_ne, last_ne, ?_⟩, ?_⟩
      · intro single
        rw [single] at last
        obtain rfl : lines = 0 := by omega
        cases columns_written with
        | single _ => exact UInt16.lt_iff_toNat_lt.2 (by omega)
        | several ne _ => exact absurd rfl ne
      · rintro _ ⟨⟩
        generalize first : ((range.startLine.toNat : Int), (range.startColumn.toNat : Int)) = start
          at start_written
        cases start_written with
        | @later line column lineStep columnStep _ _ line_written _ =>
            rw [(Prod.mk.inj first).1, show (line.toNat + lineStep - line.toNat : Int) = lineStep by
              omega]
            exact encodeSigned_eq_ok_iff.1 ⟨_, line_written⟩

/-- **Reading a record accepts exactly what writing produces**, for the points that are admitted. -/
theorem readPoint_eq_ok_iff {context : Context} {bytes rest : List UInt8} {point : SequencePoint} :
    readPoint context bytes = .ok (point, rest) ↔
      context.Admits point ∧
        ∃ form, encodePoint context point = .ok form ∧ bytes = form ++ rest := by
  rw [readPoint, bind_eq_ok_iff]
  constructor
  · rintro ⟨⟨document, offset⟩, mid, read, h⟩
    obtain ⟨place, place_form, rfl⟩ := placeForm_of_readPlace read
    dsimp only at h
    by_cases lt : offset < SequencePoint.valueBound
    · rw [if_pos lt, bind_eq_ok_iff] at h
      obtain ⟨range, mid, read_range, h⟩ := h
      obtain ⟨rfl, rfl⟩ := pure_eq_ok_iff.1 h
      obtain ⟨valid, tail, range_form, rfl⟩ := readRange_eq_ok_iff.1 read_range
      have exact : (UInt32.ofNat offset).toNat = offset := by
        rw [SequencePoint.valueBound] at lt
        exact UInt32.toNat_ofNat_of_lt' (by rw [UInt32.size]; omega)
      obtain ⟨behind, elsewhere⟩ := place_form.admitted
      have ranges := range_form.admitted valid
      refine ⟨⟨?_, ?_, elsewhere, fun range visible => (ranges range visible).1,
        fun range visible => (ranges range visible).2⟩, place ++ tail, ?_, ?_⟩
      · rwa [exact]
      · intro previous found
        rw [UInt32.lt_iff_toNat_lt, exact]
        exact behind previous found
      · have place_form : PlaceForm context document (UInt32.ofNat offset).toNat place :=
          exact.symm ▸ place_form
        exact Outcome.bind_eq_ok_iff.2 ⟨place, PlaceForm.encodePlace_eq place_form,
          Outcome.bind_eq_ok_iff.2 ⟨tail, encodeRange_eq_ok_iff.2 range_form, rfl⟩⟩
      · rw [List.append_assoc]
    · rw [if_neg lt] at h
      cases h
  · rintro ⟨admitted, form, written, rfl⟩
    obtain ⟨place, place_written, written⟩ := Outcome.bind_eq_ok_iff.1 written
    obtain ⟨tail, range_written, written⟩ := Outcome.bind_eq_ok_iff.1 written
    obtain rfl := Outcome.pure_eq_ok_iff.1 written
    have valid : ∀ visible ∈ point.range, OnLines visible := fun visible mem =>
      ⟨(admitted.range visible mem).endLine_lt, (admitted.range visible mem).startLine_ne,
        (admitted.range visible mem).endLine_ne⟩
    refine ⟨(point.document, point.codeOffset.toNat), tail ++ rest, ?_, ?_⟩
    · rw [List.append_assoc]
      exact (placeForm_of_encodePlace place_written).read (tail ++ rest)
    · dsimp only
      rw [if_pos admitted.codeOffset_lt]
      refine bind_eq_ok_iff.2 ⟨point.range, rest,
        readRange_eq_ok_iff.2 ⟨valid, tail, encodeRange_eq_ok_iff.1 range_written, rfl⟩, ?_⟩
      rw [UInt32.ofNat_toNat]
      rfl

/-- The place of a point that is admitted has a form. -/
theorem exists_placeForm {context : Context} {point : SequencePoint} (h : context.Admits point) :
    ∃ form, PlaceForm context point.document point.codeOffset.toNat form := by
  have lt := h.codeOffset_lt
  rw [SequencePoint.valueBound] at lt
  cases start : context.offset with
  | none =>
      obtain ⟨form, written⟩ := exists_encodeUnsigned lt
      rcases h.document with same | ⟨later, -⟩
      · exact ⟨form, .first start same written⟩
      · rw [start] at later
        cases later
  | some previous =>
      have behind := UInt32.lt_iff_toNat_lt.1 (h.behind previous start)
      have far : point.codeOffset.toNat =
          previous.toNat + (point.codeOffset.toNat - previous.toNat) := by omega
      obtain ⟨form, written⟩ := exists_encodeUnsigned
        (n := point.codeOffset.toNat - previous.toNat) (by omega)
      by_cases same : point.document = context.document
      · exact ⟨form, .later start same far (by omega) written⟩
      · rcases h.document with other | ⟨-, named, row_lt⟩
        · exact absurd other same
        · obtain ⟨record, announced⟩ := exists_encodeUnsigned row_lt
          exact ⟨_, .elsewhere start same named announced far (by omega) written⟩

/-- The distance of columns of a well-formed range has a form. -/
theorem exists_columnsForm {range : SourceRange} (h : range.WellFormed) :
    ∃ form, ColumnsForm (range.endLine.toNat - range.startLine.toNat)
      (range.endColumn.toNat - range.startColumn.toNat) form := by
  have order := UInt32.le_iff_toNat_le.1 h.startLine_le_endLine
  have left_lt := range.startColumn.toNat_lt
  have right_lt := range.endColumn.toNat_lt
  by_cases single : range.endLine.toNat - range.startLine.toNat = 0
  · have same : range.startLine = range.endLine := UInt32.toNat_inj.1 (by omega)
    have wide := UInt16.lt_iff_toNat_lt.1 (h.startColumn_lt same)
    obtain ⟨form, written⟩ := exists_encodeUnsigned
      (n := range.endColumn.toNat - range.startColumn.toNat) (by omega)
    rw [single, ← Int.ofNat_sub (Nat.le_of_lt wide)]
    exact ⟨form, .single written⟩
  · obtain ⟨form, written⟩ := exists_encodeSigned
      (n := range.endColumn.toNat - range.startColumn.toNat) (by omega) (by omega)
    exact ⟨form, .several single written⟩

/-- The start of a well-formed range has a form, if it is not too far from the last one. -/
theorem exists_startForm {range : SourceRange} (h : range.WellFormed)
    {anchor : Option (UInt32 × UInt16)}
    (near : ∀ last ∈ anchor, Width.four.Holds (range.startLine.toNat - last.1.toNat)) :
    ∃ form, StartForm anchor (range.startLine.toNat, range.startColumn.toNat) form := by
  have order := UInt32.le_iff_toNat_le.1 h.startLine_le_endLine
  have lt := h.endLine_lt
  have column_lt := range.startColumn.toNat_lt
  rw [SequencePoint.valueBound] at lt
  cases anchor with
  | none =>
      obtain ⟨lineForm, line_written⟩ := exists_encodeUnsigned
        (n := range.startLine.toNat) (by omega)
      obtain ⟨columnForm, column_written⟩ := exists_encodeUnsigned
        (n := range.startColumn.toNat) (by omega)
      exact ⟨_, .first line_written column_written⟩
  | some anchor =>
      rcases anchor with ⟨line, column⟩
      have last_lt := column.toNat_lt
      obtain ⟨lineForm, line_written⟩ := encodeSigned_eq_ok_iff.2 (near (line, column) rfl)
      obtain ⟨columnForm, column_written⟩ := exists_encodeSigned
        (n := range.startColumn.toNat - column.toNat) (by omega) (by omega)
      exact ⟨_, .of_distances line_written column_written⟩

/-- The range of a point that is admitted has a form. -/
theorem exists_rangeForm {context : Context} {point : SequencePoint} (h : context.Admits point) :
    ∃ form, RangeForm context.anchor point.range form := by
  cases visible : point.range with
  | none => exact ⟨_, .hidden⟩
  | some range =>
      have formed := h.range range visible
      have order := UInt32.le_iff_toNat_le.1 formed.startLine_le_endLine
      have lt := formed.endLine_lt
      rw [SequencePoint.valueBound] at lt
      obtain ⟨linesForm, lines_written⟩ := exists_encodeUnsigned
        (n := range.endLine.toNat - range.startLine.toNat) (by omega)
      obtain ⟨columnsForm, columns_written⟩ := exists_columnsForm formed
      obtain ⟨startForm, start_written⟩ := exists_startForm formed (h.start range visible)
      refine ⟨_, .visible (by omega) (by omega) ?_ lines_written columns_written start_written⟩
      rintro ⟨single, none⟩
      have same : range.startLine = range.endLine := UInt32.toNat_inj.1 (by omega)
      have wide := UInt16.lt_iff_toNat_lt.1 (formed.startColumn_lt same)
      omega

/-- **All points that are admitted have a record.** -/
theorem exists_encodePoint {context : Context} {point : SequencePoint} (h : context.Admits point) :
    ∃ form, encodePoint context point = .ok form := by
  obtain ⟨place, place_form⟩ := exists_placeForm h
  obtain ⟨tail, range_form⟩ := exists_rangeForm h
  exact ⟨place ++ tail, Outcome.bind_eq_ok_iff.2 ⟨place, place_form.encodePlace_eq,
    Outcome.bind_eq_ok_iff.2 ⟨tail, encodeRange_eq_ok_iff.2 range_form, rfl⟩⟩⟩

end SymbolHistory.LineTable
