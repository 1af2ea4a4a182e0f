import SymbolHistory.LineTable.WellFormed
import SymbolHistory.Proofs.LineTable.Place

/-!
# Ranges of points

Behind its place the record of a point has the range: the distance of its end from its start, and
then the start, relative to the visible point before. A hidden point has no range, and two zeros
stand in its place.

## Main definitions

* `LineTable.ColumnsForm`, `LineTable.StartForm`, `LineTable.RangeForm` : how ranges are written.
* `LineTable.OnLines` : the lines of a range are valid.

## Main results

* `LineTable.readRange_eq_ok_iff` : reading accepts exactly the forms of ranges on valid lines.
* `LineTable.encodeRange_eq_ok_iff` : writing yields them.
-/

namespace SymbolHistory.LineTable

open Bytes

/-! ### Forms of ranges -/

/-- How the distance of the last column from the first is written. -/
inductive ColumnsForm : (lines : Nat) → (columns : Int) → List UInt8 → Prop where
  /-- On a single line it is not negative. -/
  | single {columns : Nat} {form : List UInt8} (written : encodeUnsigned columns = .ok form) :
      ColumnsForm 0 columns form
  /-- Over several lines it can be. -/
  | several {lines : Nat} {columns : Int} {form : List UInt8} (ne : lines ≠ 0)
      (written : encodeSigned columns = .ok form) : ColumnsForm lines columns form

/-- How the start of a range is written. -/
inductive StartForm : (anchor : Option (UInt32 × UInt16)) → (start : Int × Int) → List UInt8 →
    Prop where
  /-- The first start is written as it is. -/
  | first {line column : Nat} {lineForm columnForm : List UInt8}
      (line_written : encodeUnsigned line = .ok lineForm)
      (column_written : encodeUnsigned column = .ok columnForm) :
      StartForm none (line, column) (lineForm ++ columnForm)
  /-- A later one is written as the distance from the one before. -/
  | later {line : UInt32} {column : UInt16} {lineStep columnStep : Int}
      {lineForm columnForm : List UInt8} (line_written : encodeSigned lineStep = .ok lineForm)
      (column_written : encodeSigned columnStep = .ok columnForm) :
      StartForm (some (line, column)) (line.toNat + lineStep, column.toNat + columnStep)
        (lineForm ++ columnForm)

/-- How the range of a point is written. -/
inductive RangeForm (anchor : Option (UInt32 × UInt16)) : Option SourceRange → List UInt8 →
    Prop where
  /-- A hidden point has two zeros. -/
  | hidden : RangeForm anchor none [0, 0]
  /-- A visible one has the distances of its end from its start, which are not both zero, and then
  the start. -/
  | visible {range : SourceRange} {lines : Nat} {columns : Int}
      {linesForm columnsForm startForm : List UInt8}
      (lines_eq : (range.startLine.toNat : Int) + lines = range.endLine.toNat)
      (columns_eq : (range.startColumn.toNat : Int) + columns = range.endColumn.toNat)
      (wide : ¬(lines = 0 ∧ columns = 0)) (lines_written : encodeUnsigned lines = .ok linesForm)
      (columns_written : ColumnsForm lines columns columnsForm)
      (start_written : StartForm anchor (range.startLine.toNat, range.startColumn.toNat)
        startForm) :
      RangeForm anchor (some range) (linesForm ++ columnsForm ++ startForm)

/-! ### Reading ranges -/

/-- Reading the distance of columns accepts exactly its forms. -/
theorem readColumns_eq_ok_iff {lines : Nat} {columns : Int} {bytes rest : List UInt8} :
    readColumns lines bytes = .ok (columns, rest) ↔
      ∃ form, ColumnsForm lines columns form ∧ bytes = form ++ rest := by
  rw [readColumns]
  by_cases zero : lines = 0
  · subst zero
    rw [if_pos rfl, minimalUnsigned_bind_eq_ok_iff]
    constructor
    · rintro ⟨n, form, mid, written, rfl, h⟩
      obtain ⟨rfl, rfl⟩ := pure_eq_ok_iff.1 h
      exact ⟨form, .single written, rfl⟩
    · rintro ⟨form, written, rfl⟩
      cases written with
      | single written => exact ⟨_, form, rest, written, rfl, pure_eq_ok_iff.2 ⟨rfl, rfl⟩⟩
      | several ne _ => exact absurd rfl ne
  · rw [if_neg zero, minimalSigned_eq_ok_iff]
    constructor
    · rintro ⟨form, written, rfl⟩
      exact ⟨form, .several zero written, rfl⟩
    · rintro ⟨form, written, rfl⟩
      cases written with
      | single _ => exact absurd rfl zero
      | several _ written => exact ⟨form, written, rfl⟩

/-- Reading a start accepts exactly its forms. -/
theorem readStart_eq_ok_iff {anchor : Option (UInt32 × UInt16)} {start : Int × Int}
    {bytes rest : List UInt8} :
    readStart anchor bytes = .ok (start, rest) ↔
      ∃ form, StartForm anchor start form ∧ bytes = form ++ rest := by
  cases anchor with
  | none =>
      rw [readStart, minimalUnsigned_bind_eq_ok_iff]
      constructor
      · rintro ⟨line, lineForm, mid, line_written, rfl, h⟩
        rw [minimalUnsigned_bind_eq_ok_iff] at h
        obtain ⟨column, columnForm, mid, column_written, rfl, h⟩ := h
        obtain ⟨rfl, rfl⟩ := pure_eq_ok_iff.1 h
        exact ⟨_, .first line_written column_written, by rw [List.append_assoc]⟩
      · rintro ⟨form, written, rfl⟩
        cases written with
        | @first line column lineForm columnForm line_written column_written =>
            refine ⟨line, lineForm, columnForm ++ rest, line_written, by rw [List.append_assoc], ?_⟩
            rw [minimalUnsigned_bind_eq_ok_iff]
            exact ⟨column, columnForm, rest, column_written, rfl, rfl⟩
  | some anchor =>
      rcases anchor with ⟨line, column⟩
      rw [readStart, minimalSigned_bind_eq_ok_iff]
      constructor
      · rintro ⟨lineStep, lineForm, mid, line_written, rfl, h⟩
        rw [minimalSigned_bind_eq_ok_iff] at h
        obtain ⟨columnStep, columnForm, mid, column_written, rfl, h⟩ := h
        obtain ⟨rfl, rfl⟩ := pure_eq_ok_iff.1 h
        exact ⟨_, .later line_written column_written, by rw [List.append_assoc]⟩
      · rintro ⟨form, written, rfl⟩
        cases written with
        | @later _ _ lineStep columnStep lineForm columnForm line_written column_written =>
            refine ⟨lineStep, lineForm, columnForm ++ rest, line_written,
              by rw [List.append_assoc], ?_⟩
            rw [minimalSigned_bind_eq_ok_iff]
            exact ⟨columnStep, columnForm, rest, column_written, rfl, rfl⟩

/-- A line is accepted if it is one that a visible point may have. -/
theorem checkLine_eq_ok_iff {line : Int} {checked : UInt32} :
    checkLine line = .ok checked ↔
      line = checked.toNat ∧ checked.toNat < SequencePoint.valueBound ∧
        checked ≠ SequencePoint.hiddenLine := by
  rw [checkLine]
  constructor
  · intro h
    split at h
    · next valid =>
      obtain ⟨nonneg, lt, ne⟩ := valid
      rw [SequencePoint.valueBound] at lt ⊢
      obtain rfl := Except.ok.inj h
      have exact : (UInt32.ofNat line.toNat).toNat = line.toNat :=
        UInt32.toNat_ofNat_of_lt' (by rw [UInt32.size]; omega)
      refine ⟨by omega, by omega, fun hidden => ne ?_⟩
      rw [← hidden, exact]
      omega
    · cases h
  · rintro ⟨rfl, lt, ne⟩
    rw [if_pos, Int.toNat_natCast, UInt32.ofNat_toNat]
    refine ⟨by omega, by omega, fun hidden => ne ?_⟩
    rw [← UInt32.toNat_inj]
    omega

/-- A column is accepted if it fits into 16 bits. -/
theorem checkColumn_eq_ok_iff {column : Int} {checked : UInt16} :
    checkColumn column = .ok checked ↔ column = checked.toNat := by
  rw [checkColumn]
  constructor
  · intro h
    split at h
    · next valid =>
      obtain ⟨nonneg, lt⟩ := valid
      obtain rfl := Except.ok.inj h
      rw [UInt16.toNat_ofNat_of_lt' (by omega)]
      omega
    · cases h
  · rintro rfl
    have := checked.toNat_lt
    rw [if_pos ⟨by omega, by rw [UInt16.size]; omega⟩, Int.toNat_natCast, UInt16.ofNat_toNat]

/-- The lines of a range are ones that a visible point may have. -/
structure OnLines (range : SourceRange) : Prop where
  /-- Lines are below 2^29. -/
  endLine_lt : range.endLine.toNat < SequencePoint.valueBound
  /-- The first line is not the hidden line. -/
  startLine_ne : range.startLine ≠ SequencePoint.hiddenLine
  /-- The last line is not the hidden line. -/
  endLine_ne : range.endLine ≠ SequencePoint.hiddenLine

/-- A range is accepted if its lines are ones that a visible point may have. -/
theorem checkRange_eq_ok_iff {line column : Int} {lines : Nat} {columns : Int}
    {range : SourceRange} :
    checkRange (line, column) lines columns = .ok range ↔
      line = range.startLine.toNat ∧ column = range.startColumn.toNat ∧
        line + lines = range.endLine.toNat ∧ column + columns = range.endColumn.toNat ∧
        OnLines range := by
  rw [checkRange]
  dsimp only
  constructor
  · intro h
    obtain ⟨startLine, first, h⟩ := Outcome.bind_eq_ok_iff.1 h
    obtain ⟨endLine, last, h⟩ := Outcome.bind_eq_ok_iff.1 h
    obtain ⟨startColumn, left, h⟩ := Outcome.bind_eq_ok_iff.1 h
    obtain ⟨endColumn, right, h⟩ := Outcome.bind_eq_ok_iff.1 h
    obtain rfl := Outcome.pure_eq_ok_iff.1 h
    obtain ⟨first, -, first_ne⟩ := checkLine_eq_ok_iff.1 first
    obtain ⟨last, lt, last_ne⟩ := checkLine_eq_ok_iff.1 last
    exact ⟨first, checkColumn_eq_ok_iff.1 left, last, checkColumn_eq_ok_iff.1 right, lt, first_ne,
      last_ne⟩
  · rintro ⟨first, left, last, right, lt, first_ne, last_ne⟩
    have first_lt : range.startLine.toNat < SequencePoint.valueBound := by omega
    exact Outcome.bind_eq_ok_iff.2 ⟨_, checkLine_eq_ok_iff.2 ⟨first, first_lt, first_ne⟩,
      Outcome.bind_eq_ok_iff.2 ⟨_, checkLine_eq_ok_iff.2 ⟨last, lt, last_ne⟩,
        Outcome.bind_eq_ok_iff.2 ⟨_, checkColumn_eq_ok_iff.2 left,
          Outcome.bind_eq_ok_iff.2 ⟨_, checkColumn_eq_ok_iff.2 right, rfl⟩⟩⟩⟩

/-- The distances of two zeros have two zeros as their form. -/
theorem columnsForm_zero_iff {form : List UInt8} : ColumnsForm 0 0 form ↔ form = [0] := by
  constructor
  · intro h
    generalize zero : (0 : Int) = columns at h
    cases h with
    | @single n _ written =>
        obtain rfl : n = 0 := by omega
        exact (Except.ok.inj (encodeUnsigned_zero.symm.trans written)).symm
    | several ne _ => exact absurd rfl ne
  · rintro rfl
    exact .single encodeUnsigned_zero

/-- **Reading a range accepts exactly its forms**, if its lines are valid. -/
theorem readRange_eq_ok_iff {anchor : Option (UInt32 × UInt16)} {range : Option SourceRange}
    {bytes rest : List UInt8} :
    readRange anchor bytes = .ok (range, rest) ↔
      (∀ visible ∈ range, OnLines visible) ∧
        ∃ form, RangeForm anchor range form ∧ bytes = form ++ rest := by
  rw [readRange, minimalUnsigned_bind_eq_ok_iff]
  constructor
  · rintro ⟨lines, linesForm, mid, lines_written, rfl, h⟩
    rw [bind_eq_ok_iff] at h
    obtain ⟨columns, mid, read, h⟩ := h
    obtain ⟨columnsForm, columns_written, rfl⟩ := readColumns_eq_ok_iff.1 read
    by_cases zero : lines = 0 ∧ columns = 0
    · rw [if_pos zero] at h
      obtain ⟨rfl, rfl⟩ := pure_eq_ok_iff.1 h
      obtain ⟨rfl, rfl⟩ := zero
      obtain rfl := Except.ok.inj lines_written
      obtain rfl := columnsForm_zero_iff.1 columns_written
      exact ⟨fun _ visible => absurd visible (Option.not_mem_none _), _, .hidden, rfl⟩
    · rw [if_neg zero, bind_eq_ok_iff] at h
      obtain ⟨⟨line, column⟩, mid, read, h⟩ := h
      obtain ⟨startForm, start_written, rfl⟩ := readStart_eq_ok_iff.1 read
      cases checked : checkRange (line, column) lines columns with
      | error e =>
          simp only [checked] at h
          cases h
      | ok visible =>
          simp only [checked] at h
          obtain ⟨rfl, rfl⟩ := pure_eq_ok_iff.1 h
          obtain ⟨rfl, rfl, last, right, valid⟩ := checkRange_eq_ok_iff.1 checked
          refine ⟨?_, _, .visible last right zero lines_written columns_written start_written, ?_⟩
          · rintro _ ⟨⟩
            exact valid
          · simp only [List.append_assoc]
  · rintro ⟨valid, form, written, rfl⟩
    cases written with
    | hidden =>
        refine ⟨0, [0], [0] ++ rest, encodeUnsigned_zero, rfl, ?_⟩
        refine bind_eq_ok_iff.2 ⟨0, rest,
          readColumns_eq_ok_iff.2 ⟨[0], columnsForm_zero_iff.2 rfl, rfl⟩, ?_⟩
        rw [if_pos ⟨rfl, rfl⟩]
        rfl
    | @visible range lines columns linesForm columnsForm startForm last right wide lines_written
        columns_written start_written =>
        refine ⟨lines, linesForm, columnsForm ++ (startForm ++ rest), lines_written,
          by simp only [List.append_assoc], ?_⟩
        refine bind_eq_ok_iff.2 ⟨columns, startForm ++ rest,
          readColumns_eq_ok_iff.2 ⟨columnsForm, columns_written, rfl⟩, ?_⟩
        rw [if_neg wide]
        refine bind_eq_ok_iff.2 ⟨_, rest, readStart_eq_ok_iff.2 ⟨startForm, start_written, rfl⟩, ?_⟩
        have checked := checkRange_eq_ok_iff.2 ⟨rfl, rfl, last, right, valid range rfl⟩
        simp only [checked]
        rfl

/-! ### Writing ranges -/

/-- What is written for the end of a range are the distances from its start, not both zero. -/
theorem encodeSpan_eq_ok_iff {range : SourceRange} {form : List UInt8} :
    encodeSpan range = .ok form ↔
      ∃ lines columns linesForm columnsForm,
        (range.startLine.toNat : Int) + (lines : Nat) = range.endLine.toNat ∧
        (range.startColumn.toNat : Int) + columns = range.endColumn.toNat ∧
        ¬(lines = 0 ∧ columns = 0) ∧ encodeUnsigned lines = .ok linesForm ∧
        ColumnsForm lines columns columnsForm ∧ form = linesForm ++ columnsForm := by
  rw [encodeSpan]
  constructor
  · intro h
    by_cases order : range.endLine < range.startLine
    · rw [if_pos order] at h
      cases h
    · rw [if_neg order] at h
      rw [UInt32.lt_iff_toNat_lt] at order
      dsimp only at h
      obtain ⟨linesForm, lines_written, h⟩ := Outcome.bind_eq_ok_iff.1 h
      by_cases single : range.endLine.toNat - range.startLine.toNat = 0
      · rw [if_pos single] at h
        by_cases wide : range.startColumn < range.endColumn
        · rw [if_pos wide, Outcome.bind_eq_ok_iff] at h
          obtain ⟨columnsForm, columns_written, h⟩ := h
          obtain rfl := Outcome.pure_eq_ok_iff.1 h
          rw [UInt16.lt_iff_toNat_lt] at wide
          refine ⟨_, (range.endColumn.toNat - range.startColumn.toNat : Nat), linesForm,
            columnsForm, by omega, by omega, by omega, lines_written, ?_, rfl⟩
          rw [single]
          exact .single columns_written
        · rw [if_neg wide] at h
          cases h
      · rw [if_neg single, Outcome.bind_eq_ok_iff] at h
        obtain ⟨columnsForm, columns_written, h⟩ := h
        obtain rfl := Outcome.pure_eq_ok_iff.1 h
        exact ⟨_, _, linesForm, columnsForm, by omega, by omega, by omega, lines_written,
          .several single columns_written, rfl⟩
  · rintro ⟨lines, columns, linesForm, columnsForm, last, right, wide, lines_written,
      columns_written, rfl⟩
    have order : ¬range.endLine < range.startLine := by
      rw [UInt32.lt_iff_toNat_lt]
      omega
    have lines_eq : range.endLine.toNat - range.startLine.toNat = lines := by omega
    rw [if_neg order]
    dsimp only
    rw [lines_eq]
    refine Outcome.bind_eq_ok_iff.2 ⟨linesForm, lines_written, ?_⟩
    cases columns_written with
    | @single columns _ written =>
        have right_lt : range.startColumn < range.endColumn :=
          UInt16.lt_iff_toNat_lt.2 (by omega)
        rw [if_pos rfl, if_pos right_lt,
          show range.endColumn.toNat - range.startColumn.toNat = columns by omega]
        exact Outcome.bind_eq_ok_iff.2 ⟨columnsForm, written, rfl⟩
    | several ne written =>
        rw [if_neg ne,
          show (range.endColumn.toNat - range.startColumn.toNat : Int) = columns by omega]
        exact Outcome.bind_eq_ok_iff.2 ⟨columnsForm, written, rfl⟩

theorem StartForm.of_distances {range : SourceRange} {line : UInt32} {column : UInt16}
    {lineForm columnForm : List UInt8}
    (line_written : encodeSigned (range.startLine.toNat - line.toNat) = .ok lineForm)
    (column_written : encodeSigned (range.startColumn.toNat - column.toNat) = .ok columnForm) :
    StartForm (some (line, column)) (range.startLine.toNat, range.startColumn.toNat)
      (lineForm ++ columnForm) := by
  have later : StartForm (some (line, column)) _ (lineForm ++ columnForm) :=
    .later line_written column_written
  have line_eq : (line.toNat : Int) + (range.startLine.toNat - line.toNat) =
      range.startLine.toNat := by omega
  have column_eq : (column.toNat : Int) + (range.startColumn.toNat - column.toNat) =
      range.startColumn.toNat := by omega
  rwa [line_eq, column_eq] at later

/-- What is written for the start of a range is a form of it, and every form is written. -/
theorem encodeStart_eq_ok_iff {anchor : Option (UInt32 × UInt16)} {range : SourceRange}
    {form : List UInt8} :
    encodeStart anchor range = .ok form ↔
      StartForm anchor (range.startLine.toNat, range.startColumn.toNat) form := by
  cases anchor with
  | none =>
      rw [encodeStart]
      constructor
      · intro h
        obtain ⟨lineForm, line_written, h⟩ := Outcome.bind_eq_ok_iff.1 h
        obtain ⟨columnForm, column_written, h⟩ := Outcome.bind_eq_ok_iff.1 h
        obtain rfl := Outcome.pure_eq_ok_iff.1 h
        exact .first line_written column_written
      · intro h
        generalize first : ((range.startLine.toNat : Int), (range.startColumn.toNat : Int)) = start
          at h
        cases h with
        | @first line column lineForm columnForm line_written column_written =>
            obtain ⟨line_eq, column_eq⟩ := Prod.mk.inj first
            obtain rfl : range.startLine.toNat = line := by omega
            obtain rfl : range.startColumn.toNat = column := by omega
            exact Outcome.bind_eq_ok_iff.2 ⟨lineForm, line_written,
              Outcome.bind_eq_ok_iff.2 ⟨columnForm, column_written, rfl⟩⟩
  | some anchor =>
      rcases anchor with ⟨line, column⟩
      rw [encodeStart]
      constructor
      · intro h
        split at h
        · obtain ⟨lineForm, line_written, h⟩ := Outcome.bind_eq_ok_iff.1 h
          obtain ⟨columnForm, column_written, h⟩ := Outcome.bind_eq_ok_iff.1 h
          obtain rfl := Outcome.pure_eq_ok_iff.1 h
          exact StartForm.of_distances line_written column_written
        · cases h
      · intro h
        generalize first : ((range.startLine.toNat : Int), (range.startColumn.toNat : Int)) = start
          at h
        cases h with
        | @later _ _ lineStep columnStep lineForm columnForm line_written column_written =>
            obtain ⟨line_eq, column_eq⟩ := Prod.mk.inj first
            obtain ⟨lower, upper⟩ := encodeSigned_eq_ok_iff.1 ⟨lineForm, line_written⟩
            rw [Width.half] at lower upper
            rw [show (range.startLine.toNat - line.toNat : Int) = lineStep by omega,
              show (range.startColumn.toNat - column.toNat : Int) = columnStep by omega,
              if_pos ⟨by omega, by omega⟩]
            exact Outcome.bind_eq_ok_iff.2 ⟨lineForm, line_written,
              Outcome.bind_eq_ok_iff.2 ⟨columnForm, column_written, rfl⟩⟩

/-- **What is written for a range is a form of it, and every form is written.** -/
theorem encodeRange_eq_ok_iff {anchor : Option (UInt32 × UInt16)} {range : Option SourceRange}
    {form : List UInt8} :
    encodeRange anchor range = .ok form ↔ RangeForm anchor range form := by
  cases range with
  | none =>
      rw [encodeRange]
      constructor
      · intro h
        obtain rfl := Except.ok.inj h
        exact .hidden
      · intro h
        cases h with
        | hidden => rfl
  | some range =>
      rw [encodeRange, Outcome.bind_eq_ok_iff]
      constructor
      · rintro ⟨span, span_written, h⟩
        obtain ⟨startForm, start_written, h⟩ := Outcome.bind_eq_ok_iff.1 h
        obtain rfl := Outcome.pure_eq_ok_iff.1 h
        obtain ⟨lines, columns, linesForm, columnsForm, last, right, wide, lines_written,
          columns_written, rfl⟩ := encodeSpan_eq_ok_iff.1 span_written
        exact .visible last right wide lines_written columns_written
          (encodeStart_eq_ok_iff.1 start_written)
      · intro h
        cases h with
        | @visible _ lines columns linesForm columnsForm startForm last right wide lines_written
            columns_written start_written =>
            exact ⟨linesForm ++ columnsForm,
              encodeSpan_eq_ok_iff.2 ⟨lines, columns, linesForm, columnsForm, last, right, wide,
                lines_written, columns_written, rfl⟩,
              Outcome.bind_eq_ok_iff.2 ⟨startForm, encodeStart_eq_ok_iff.2 start_written, rfl⟩⟩

end SymbolHistory.LineTable
