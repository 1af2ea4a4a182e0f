import SymbolHistory.Proofs.LineTable.RoundTrip
import Mathlib.Data.List.TakeWhile

/-!
# Reading back what was written

Writing checks the numbers that it writes. The code offsets and lines behind the first are written
as distances, so a distance can be written although the offset or the line that it leads to has no
place in a line table; and nobody looks at an initial document of row 0. Reading checks what the
distances come to. So a line table that was written is either read back as it was, or refused for
the first thing that writing has overlooked, and never read as another one.

## Main definitions

* `SequencePoint.overlooked`, `LineTable.overlooked` : the first thing that is wrong with a point or
  a line table and that is written all the same.
* `Outcome.FailsMalformed` : an outcome that fails only because a value has no form.

## Main results

* `LineTable.readPoints_of_encodePoints` : points are read back up to the first that is refused.
* `LineTable.encode_refused_or_read` : what writing a line table and reading it back comes to.
* `LineTable.not_forall_decode_of_encode` : it does not always come to the line table.
-/

namespace SymbolHistory

namespace Outcome

/-- A value, if nothing is wrong with it. -/
def checked {α : Type} (defect : Option Defect) (a : α) : Except Error α :=
  match defect with
  | none => .ok a
  | some defect => .error (.malformed defect)

/-- An outcome that fails only because a value has no form. -/
def FailsMalformed {α : Type} (outcome : Except Error α) : Prop :=
  ∀ e, outcome = .error e → ∃ defect, e = .malformed defect

variable {α β : Type}

/-- A result is no failure. -/
theorem failsMalformed_ok (a : α) : FailsMalformed (.ok a : Except Error α) := nofun

/-- A defect of the format is one that is malformed. -/
theorem failsMalformed_error (defect : Defect) :
    FailsMalformed (.error (.malformed defect) : Except Error α) := by
  rintro _ ⟨⟩
  exact ⟨defect, rfl⟩

/-- Two steps one after the other fail as one of them does. -/
theorem FailsMalformed.bind {first : Except Error α} {next : α → Except Error β}
    (h₁ : FailsMalformed first) (h₂ : ∀ a, FailsMalformed (next a)) :
    FailsMalformed (first >>= next) := by
  cases first with
  | error e =>
      rintro _ ⟨⟩
      exact h₁ e rfl
  | ok a => exact h₂ a

/-- A choice between outcomes fails as one of them does. -/
theorem FailsMalformed.ite {c : Prop} [Decidable c] {first second : Except Error α}
    (h₁ : FailsMalformed first) (h₂ : FailsMalformed second) :
    FailsMalformed (if c then first else second) := by
  split <;> assumption

end Outcome

/-- What is wrong with a line of a visible point. -/
def SourceRange.lineDefect (line : UInt32) : Option Defect :=
  if line.toNat < SequencePoint.valueBound ∧ line ≠ SequencePoint.hiddenLine then none
  else some (.lineRange line.toNat)

/-- What is wrong with the lines of a range, the first one looked at before the last one. -/
def SourceRange.overlooked (range : SourceRange) : Option Defect :=
  (lineDefect range.startLine).or (lineDefect range.endLine)

/-- The first thing that is wrong with a point and that is written all the same: its code offset or
one of its lines is out of range. -/
def SequencePoint.overlooked (point : SequencePoint) : Option Defect :=
  if point.codeOffset.toNat < valueBound then point.range.bind (·.overlooked)
  else some (.codeOffsetRange point.codeOffset.toNat)

namespace LineTable

open Bytes

/-- What is wrong with the initial document of a header. -/
def Header.overlooked (header : Header) : Option Defect :=
  if header.initialDocument = 0 then
    some (if header.documentInHeader then .initialDocumentZero else .documentColumnZero)
  else
    none

/-- The first thing that is wrong with a line table and that is written all the same. -/
def overlooked (table : LineTable) : Option Defect :=
  table.toHeader.overlooked.or (table.points.findSome? (·.overlooked))

/-! ### Records -/

/-- A line in 32 bits is checked for its range. -/
theorem checkLine_toNat (line : UInt32) :
    checkLine line.toNat = Outcome.checked (SourceRange.lineDefect line) line := by
  rw [SourceRange.lineDefect]
  split
  · next valid => exact checkLine_eq_ok_iff.2 ⟨rfl, valid⟩
  · next stray =>
    refine if_neg fun valid => stray ⟨by omega, fun hidden => valid.2.2 ?_⟩
    rw [hidden]

/-- The lines of a range are checked, the first one before the last one. -/
theorem checkRange_of_eq {range : SourceRange} {lines : Nat} {columns : Int}
    (last : (range.startLine.toNat : Int) + lines = range.endLine.toNat)
    (right : (range.startColumn.toNat : Int) + columns = range.endColumn.toNat) :
    checkRange (range.startLine.toNat, range.startColumn.toNat) lines columns =
      Outcome.checked range.overlooked range := by
  rw [checkRange, SourceRange.overlooked]
  dsimp only
  rw [last, right, checkLine_toNat, checkLine_toNat, checkColumn_eq_ok_iff.2 rfl,
    checkColumn_eq_ok_iff.2 rfl]
  cases SourceRange.lineDefect range.startLine with
  | some defect => rfl
  | none =>
      cases SourceRange.lineDefect range.endLine with
      | some defect => rfl
      | none => rfl

/-- A form of a range is read as the range, unless one of its lines is out of range. -/
theorem RangeForm.read {anchor : Option (UInt32 × UInt16)} {range : Option SourceRange}
    {form : List UInt8} (h : RangeForm anchor range form) (rest : List UInt8) :
    readRange anchor (form ++ rest) =
      Outcome.checked (range.bind (·.overlooked)) (range, rest) := by
  cases h with
  | hidden =>
      exact readRange_eq_ok_iff.2 ⟨fun _ visible => absurd visible (Option.not_mem_none _), _,
        .hidden, rfl⟩
  | @visible range lines columns linesForm columnsForm startForm last right wide lines_written
      columns_written start_written =>
      rw [readRange, List.append_assoc, List.append_assoc,
        bind_of_ok (minimalUnsigned_eq_ok_iff.2 ⟨linesForm, lines_written, rfl⟩),
        bind_of_ok (readColumns_eq_ok_iff.2 ⟨columnsForm, columns_written, rfl⟩), if_neg wide,
        bind_of_ok (readStart_eq_ok_iff.2 ⟨startForm, start_written, rfl⟩),
        checkRange_of_eq last right, Option.bind_some]
      cases range.overlooked with
      | none => rfl
      | some defect => rfl

/-- **A record is read as the point that it was written for**, unless something was overlooked. -/
theorem readPoint_of_encodePoint {context : Context} {point : SequencePoint} {form : List UInt8}
    (written : encodePoint context point = .ok form) (rest : List UInt8) :
    readPoint context (form ++ rest) = Outcome.checked point.overlooked (point, rest) := by
  obtain ⟨place, place_written, written⟩ := Outcome.bind_eq_ok_iff.1 written
  obtain ⟨tail, range_written, written⟩ := Outcome.bind_eq_ok_iff.1 written
  obtain rfl := Outcome.pure_eq_ok_iff.1 written
  have range_read := (encodeRange_eq_ok_iff.1 range_written).read rest
  rw [readPoint, List.append_assoc,
    bind_of_ok ((placeForm_of_encodePlace place_written).read (tail ++ rest)),
    SequencePoint.overlooked]
  dsimp only
  split
  · cases stray : (point.range.bind (·.overlooked)) with
    | none =>
        rw [stray] at range_read
        rw [bind_of_ok range_read, UInt32.ofNat_toNat]
        rfl
    | some defect =>
        rw [stray] at range_read
        rw [bind_of_error range_read]
        rfl
  · rfl

/-- A record is not empty: reading takes bytes off it. -/
theorem append_ne_nil_of_encodePoint {context : Context} {point : SequencePoint}
    {form : List UInt8} (written : encodePoint context point = .ok form) (rest : List UInt8) :
    form ++ rest ≠ [] := by
  obtain ⟨place, place_written, written⟩ := Outcome.bind_eq_ok_iff.1 written
  obtain ⟨tail, -, written⟩ := Outcome.bind_eq_ok_iff.1 written
  obtain rfl := Outcome.pure_eq_ok_iff.1 written
  have consumed := consumes_readPlace context _ _ _
    ((placeForm_of_encodePlace place_written).read (tail ++ rest))
  rw [← List.append_assoc] at consumed
  exact List.ne_nil_of_length_pos (by omega)

/-- **Points are read back up to the first one that has something wrong with it**, and it is refused
for that. -/
theorem readPoints_of_encodePoints {context : Context} {points : List SequencePoint}
    {bytes : List UInt8} (written : encodePoints context points = .ok bytes) :
    readPoints context bytes =
      (points.takeWhile (·.overlooked.isNone),
        (points.findSome? (·.overlooked)).map Error.malformed) := by
  induction points generalizing context bytes with
  | nil =>
      obtain rfl := Except.ok.inj written
      rw [readPoints]
      rfl
  | cons point points ih =>
      obtain ⟨form, first, written⟩ := Outcome.bind_eq_ok_iff.1 written
      obtain ⟨rest, others, written⟩ := Outcome.bind_eq_ok_iff.1 written
      obtain rfl := Outcome.pure_eq_ok_iff.1 written
      have read := readPoint_of_encodePoint first rest
      cases stray : point.overlooked with
      | none =>
          rw [stray] at read
          rw [readPoints_of_ok read, ih others, List.takeWhile_cons_of_pos (by rw [stray]; rfl),
            List.findSome?_cons, stray]
      | some defect =>
          rw [stray] at read
          rw [readPoints_of_error (append_ne_nil_of_encodePoint first rest) read,
            List.takeWhile_cons_of_neg (by rw [stray]; exact Bool.false_ne_true),
            List.findSome?_cons, stray]
          rfl

/-! ### Line tables -/

/-- A header is read as it was written, unless its document is row 0. -/
theorem readHeader_of_encodeHeader {header : Header} {form : List UInt8}
    (written : encodeHeader header = .ok form) (rest : List UInt8) :
    readHeader header.column (form ++ rest) =
      Outcome.checked header.overlooked (header, rest) := by
  rcases header with ⟨signature, document, inHeader⟩
  obtain ⟨signatureForm, signed, ⟨rfl, rfl⟩ | ⟨rfl, record, announced, rfl⟩⟩ :=
    encodeHeader_eq_ok_iff.1 written
  · rw [readHeader, bind_of_ok (minimalUnsigned_eq_ok_iff.2 ⟨_, signed, rfl⟩),
      UInt32.ofNat_toNat, Header.overlooked]
    change (if document = 0 then _ else _ : Reader Header) rest = _
    by_cases nil : document = 0
    · rw [if_pos nil, if_pos nil]
      rfl
    · rw [if_neg nil, if_neg nil]
      rfl
  · rw [readHeader, List.append_assoc,
      bind_of_ok (minimalUnsigned_eq_ok_iff.2 ⟨_, signed, rfl⟩),
      UInt32.ofNat_toNat, Header.overlooked]
    refine (bind_of_ok (minimalUnsigned_eq_ok_iff.2 ⟨record, announced, rfl⟩)).trans ?_
    dsimp only
    by_cases nil : document = 0
    · subst nil
      rfl
    · have document_ne : document.toNat ≠ 0 := fun zero => nil (UInt32.toNat_inj.1 zero)
      rw [if_neg document_ne, if_neg nil, UInt32.ofNat_toNat]
      rfl

/-- What reading makes of a line table that was written: nothing was overlooked exactly if it is
well-formed, and then it is read back. -/
theorem decode_of_encode {table : LineTable} {bytes : List UInt8}
    (written : encode table = .ok bytes) :
    decode bytes table.column = Outcome.checked table.overlooked table ∧
      (table.overlooked = none ↔ table.WellFormed) := by
  have read : decode bytes table.column = Outcome.checked table.overlooked table := by
    obtain ⟨form, header_written, written⟩ := Outcome.bind_eq_ok_iff.1 written
    obtain ⟨rest, points_written, written⟩ := Outcome.bind_eq_ok_iff.1 written
    obtain rfl := Outcome.pure_eq_ok_iff.1 written
    rw [decode, overlooked, readHeader_of_encodeHeader header_written]
    cases table.toHeader.overlooked with
    | some defect => rfl
    | none =>
        dsimp only [Outcome.checked]
        rw [readPoints_of_encodePoints points_written, Option.none_or]
        cases stray : table.points.findSome? (·.overlooked) with
        | some defect => rfl
        | none =>
            rw [List.takeWhile_eq_self_iff.2 fun point mem =>
              Option.isNone_iff_eq_none.2 (List.findSome?_eq_none_iff.1 stray point mem)]
            rfl
  refine ⟨read, fun good => ?_, fun formed => ?_⟩
  · rw [good] at read
    exact (decode_eq_ok_iff.1 read).1
  · rw [decode_eq_ok_iff.2 ⟨formed, rfl, written⟩] at read
    cases stray : table.overlooked with
    | none => rfl
    | some defect =>
        rw [stray] at read
        cases read

/-! ### What writing refuses -/

/-- A number that is too large has no form. -/
theorem failsMalformed_encodeUnsigned (n : Nat) : Outcome.FailsMalformed (encodeUnsigned n) := by
  unfold encodeUnsigned
  split
  · exact Outcome.failsMalformed_ok _
  · exact Outcome.failsMalformed_error _

/-- Nor has a signed number that takes too many bits. -/
theorem failsMalformed_encodeSigned (n : Int) : Outcome.FailsMalformed (encodeSigned n) := by
  unfold encodeSigned
  split
  · exact Outcome.failsMalformed_ok _
  · exact Outcome.failsMalformed_error _

/-- A place that cannot be written is malformed. -/
theorem failsMalformed_encodePlace (context : Context) (point : SequencePoint) :
    Outcome.FailsMalformed (encodePlace context point) := by
  unfold encodePlace
  split
  · exact .ite (failsMalformed_encodeUnsigned _) (Outcome.failsMalformed_error _)
  · next previous _ =>
    have distance (change : List UInt8) : Outcome.FailsMalformed
        (if previous < point.codeOffset then do
            return change ++ (← encodeUnsigned (point.codeOffset.toNat - previous.toNat))
          else throw (.malformed
            (.codeOffsetOrder point.codeOffset.toNat previous.toNat))) := by
      refine .ite ?_ (Outcome.failsMalformed_error _)
      exact (failsMalformed_encodeUnsigned _).bind fun _ => Outcome.failsMalformed_ok _
    refine .ite ((Outcome.failsMalformed_ok _).bind distance)
      (.ite ((Outcome.failsMalformed_error _).bind distance) (.bind ?_ distance))
    rw [map_eq_pure_bind]
    exact (failsMalformed_encodeUnsigned _).bind fun _ => Outcome.failsMalformed_ok _

/-- So is the extent of a range. -/
theorem failsMalformed_encodeSpan (range : SourceRange) :
    Outcome.FailsMalformed (encodeSpan range) := by
  refine .ite (Outcome.failsMalformed_error _) ?_
  refine (failsMalformed_encodeUnsigned _).bind fun lines => ?_
  refine .ite (.ite ?_ (Outcome.failsMalformed_error _)) ?_
  · exact (failsMalformed_encodeUnsigned _).bind fun _ => Outcome.failsMalformed_ok _
  · exact (failsMalformed_encodeSigned _).bind fun _ => Outcome.failsMalformed_ok _

/-- So is the start of a range. -/
theorem failsMalformed_encodeStart (anchor : Option (UInt32 × UInt16)) (range : SourceRange) :
    Outcome.FailsMalformed (encodeStart anchor range) := by
  rcases anchor with _ | ⟨line, column⟩
  · exact (failsMalformed_encodeUnsigned _).bind fun _ =>
      (failsMalformed_encodeUnsigned _).bind fun _ => Outcome.failsMalformed_ok _
  · refine .ite ?_ (Outcome.failsMalformed_error _)
    exact (failsMalformed_encodeSigned _).bind fun _ =>
      (failsMalformed_encodeSigned _).bind fun _ => Outcome.failsMalformed_ok _

/-- So nothing but malformed points keeps a line table from being written. -/
theorem failsMalformed_encodePoints (context : Context) (points : List SequencePoint) :
    Outcome.FailsMalformed (encodePoints context points) := by
  induction points generalizing context with
  | nil => exact Outcome.failsMalformed_ok _
  | cons point points ih =>
      refine .bind ?_ fun record => (ih _).bind fun _ => Outcome.failsMalformed_ok _
      refine (failsMalformed_encodePlace context point).bind fun place => .bind ?_ fun _ =>
        Outcome.failsMalformed_ok _
      cases point.range with
      | none => exact Outcome.failsMalformed_ok _
      | some range =>
          exact (failsMalformed_encodeSpan range).bind fun _ =>
            (failsMalformed_encodeStart _ range).bind fun _ => Outcome.failsMalformed_ok _

/-- Writing a line table fails only because a value has no form. -/
theorem failsMalformed_encode (table : LineTable) : Outcome.FailsMalformed (encode table) := by
  refine .bind ?_ fun header => (failsMalformed_encodePoints _ _).bind fun _ =>
    Outcome.failsMalformed_ok _
  refine (failsMalformed_encodeUnsigned _).bind fun signature => ?_
  refine .ite ?_ (Outcome.failsMalformed_ok _)
  exact (failsMalformed_encodeUnsigned _).bind fun _ => Outcome.failsMalformed_ok _

/-- **What writing a line table and reading it back comes to.** Writing refuses it, or it is read
back as it was, or reading refuses it for the first thing that writing has overlooked. It is read
back exactly if it is well-formed. -/
theorem encode_refused_or_read (table : LineTable) :
    (∃ defect, encode table = .error (.malformed defect) ∧ ¬table.WellFormed) ∨
      ∃ bytes, encode table = .ok bytes ∧
        decode bytes (if table.documentInHeader then none else some table.initialDocument) =
          Outcome.checked table.overlooked table ∧
        (table.overlooked = none ↔ table.WellFormed) := by
  cases written : encode table with
  | ok bytes => exact .inr ⟨bytes, rfl, decode_of_encode written⟩
  | error e =>
      obtain ⟨defect, rfl⟩ := failsMalformed_encode table e written
      refine .inl ⟨defect, rfl, fun formed => ?_⟩
      obtain ⟨bytes, written'⟩ := formed.exists_encode
      cases written.symm.trans written'

/-- A line table with a point at the last code offset that there is, and another one behind it. -/
def farOffset : LineTable where
  localSignature := 0
  initialDocument := 1
  documentInHeader := false
  points := [⟨0x1FFFFFFF, 1, some ⟨1, 1, 1, 2⟩⟩, ⟨0x20000000, 1, some ⟨2, 1, 2, 2⟩⟩]

/-- The distance of 1 is written, but it leads to an offset that reading refuses. So not everything
that is written can be read. -/
theorem not_forall_decode_of_encode :
    ¬∀ (table : LineTable) (bytes : List UInt8), encode table = .ok bytes →
      decode bytes (if table.documentInHeader then none else some table.initialDocument) =
        .ok table := by
  intro all
  have read := all farOffset [0, 0xDF, 0xFF, 0xFF, 0xFF, 0, 1, 1, 1, 1, 0, 1, 2, 0]
    (by decide +kernel)
  have refused : decode [0, 0xDF, 0xFF, 0xFF, 0xFF, 0, 1, 1, 1, 1, 0, 1, 2, 0]
      (if farOffset.documentInHeader then none else some farOffset.initialDocument) =
        .error (.malformed (.codeOffsetRange 0x20000000)) := by decide +kernel
  cases refused.symm.trans read

end LineTable

end SymbolHistory
