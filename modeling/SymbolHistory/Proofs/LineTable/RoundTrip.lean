import SymbolHistory.Proofs.LineTable.Admission

/-!
# Line tables have one written form

Reading a line table accepts a list of bytes exactly if it is what writing some well-formed line
table produces, and then it yields that line table.

## Main definitions

* `LineTable.Header.column` : the document column of a method's row, next to a header.

## Main results

* `LineTable.decode_eq_ok_iff` : what reading accepts, and what it yields.
* `LineTable.encode_of_decode` : writing undoes reading, so a line table is read from one list of
  bytes only.
* `LineTable.wellFormed_iff_exists_decode` : exactly the well-formed line tables can be read, and
  reading undoes writing.
-/

namespace SymbolHistory.LineTable

open Bytes

/-! ### Points -/

theorem readPoints_of_error {context : Context} {bytes : List UInt8} {e : Error}
    (some : bytes ≠ []) (h : readPoint context bytes = .error e) :
    readPoints context bytes = ([], Option.some e) := by
  rcases bytes with _ | ⟨b, bytes⟩
  · exact absurd rfl some
  · rw [readPoints]
    split
    · next e' failed =>
      obtain rfl := Except.error.inj (failed.symm.trans h)
      rfl
    · next point rest read => cases read.symm.trans h

/-- One point is read, and then the others. -/
theorem readPoints_of_ok {context : Context} {bytes rest : List UInt8} {point : SequencePoint}
    (h : readPoint context bytes = .ok (point, rest)) :
    readPoints context bytes =
      (point :: (readPoints (context.after point) rest).1,
        (readPoints (context.after point) rest).2) := by
  rcases bytes with _ | ⟨b, bytes⟩
  · have consumed := consumes_readPoint context _ _ _ h
    rw [List.length_nil] at consumed
    omega
  · rw [readPoints]
    split
    · next e failed => cases failed.symm.trans h
    · next point' rest' read =>
      obtain ⟨rfl, rfl⟩ := Prod.mk.inj (Except.ok.inj (read.symm.trans h))
      rfl

/-- Points that are read are admitted in turn, and writing them yields what was read. -/
theorem encodePoints_of_readPoints {context : Context} {bytes : List UInt8}
    {points : List SequencePoint} (h : readPoints context bytes = (points, none)) :
    Admitted context points ∧ encodePoints context points = .ok bytes := by
  induction hn : bytes.length using Nat.strongRecOn generalizing context bytes points with
  | ind n ih =>
      by_cases empty : bytes = []
      · subst empty
        rw [readPoints] at h
        obtain rfl := (Prod.mk.inj h).1
        exact ⟨trivial, rfl⟩
      · cases read : readPoint context bytes with
        | error e =>
            rw [readPoints_of_error empty read] at h
            cases (Prod.mk.inj h).2
        | ok result =>
            rcases result with ⟨point, rest⟩
            have consumed := consumes_readPoint context _ _ _ read
            rw [readPoints_of_ok read] at h
            obtain ⟨rfl, done⟩ := Prod.mk.inj h
            obtain ⟨admitted, form, written, rfl⟩ := readPoint_eq_ok_iff.1 read
            obtain ⟨others, more⟩ := ih rest.length (by omega) (Prod.ext rfl done) rfl
            refine ⟨⟨admitted, others⟩, ?_⟩
            exact Outcome.bind_eq_ok_iff.2 ⟨form, written,
              Outcome.bind_eq_ok_iff.2 ⟨rest, more, rfl⟩⟩

/-- Points that are admitted in turn have a written form, and are read from it. -/
theorem exists_encodePoints {context : Context} {points : List SequencePoint}
    (h : Admitted context points) :
    ∃ bytes, encodePoints context points = .ok bytes ∧
      readPoints context bytes = (points, none) := by
  induction points generalizing context with
  | nil => exact ⟨[], rfl, by rw [readPoints]⟩
  | cons point points ih =>
      obtain ⟨form, written⟩ := exists_encodePoint h.1
      obtain ⟨more, others, read⟩ := ih h.2
      refine ⟨form ++ more, Outcome.bind_eq_ok_iff.2 ⟨form, written,
        Outcome.bind_eq_ok_iff.2 ⟨more, others, rfl⟩⟩, ?_⟩
      rw [readPoints_of_ok (readPoint_eq_ok_iff.2 ⟨h.1, form, written, rfl⟩), read]

/-- **Reading points accepts exactly what writing them produces**, for points that are admitted. -/
theorem readPoints_eq_iff {context : Context} {bytes : List UInt8} {points : List SequencePoint} :
    readPoints context bytes = (points, none) ↔
      Admitted context points ∧ encodePoints context points = .ok bytes := by
  refine ⟨encodePoints_of_readPoints, ?_⟩
  rintro ⟨admitted, written⟩
  obtain ⟨form, written', read⟩ := exists_encodePoints admitted
  obtain rfl := Except.ok.inj (written'.symm.trans written)
  exact read

/-! ### Headers -/

/-- The document column of a method's row, next to a header: it has the document that the header
leaves out. -/
def Header.column (header : Header) : Option UInt32 :=
  if header.documentInHeader then none else some header.initialDocument

/-- How a header is written: the document is left out if it stands in the document column. -/
theorem encodeHeader_eq_ok_iff {header : Header} {form : List UInt8} :
    encodeHeader header = .ok form ↔
      ∃ signature, encodeUnsigned header.localSignature.toNat = .ok signature ∧
        (header.documentInHeader = false ∧ form = signature ∨
          header.documentInHeader = true ∧ ∃ document,
            encodeUnsigned header.initialDocument.toNat = .ok document ∧
              form = signature ++ document) := by
  rw [encodeHeader, Outcome.bind_eq_ok_iff]
  refine exists_congr fun signature => and_congr_right fun _ => ?_
  cases inHeader : header.documentInHeader with
  | false =>
      rw [if_neg Bool.false_ne_true, Outcome.pure_eq_ok_iff]
      simp [eq_comm]
  | true =>
      rw [if_pos rfl, Outcome.bind_eq_ok_iff]
      simp [Outcome.pure_eq_ok_iff, eq_comm (a := form)]

/-- Reading a header accepts exactly what writing produces, for well-formed headers and next to
their document column. -/
theorem readHeader_eq_ok_iff {column : Option UInt32} {bytes rest : List UInt8} {header : Header} :
    readHeader column bytes = .ok (header, rest) ↔
      header.WellFormed ∧ column = header.column ∧
        ∃ form, encodeHeader header = .ok form ∧ bytes = form ++ rest := by
  rw [readHeader, minimalUnsigned_bind_eq_ok_iff]
  constructor
  · rintro ⟨signature, form, mid, signed, rfl, h⟩
    have signature_eq := toNat_ofNat_of_encodeUnsigned signed
    have signature_lt := lt_of_encodeUnsigned signed
    rw [← signature_eq] at signed signature_lt
    cases column with
    | some document =>
        dsimp only at h
        by_cases nil : document = 0
        · rw [if_pos nil] at h
          cases h
        · rw [if_neg nil] at h
          obtain ⟨rfl, rfl⟩ := pure_eq_ok_iff.1 h
          exact ⟨⟨signature_lt, nil, nofun⟩, rfl, form,
            encodeHeader_eq_ok_iff.2 ⟨form, signed, .inl ⟨rfl, rfl⟩⟩, rfl⟩
    | none =>
        dsimp only at h
        rw [minimalUnsigned_bind_eq_ok_iff] at h
        obtain ⟨document, record, mid, announced, rfl, h⟩ := h
        have document_eq := toNat_ofNat_of_encodeUnsigned announced
        have document_lt := lt_of_encodeUnsigned announced
        by_cases nil : document = 0
        · rw [if_pos nil] at h
          cases h
        · rw [if_neg nil] at h
          obtain ⟨rfl, rfl⟩ := pure_eq_ok_iff.1 h
          rw [← document_eq] at announced document_lt
          refine ⟨⟨signature_lt, fun zero => ?_, fun _ => document_lt⟩, rfl, form ++ record,
            encodeHeader_eq_ok_iff.2 ⟨form, signed, .inr ⟨rfl, record, announced, rfl⟩⟩,
            by rw [List.append_assoc]⟩
          exact nil (document_eq.symm.trans (congrArg UInt32.toNat zero))
  · rintro ⟨⟨-, nil, -⟩, rfl, form, written, rfl⟩
    rcases header with ⟨signature, document, inHeader⟩
    dsimp only at nil
    obtain ⟨signatureForm, signed, ⟨rfl, rfl⟩ | ⟨rfl, record, announced, rfl⟩⟩ :=
      encodeHeader_eq_ok_iff.1 written
    · refine ⟨_, form, rest, signed, rfl, ?_⟩
      rw [UInt32.ofNat_toNat]
      change (if document = 0 then _ else _ : Reader Header) rest = _
      rw [if_neg nil]
      rfl
    · refine ⟨_, signatureForm, record ++ rest, signed, by rw [List.append_assoc], ?_⟩
      rw [UInt32.ofNat_toNat]
      refine minimalUnsigned_bind_eq_ok_iff.2 ⟨_, record, rest, announced, rfl, ?_⟩
      have document_ne : document.toNat ≠ 0 := fun zero => nil (UInt32.toNat_inj.1 zero)
      dsimp only
      rw [if_neg document_ne, UInt32.ofNat_toNat]
      rfl

/-! ### Line tables -/

/-- **What reading accepts**: what writing a well-formed line table produces, next to the document
column that goes with its header. -/
theorem decode_eq_ok_iff {bytes : List UInt8} {column : Option UInt32} {table : LineTable} :
    decode bytes column = .ok table ↔
      table.WellFormed ∧ column = table.column ∧ encode table = .ok bytes := by
  rw [decode, wellFormed_iff_admitted]
  constructor
  · intro h
    cases read : readHeader column bytes with
    | error e =>
        simp only [read] at h
        cases h
    | ok result =>
        rcases result with ⟨header, rest⟩
        simp only [read] at h
        cases points_read : readPoints (.initial header.initialDocument) rest with
        | mk points failure =>
            cases failure with
            | some e =>
                simp only [points_read] at h
                cases h
            | none =>
                simp only [points_read] at h
                obtain rfl := Except.ok.inj h
                obtain ⟨formed, column_eq, form, written, rfl⟩ := readHeader_eq_ok_iff.1 read
                obtain ⟨admitted, others⟩ := readPoints_eq_iff.1 points_read
                exact ⟨⟨formed, admitted⟩, column_eq, Outcome.bind_eq_ok_iff.2 ⟨form, written,
                  Outcome.bind_eq_ok_iff.2 ⟨rest, others, rfl⟩⟩⟩
  · rintro ⟨⟨formed, admitted⟩, column_eq, written⟩
    obtain ⟨form, header_written, written⟩ := Outcome.bind_eq_ok_iff.1 written
    obtain ⟨rest, points_written, written⟩ := Outcome.bind_eq_ok_iff.1 written
    obtain rfl := Outcome.pure_eq_ok_iff.1 written
    have read : readHeader column (form ++ rest) = .ok (table.toHeader, rest) :=
      readHeader_eq_ok_iff.2 ⟨formed, column_eq, form, header_written, rfl⟩
    have points_read := readPoints_eq_iff.2 ⟨admitted, points_written⟩
    simp only [read, points_read]

/-- Well-formed line tables have a written form. -/
theorem WellFormed.exists_encode {table : LineTable} (h : table.WellFormed) :
    ∃ bytes, encode table = .ok bytes := by
  obtain ⟨formed, admitted⟩ := wellFormed_iff_admitted.1 h
  have header : ∃ form, encodeHeader table.toHeader = .ok form := by
    obtain ⟨signature, signed⟩ := exists_encodeUnsigned formed.localSignature_lt
    cases inHeader : table.documentInHeader with
    | false => exact ⟨_, encodeHeader_eq_ok_iff.2 ⟨signature, signed, .inl ⟨inHeader, rfl⟩⟩⟩
    | true =>
        obtain ⟨document, announced⟩ :=
          exists_encodeUnsigned (formed.initialDocument_lt inHeader)
        exact ⟨_, encodeHeader_eq_ok_iff.2
          ⟨signature, signed, .inr ⟨inHeader, document, announced, rfl⟩⟩⟩
  obtain ⟨form, header_written⟩ := header
  obtain ⟨rest, points_written, -⟩ := exists_encodePoints admitted
  exact ⟨form ++ rest, Outcome.bind_eq_ok_iff.2 ⟨form, header_written,
    Outcome.bind_eq_ok_iff.2 ⟨rest, points_written, rfl⟩⟩⟩

/-- **Writing undoes reading**, byte for byte. So a line table is read from one list of bytes only,
next to the same document column. -/
theorem encode_of_decode {bytes : List UInt8} {column : Option UInt32} {table : LineTable}
    (h : decode bytes column = .ok table) :
    encode table = .ok bytes ∧ ∀ other, decode other column = .ok table → other = bytes := by
  obtain ⟨-, -, written⟩ := decode_eq_ok_iff.1 h
  refine ⟨written, fun other h' => ?_⟩
  obtain ⟨-, -, written'⟩ := decode_eq_ok_iff.1 h'
  exact Except.ok.inj (written'.symm.trans written)

/-- A line table with a visible point over three lines, a hidden one in another document, and a
visible one on a line further up, at an offset whose distance takes two bytes. -/
def threePoints : LineTable where
  localSignature := 0x2A
  initialDocument := 1
  documentInHeader := true
  points := [⟨0, 1, some ⟨10, 9, 12, 5⟩⟩, ⟨4, 2, none⟩, ⟨304, 2, some ⟨8, 4, 8, 7⟩⟩]

theorem encode_of_decode_threePoints :
    decode [0x2A, 1, 0, 2, 0x79, 10, 9, 0, 2, 4, 0, 0, 0x81, 0x2C, 0, 3, 0x7D, 0x77] none =
        .ok threePoints ∧
      encode threePoints =
        .ok [0x2A, 1, 0, 2, 0x79, 10, 9, 0, 2, 4, 0, 0, 0x81, 0x2C, 0, 3, 0x7D, 0x77] ∧
      ∀ other, decode other none = .ok threePoints →
        other = [0x2A, 1, 0, 2, 0x79, 10, 9, 0, 2, 4, 0, 0, 0x81, 0x2C, 0, 3, 0x7D, 0x77] := by
  have read : decode [0x2A, 1, 0, 2, 0x79, 10, 9, 0, 2, 4, 0, 0, 0x81, 0x2C, 0, 3, 0x7D, 0x77]
      none = .ok threePoints := by decide +kernel
  exact ⟨read, encode_of_decode read⟩

/-- **Exactly the well-formed line tables can be read**, and each of them is read from what writing
it produces, next to the document column that goes with its header. A hidden point shows the hidden
line and no columns. -/
theorem wellFormed_iff_exists_decode (table : LineTable) :
    (table.WellFormed ↔ ∃ bytes column, decode bytes column = .ok table) ∧
      (table.WellFormed ↔ ∃ bytes, encode table = .ok bytes ∧
        decode bytes (if table.documentInHeader then none else some table.initialDocument) =
          .ok table) ∧
      ∀ point ∈ table.points, point.isHidden →
        point.shownRange =
          ⟨SequencePoint.hiddenLine, 0, SequencePoint.hiddenLine, 0⟩ := by
  have written : table.WellFormed → ∃ bytes, encode table = .ok bytes ∧
      decode bytes table.column = .ok table := by
    intro formed
    obtain ⟨bytes, written⟩ := formed.exists_encode
    exact ⟨bytes, written, decode_eq_ok_iff.2 ⟨formed, rfl, written⟩⟩
  refine ⟨⟨fun formed => ?_, ?_⟩, ⟨written, ?_⟩, ?_⟩
  · obtain ⟨bytes, -, read⟩ := written formed
    exact ⟨bytes, _, read⟩
  · rintro ⟨bytes, column, read⟩
    exact (decode_eq_ok_iff.1 read).1
  · rintro ⟨bytes, -, read⟩
    exact (decode_eq_ok_iff.1 read).1
  · intro point _ hidden
    rw [SequencePoint.shownRange, Option.isNone_iff_eq_none.1 hidden]
    rfl

end SymbolHistory.LineTable
