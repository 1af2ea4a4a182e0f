import SymbolHistory.Proofs.Machine.Compressed
import SymbolHistory.Proofs.LineTable.RoundTrip
import SymbolHistory.MethodDebug

/-!
# Line tables on a machine

The numbers of a line table are distances. A machine adds code offsets up in 32 bits, and lines and
columns with their signs in 64 bits. The sums stay small because every distance comes from a
compressed number, and because offsets that are too large are refused before the next one is added.

## Main definitions

* `readHeader`, `readPoint` : scans of the header and of one record.
* `lineTable` : a whole line table.
* `pointsOf`, `localSignatureOf` : the sequence points and the local signature of a method.

## Main results

* `performs_readHeader`, `performs_readPoint` : the scans perform the readers of the library.
* `lineTable_eq`, `pointsOf_eq`, `localSignatureOf_eq` : a machine decodes what the library decodes.
-/

namespace SymbolHistory.Machine

open Bytes
open LineTable (Header Context)

/-! ### Scans -/

/-- Reads what stands in front of the points. -/
def readHeader (data : List UInt8) (column : Option UInt32) : Scan Header := do
  let signature ← readMinimalUnsigned data
  match column with
  | some document =>
    if document = 0 then fail (.malformed .documentColumnZero)
    else return ⟨UInt32.ofNat signature, document, false⟩
  | none =>
    let document ← readMinimalUnsigned data
    if document = 0 then fail (.malformed .initialDocumentZero)
    else return ⟨UInt32.ofNat signature, UInt32.ofNat document, true⟩

/-- Reads the document and the code offset of a point. -/
def readPlace (data : List UInt8) (context : Context) : Scan (UInt32 × Nat) :=
  match context.offset with
  | none => do
    return (context.document, ← readMinimalUnsigned data)
  | some previous => do
    let step ← readMinimalUnsigned data
    if step = 0 then
      let document ← readMinimalUnsigned data
      if document = 0 then fail (.malformed .documentRecordZero)
      else if document = context.document.toNat then
        fail (.malformed (.documentRecordRepeats document))
      else
        let step ← readMinimalUnsigned data
        if step = 0 then fail (.malformed .documentRecordsAdjacent)
        else
          let offset ← add UInt32.size previous.toNat step
          return (UInt32.ofNat document, offset)
    else
      let offset ← add UInt32.size previous.toNat step
      return (context.document, offset)

/-- Reads the distance of the last column from the first. -/
def readColumns (data : List UInt8) (lines : Nat) : Scan Int :=
  if lines = 0 then do
    return Int.ofNat (← readMinimalUnsigned data)
  else
    readMinimalSigned data

/-- Reads where the text of a point starts. -/
def readStart (data : List UInt8) : Option (UInt32 × UInt16) → Scan (Int × Int)
  | none => do
    let line ← readMinimalUnsigned data
    let column ← readMinimalUnsigned data
    return (line, column)
  | some (line, column) => do
    let lineStep ← readMinimalSigned data
    let start ← addSigned line.toNat lineStep
    let columnStep ← readMinimalSigned data
    let first ← addSigned column.toNat columnStep
    return (start, first)

/-- The range from a start and the distances of the end from it. -/
def rangeFrom (start : Int × Int) (lines : Nat) (columns : Int) : Exec SourceRange := do
  let endLine ← addSigned start.1 lines
  let endColumn ← addSigned start.2 columns
  let startLine ← ofExcept (LineTable.checkLine start.1)
  let endLine ← ofExcept (LineTable.checkLine endLine)
  let startColumn ← ofExcept (LineTable.checkColumn start.2)
  let endColumn ← ofExcept (LineTable.checkColumn endColumn)
  return ⟨startLine, startColumn, endLine, endColumn⟩

/-- Reads the range of a point. -/
def readRange (data : List UInt8) (anchor : Option (UInt32 × UInt16)) :
    Scan (Option SourceRange) := do
  let lines ← readMinimalUnsigned data
  let columns ← readColumns data lines
  if lines = 0 ∧ columns = 0 then
    return none
  else
    let start ← readStart data anchor
    let range ← rangeFrom start lines columns
    return some range

/-- Reads the record of a point. -/
def readPoint (data : List UInt8) (context : Context) : Scan SequencePoint := do
  let (document, offset) ← readPlace data context
  if offset < SequencePoint.valueBound then
    let range ← readRange data context.anchor
    return ⟨UInt32.ofNat offset, document, range⟩
  else
    fail (.malformed (.codeOffsetRange offset))

/-- Reads a point behind the ones that were read before. -/
def nextPoint (data : List UInt8) (s : Context × List SequencePoint) :
    Scan (Context × List SequencePoint) := do
  let point ← readPoint data s.1
  return (s.1.after point, s.2 ++ [point])

/-! ### Progress -/

/-- A compressed number takes one byte at least. -/
theorem advances_minimalUnsigned (data : List UInt8) : Advances 1 (readMinimalUnsigned data) :=
  advances_readMinimal (advances_readUnsigned data) _ _

/-- So does a signed one. -/
theorem advances_minimalSigned (data : List UInt8) : Advances 1 (readMinimalSigned data) :=
  advances_readMinimal (advances_readSigned data) _ _

/-- What follows a step does not take it back. -/
theorem Advances.and_then {α β : Type} {least : Nat} {first : Scan α} {next : α → Scan β}
    (h : Advances least first) (h' : ∀ a, Advances 0 (next a)) : Advances least (first >>= next) :=
  h.bind h'

/-- So every record takes one byte at least, and the loop over records ends. -/
theorem advances_readPlace (data : List UInt8) (context : Context) :
    Advances 1 (readPlace data context) := by
  have number := advances_minimalUnsigned data
  have more := number.mono (Nat.zero_le 1)
  unfold readPlace
  split
  · exact number.and_then fun _ => advances_pure _
  · refine number.and_then fun step => .ite ?_ ((advances_exec _).and_then fun _ => advances_pure _)
    refine more.and_then fun document => .ite (advances_fail _ _) (.ite (advances_fail _ _) ?_)
    refine more.and_then fun step => .ite (advances_fail _ _) ?_
    exact (advances_exec _).and_then fun _ => advances_pure _

/-- A range never moves the position back. -/
theorem advances_readRange (data : List UInt8) (anchor : Option (UInt32 × UInt16)) :
    Advances 0 (readRange data anchor) := by
  have unsigned := (advances_minimalUnsigned data).mono (Nat.zero_le 1)
  have signed := (advances_minimalSigned data).mono (Nat.zero_le 1)
  refine unsigned.and_then fun lines => ?_
  refine Advances.and_then (.ite (unsigned.and_then fun _ => advances_pure _) signed)
    fun columns => ?_
  refine .ite (advances_pure _) (Advances.and_then ?_ fun start =>
    (advances_exec _).and_then fun _ => advances_pure _)
  cases anchor with
  | none => exact unsigned.and_then fun _ => unsigned.and_then fun _ => advances_pure _
  | some anchor =>
      exact signed.and_then fun _ => (advances_exec _).and_then fun _ => signed.and_then fun _ =>
        (advances_exec _).and_then fun _ => advances_pure _

/-- Every record moves the position on. -/
theorem advances_nextPoint (data : List UInt8) (s : Context × List SequencePoint) :
    Advances 1 (nextPoint data s) := by
  refine Advances.and_then (Advances.and_then (advances_readPlace data s.1) fun place => ?_)
    fun point => advances_pure _
  exact .ite ((advances_readRange data _).and_then fun _ => advances_pure _) (advances_fail _ _)

/-- A whole line table. -/
def lineTable (stored : List UInt8) (column : Option UInt32) : Exec LineTable := do
  let (header, start) ← readHeader stored column 0
  let (_, points) ← whileMore stored (nextPoint stored) (advances_nextPoint stored)
    (.initial header.initialDocument, []) start
  return { header with points }

/-- The sequence points of a method. -/
def pointsOf (method : MethodDebug) : Exec (List SequencePoint) :=
  match method.lineTable with
  | none => pure []
  | some stored => do
    let table ← lineTable stored method.column
    return table.points

/-- The token of the local signature of a method, if there is one. -/
def localSignatureOf (method : MethodDebug) : Exec (Option Token) :=
  match method.lineTable with
  | none => pure none
  | some stored => do
    let (header, _) ← readHeader stored method.column 0
    if header.localSignature = 0 then return none
    else return some (.ofRow .standAloneSig header.localSignature)

/-! ### Bounds -/

/-- Unsigned numbers that are read are below 2^29. -/
theorem lt_of_minimalUnsigned {bytes rest : List UInt8} {n : Nat}
    (h : minimalUnsigned bytes = .ok (n, rest)) : n < 0x20000000 := by
  obtain ⟨form, written, -⟩ := minimalUnsigned_eq_ok_iff.1 h
  exact LineTable.lt_of_encodeUnsigned written

/-- Signed numbers that have a form take 29 bits. -/
theorem holds_of_encodeSigned {n : Int} {form : List UInt8} (h : encodeSigned n = .ok form) :
    -0x10000000 ≤ n ∧ n < 0x10000000 :=
  encodeSigned_eq_ok_iff.1 ⟨form, h⟩

/-- So signed numbers that are read take 29 bits. -/
theorem holds_of_minimalSigned {bytes rest : List UInt8} {n : Int}
    (h : minimalSigned bytes = .ok (n, rest)) : -0x10000000 ≤ n ∧ n < 0x10000000 := by
  obtain ⟨form, written, -⟩ := minimalSigned_eq_ok_iff.1 h
  exact holds_of_encodeSigned written

/-- A number far from the bounds of 64 bits. -/
def Moderate (n : Int) : Prop :=
  -0x200000000 ≤ n ∧ n < 0x200000000

/-- Column deltas that are read are far from overflowing. -/
theorem moderate_of_readColumns {lines : Nat} {columns : Int} {bytes rest : List UInt8}
    (h : LineTable.readColumns lines bytes = .ok (columns, rest)) : Moderate columns := by
  obtain ⟨form, columnsForm, -⟩ := LineTable.readColumns_eq_ok_iff.1 h
  unfold Moderate
  cases columnsForm with
  | single written =>
      have := LineTable.lt_of_encodeUnsigned written
      omega
  | several _ written =>
      have := holds_of_encodeSigned written
      omega

/-- So are both coordinates of a start position. -/
theorem moderate_of_readStart {anchor : Option (UInt32 × UInt16)} {start : Int × Int}
    {bytes rest : List UInt8} (h : LineTable.readStart anchor bytes = .ok (start, rest)) :
    Moderate start.1 ∧ Moderate start.2 := by
  obtain ⟨form, startForm, -⟩ := LineTable.readStart_eq_ok_iff.1 h
  unfold Moderate
  cases startForm with
  | first line_written column_written =>
      have := LineTable.lt_of_encodeUnsigned line_written
      have := LineTable.lt_of_encodeUnsigned column_written
      dsimp only
      omega
  | @later line column lineStep columnStep _ _ line_written column_written =>
      have := holds_of_encodeSigned line_written
      have := holds_of_encodeSigned column_written
      have := line.toNat_lt
      have := column.toNat_lt
      dsimp only
      omega

/-- Moderate numbers are added up without a trap. -/
theorem addSigned_of_moderate {a b : Int} (h : Moderate a) (h' : Moderate b) :
    addSigned a b = pure (a + b) := by
  unfold Moderate at h h'
  refine addSigned_of_lt ?_ ?_ <;> simp only [objectBound] <;> omega

/-- Natural numbers that are not too large are moderate. -/
theorem moderate_natCast {n : Nat} (h : n < 0x200000000) : Moderate n := by
  unfold Moderate
  omega

/-! ### What the scans perform -/

/-- The code offset that a context holds is not too large. -/
def SmallOffset (context : Context) : Prop :=
  ∀ previous ∈ context.offset, previous.toNat < SequencePoint.valueBound

section Performs

variable {data : List UInt8}

/-- The header is read without a trap. -/
theorem performs_readHeader (bounded : data.length < objectBound) (column : Option UInt32) :
    Performs data (readHeader data column) (LineTable.readHeader column) := by
  refine (performs_minimalUnsigned bounded).bind fun signature => ?_
  cases column with
  | some document => exact .ite (performs_fail _) (performs_pure _)
  | none =>
      exact (performs_minimalUnsigned bounded).bind fun document =>
        .ite (performs_fail _) (performs_pure _)

/-- So is the place of a record, as long as the offset before it is small. -/
theorem performs_readPlace (bounded : data.length < objectBound) {context : Context}
    (small : SmallOffset context) :
    Performs data (readPlace data context) (LineTable.readPlace context) := by
  have number := performs_minimalUnsigned bounded
  have below : ∀ bytes n rest, minimalUnsigned bytes = .ok (n, rest) → n < 0x20000000 :=
    fun _ _ _ => lt_of_minimalUnsigned
  unfold readPlace LineTable.readPlace
  cases offset : context.offset with
  | none => exact number.bind fun _ => performs_pure _
  | some previous =>
      have lt := small previous offset
      have sum {step : Nat} (h : step < 0x20000000) :
          add UInt32.size previous.toNat step = pure (previous.toNat + step) :=
        add_of_lt (by simp only [SequencePoint.valueBound, UInt32.size] at *; omega)
      refine number.bind_of below fun step step_lt =>
        .ite ?_ (.exec_bind (sum step_lt) (performs_pure _))
      refine number.bind fun document => .ite (performs_fail _) (.ite (performs_fail _) ?_)
      refine number.bind_of below fun step step_lt => .ite (performs_fail _) ?_
      exact .exec_bind (sum step_lt) (performs_pure _)

/-- So are column deltas. -/
theorem performs_readColumns (bounded : data.length < objectBound) (lines : Nat) :
    Performs data (readColumns data lines) (LineTable.readColumns lines) :=
  .ite ((performs_minimalUnsigned bounded).bind fun _ => performs_pure _)
    (performs_minimalSigned bounded)

/-- So are start positions: what is added to the last one is moderate. -/
theorem performs_readStart (bounded : data.length < objectBound)
    (anchor : Option (UInt32 × UInt16)) :
    Performs data (readStart data anchor) (LineTable.readStart anchor) := by
  have signed := performs_minimalSigned bounded
  cases anchor with
  | none =>
      exact (performs_minimalUnsigned bounded).bind fun _ =>
        (performs_minimalUnsigned bounded).bind fun _ => performs_pure _
  | some anchor =>
      obtain ⟨line, column⟩ := anchor
      have moderate {n : Int} (h : -0x10000000 ≤ n ∧ n < 0x10000000) : Moderate n := by
        unfold Moderate
        omega
      have line_moderate : Moderate line.toNat :=
        moderate_natCast (Nat.lt_trans line.toNat_lt (by decide))
      have column_moderate : Moderate column.toNat :=
        moderate_natCast (Nat.lt_trans column.toNat_lt (by decide))
      refine signed.bind_of (fun _ _ _ => holds_of_minimalSigned) fun lineStep held => ?_
      refine .exec_bind (addSigned_of_moderate line_moderate (moderate held)) ?_
      refine signed.bind_of (fun _ _ _ => holds_of_minimalSigned) fun columnStep held => ?_
      exact .exec_bind (addSigned_of_moderate column_moderate (moderate held)) (performs_pure _)

/-- Ends of ranges are added up from moderate numbers, which does not overflow. -/
theorem rangeFrom_eq {start : Int × Int} {lines : Nat} {columns : Int} (h : Moderate start.1)
    (h' : Moderate start.2) (lines_lt : lines < 0x20000000) (moderate : Moderate columns) :
    rangeFrom start lines columns = ofExcept (LineTable.checkRange start lines columns) := by
  have lines_moderate : Moderate lines := moderate_natCast (by omega)
  rw [rangeFrom, addSigned_of_moderate h lines_moderate, pure_bind,
    addSigned_of_moderate h' moderate, pure_bind]
  simp only [LineTable.checkRange, ofExcept_bind, ofExcept_pure]

/-- So ranges are read without a trap. -/
theorem performs_readRange (bounded : data.length < objectBound)
    (anchor : Option (UInt32 × UInt16)) :
    Performs data (readRange data anchor) (LineTable.readRange anchor) := by
  refine (performs_minimalUnsigned bounded).bind_of (fun _ _ _ => lt_of_minimalUnsigned)
    fun lines lines_lt => ?_
  refine (performs_readColumns bounded lines).bind_of (fun _ _ _ => moderate_of_readColumns)
    fun columns moderate => .ite (performs_pure _) ?_
  refine (performs_readStart bounded anchor).bind_of (fun _ _ _ => moderate_of_readStart)
    fun start start_moderate => ?_
  rw [rangeFrom_eq start_moderate.1 start_moderate.2 lines_lt moderate]
  cases LineTable.checkRange start lines columns with
  | error e => exact performs_fail e
  | ok range => exact performs_pure _

/-- So are points. -/
theorem performs_readPoint (bounded : data.length < objectBound) {context : Context}
    (small : SmallOffset context) :
    Performs data (readPoint data context) (LineTable.readPoint context) := by
  refine (performs_readPlace bounded small).bind fun place => .ite ?_ (performs_fail _)
  exact (performs_readRange bounded _).bind fun _ => performs_pure _

/-- The context behind a record again has a code offset that is not too large. -/
theorem smallOffset_after {context : Context} {point : SequencePoint} {bytes rest : List UInt8}
    (h : LineTable.readPoint context bytes = .ok (point, rest)) :
    SmallOffset (context.after point) := by
  rintro previous ⟨⟩
  exact (LineTable.readPoint_eq_ok_iff.1 h).1.codeOffset_lt

end Performs

/-! ### Whole line tables -/

/-- What a machine collects behind the points that it has: the points up to the end, unless there is
an error. -/
def collected (found : List SequencePoint) : List SequencePoint × Option Error →
    Exec (List SequencePoint)
  | (points, none) => pure (found ++ points)
  | (_, some e) => fail e

/-- **Repeating the step up to the end collects the points that the library reads.** -/
theorem whileMore_nextPoint {data : List UInt8} (bounded : data.length < objectBound)
    {context : Context} (small : SmallOffset context) (found : List SequencePoint) {position : Nat}
    (inside : position ≤ data.length) :
    (·.2) <$> whileMore data (nextPoint data) (advances_nextPoint data) (context, found) position =
      collected found (LineTable.readPoints context (data.drop position)) := by
  induction left : data.length - position using Nat.strongRecOn
    generalizing context found position with
  | ind left ih =>
      rcases Nat.lt_or_ge position data.length with more | done
      · have agrees := performs_readPoint bounded small position inside
        cases result : LineTable.readPoint context (data.drop position) with
        | error e =>
            rw [result] at agrees
            have some : data.drop position ≠ [] := by
              rw [ne_eq, List.drop_eq_nil_iff]
              omega
            rw [whileMore_of_fail _ more (bind_apply_fail agrees.eq_fail _),
              LineTable.readPoints_of_error some result]
            rfl
        | ok r =>
            obtain ⟨point, rest⟩ := r
            rw [result] at agrees
            obtain ⟨stop, -, within, rfl, read⟩ := agrees.exists_stop
            have step : nextPoint data (context, found) position =
                pure ((context.after point, found ++ [point]), stop) := bind_apply read _
            have progress : position + 1 ≤ stop := advances_nextPoint data _ _ _ _ step
            rw [whileMore_of_done _ more step, LineTable.readPoints_of_ok result,
              ih (data.length - stop) (by omega) (smallOffset_after result) _ within rfl]
            rcases LineTable.readPoints (context.after point) (data.drop stop) with ⟨points, _ | e⟩
            · simp [collected]
            · rfl
      · rw [whileMore_of_end _ _ done, List.drop_eq_nil_of_le done, LineTable.readPoints]
        simp [collected]

/-- **A machine decodes the line table that the library decodes, or fails as it does.** -/
theorem lineTable_eq {stored : List UInt8} (bounded : stored.length < objectBound)
    (column : Option UInt32) :
    lineTable stored column = ofExcept (LineTable.decode stored column) := by
  have agrees := performs_readHeader bounded column 0 (Nat.zero_le _)
  rw [LineTable.decode]
  cases result : LineTable.readHeader column stored with
  | error e =>
      rw [List.drop_zero, result] at agrees
      rw [lineTable, agrees.eq_fail]
      rfl
  | ok r =>
      obtain ⟨header, rest⟩ := r
      rw [List.drop_zero, result] at agrees
      obtain ⟨start, -, inside, rfl, read⟩ := agrees.exists_stop
      have first : SmallOffset (.initial header.initialDocument) := by
        rintro previous ⟨⟩
      have same : lineTable stored column = LineTable.mk header <$>
          ((·.2) <$> whileMore stored (nextPoint stored) (advances_nextPoint stored)
            (.initial header.initialDocument, []) start) := by
        rw [lineTable, read, Functor.map_map]
        rfl
      rw [same, whileMore_nextPoint bounded first [] inside]
      dsimp only
      rcases LineTable.readPoints (.initial header.initialDocument) (stored.drop start) with
        ⟨points, _ | e⟩ <;> rfl

/-- **A machine finds the sequence points that the library finds, or fails as it does.** -/
theorem pointsOf_eq {method : MethodDebug}
    (bounded : ∀ stored ∈ method.lineTable, stored.length < objectBound) :
    pointsOf method = ofExcept method.points := by
  unfold pointsOf MethodDebug.points
  cases table : method.lineTable with
  | none => rfl
  | some stored =>
      dsimp only
      rw [lineTable_eq (bounded stored table), ofExcept_map]
      rfl

/-- The local signature of a method is read without a trap. -/
theorem localSignatureOf_eq {method : MethodDebug}
    (bounded : ∀ stored ∈ method.lineTable, stored.length < objectBound) :
    localSignatureOf method = ofExcept method.localSignature := by
  unfold localSignatureOf MethodDebug.localSignature
  cases table : method.lineTable with
  | none => rfl
  | some stored =>
      have agrees := performs_readHeader (bounded stored table) method.column 0 (Nat.zero_le _)
      rw [List.drop_zero] at agrees
      dsimp only
      cases result : LineTable.readHeader method.column stored with
      | error e =>
          rw [result] at agrees
          rw [agrees.eq_fail]
          rfl
      | ok r =>
          obtain ⟨header, rest⟩ := r
          rw [result] at agrees
          obtain ⟨start, -, -, -, read⟩ := agrees.exists_stop
          rw [read, pure_bind, Outcome.bind_of_ok rfl]
          rw [ofExcept_ite]
          rfl

end SymbolHistory.Machine
