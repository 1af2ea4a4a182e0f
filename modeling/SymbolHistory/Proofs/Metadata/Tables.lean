import SymbolHistory.Proofs.Heap.Blob
import SymbolHistory.Proofs.Layout.TableStream
import SymbolHistory.Metadata.Serialize

/-!
# The tables are read back

The tables stream of metadata has up to four tables. Three independent widths decide about the size
of their rows; what is written with them is what the reader finds under the same widths.

## Main definitions

* `Metadata.Widths` : which indices take four bytes.
* `Metadata.Rows` : what the tables hold, with `Metadata.Rows.count` and `Metadata.Rows.form` for
  each table and `Metadata.Rows.stream` for all.

## Main results

* `Metadata.encodeTables_eq_ok_iff` : how tables are written.
* `Metadata.exists_parse_encodeTables` : a written tables stream offers all tables.
-/

namespace SymbolHistory.Metadata

open Bytes

/-! ### What is written -/

/-- Which indices take four bytes. -/
structure Widths where
  /-- Those into the blob heap. -/
  blobs : Bool
  /-- Those into the GUID heap. -/
  guids : Bool
  /-- Those of documents. -/
  documents : Bool

/-- Indices take four bytes where two are not enough. -/
def Widths.of (heaps : Heaps) (documents : Array DocumentCells) : Widths where
  blobs := UInt16.size ≤ heaps.blobs.bytes.size
  guids := UInt16.size ≤ heaps.guids.guids.size
  documents := UInt16.size ≤ documents.size

/-- The flags that say how wide heap indices are. -/
def Widths.heapFlags (widths : Widths) : UInt8 :=
  UInt8.ofNat ((if widths.guids then 2 else 0) + if widths.blobs then 4 else 0)

/-- A row of the log of an update. -/
def logForm (token : Token) : List UInt8 :=
  toLittle 4 token.value.toNat ++ toLittle 4 0

/-- A row of the map of an update. -/
def mapForm (token : Token) : List UInt8 :=
  toLittle 4 token.value.toNat

/-- The row of a document. -/
def Widths.documentForm (widths : Widths) (cells : DocumentCells) : List UInt8 :=
  encodeIndex widths.blobs cells.name ++ encodeIndex widths.guids cells.hashAlgorithm ++
    encodeIndex widths.blobs cells.hash ++ encodeIndex widths.guids cells.language

/-- The row of a method. -/
def Widths.methodForm (widths : Widths) (cells : MethodCells) : List UInt8 :=
  encodeIndex widths.documents cells.document ++ encodeIndex widths.blobs cells.lineTable

/-- A row of the log has two words. -/
theorem length_logForm (token : Token) : (logForm token).length = 8 :=
  rfl

/-- A row of the map has one. -/
theorem length_mapForm (token : Token) : (mapForm token).length = 4 :=
  rfl

/-- A document row has two indices into the blobs and two into the GUIDs. -/
theorem Widths.length_documentForm (widths : Widths) (cells : DocumentCells) :
    (widths.documentForm cells).length =
      2 * Sizing.width widths.blobs + 2 * Sizing.width widths.guids := by
  simp only [documentForm, List.length_append, length_encodeIndex]
  omega

/-- A method row has one index into the documents and one into the blobs. -/
theorem Widths.length_methodForm (widths : Widths) (cells : MethodCells) :
    (widths.methodForm cells).length =
      Sizing.width widths.documents + Sizing.width widths.blobs := by
  simp only [methodForm, List.length_append, length_encodeIndex]

/-- What the tables hold. -/
structure Rows where
  /-- The map of an update, and the log. -/
  encMap : List Token
  /-- The documents. -/
  documents : Array DocumentCells
  /-- The methods. -/
  methods : Array MethodCells

namespace Rows

/-- The number of rows of a table. -/
def count (rows : Rows) : Table → Nat
  | .encLog => rows.encMap.length
  | .encMap => rows.encMap.length
  | .document => rows.documents.size
  | .methodDebugInformation => rows.methods.size
  | .methodDef => 0
  | .standAloneSig => 0

/-- The written form of a table. -/
def form (rows : Rows) (widths : Widths) : Table → List UInt8
  | .encLog => rows.encMap.flatMap logForm
  | .encMap => rows.encMap.flatMap mapForm
  | .document => rows.documents.toList.flatMap widths.documentForm
  | .methodDebugInformation => rows.methods.toList.flatMap widths.methodForm
  | .methodDef => []
  | .standAloneSig => []

/-- The tables that have rows, in the order in which they are written. -/
def present (rows : Rows) : List Table :=
  [.encLog, .encMap, .document, .methodDebugInformation].filter (rows.count · ≠ 0)

/-- The tables that are written are those with rows, each with its count. -/
theorem presentTables_eq (rows : Rows) :
    presentTables rows.encMap.length rows.documents.size rows.methods.size =
      rows.present.map fun table => (table, rows.count table) := by
  change ([Table.encLog, .encMap, .document, .methodDebugInformation].map fun table =>
    (table, rows.count table)).filter (·.2 ≠ 0) = _
  rw [List.filter_map]
  rfl

/-- They ascend, as the format wants it. -/
theorem ascending_present (rows : Rows) : rows.present.Pairwise (·.number < ·.number) := by
  have ascending : [Table.encLog, .encMap, .document, .methodDebugInformation].Pairwise
      (·.number < ·.number) := by decide
  exact ascending.filter _

/-- A table that is left out has no rows. -/
theorem count_eq_zero {rows : Rows} {table : Table} (absent : table ∉ rows.present) :
    rows.count table = 0 := by
  cases table <;> first | rfl | simpa [present] using absent

/-- A table without rows takes no bytes. -/
theorem form_eq_nil {rows : Rows} {widths : Widths} {table : Table}
    (none : rows.count table = 0) : rows.form widths table = [] := by
  cases table with
  | methodDef => rfl
  | standAloneSig => rfl
  | encLog => rw [form, List.length_eq_zero_iff.1 none, List.flatMap_nil]
  | encMap => rw [form, List.length_eq_zero_iff.1 none, List.flatMap_nil]
  | document => rw [form, Array.size_eq_zero_iff.1 none, Array.toList_empty, List.flatMap_nil]
  | methodDebugInformation =>
      rw [form, Array.size_eq_zero_iff.1 none, Array.toList_empty, List.flatMap_nil]

/-- Tables without rows are written as nothing, so it does not matter that they are left out. -/
theorem flatMap_form_present (rows : Rows) (widths : Widths) :
    rows.present.flatMap (rows.form widths) =
      rows.form widths .encLog ++ rows.form widths .encMap ++ rows.form widths .document ++
        rows.form widths .methodDebugInformation := by
  have absent : ∀ tables : List Table,
      (tables.filter (rows.count · ≠ 0)).flatMap (rows.form widths) =
        tables.flatMap (rows.form widths) := by
    intro tables
    induction tables with
    | nil => rfl
    | cons table tables ih =>
        by_cases none : rows.count table = 0
        · rw [List.filter_cons_of_neg (by simpa using none), ih, List.flatMap_cons,
            form_eq_nil none, List.nil_append]
        · rw [List.filter_cons_of_pos (by simpa using none), List.flatMap_cons, ih,
            List.flatMap_cons]
  rw [present, absent]
  simp only [List.flatMap_cons, List.flatMap_nil, List.append_nil, List.append_assoc]

end Rows

/-- Row counts can be written if they are words. -/
theorem mapM_checkSize_eq_ok_iff {tables : List (Table × Nat)} {counts : List UInt32} :
    (tables.mapM fun (_, rows) => BlobHeap.checkSize rows) = .ok counts ↔
      (∀ table ∈ tables, table.2 < UInt32.size) ∧
        counts = tables.map fun table => UInt32.ofNat table.2 := by
  rw [Outcome.mapM_eq_ok_iff]
  induction tables generalizing counts with
  | nil => simp
  | cons table tables ih =>
      rw [List.forall₂_cons_left_iff, List.forall_mem_cons, List.map_cons]
      constructor
      · rintro ⟨count, others, checked, rest, rfl⟩
        obtain ⟨small, rfl⟩ := BlobHeap.checkSize_eq_ok_iff.1 checked
        obtain ⟨all, rfl⟩ := ih.1 rest
        exact ⟨⟨small, all⟩, rfl⟩
      · rintro ⟨⟨small, all⟩, rfl⟩
        exact ⟨_, _, BlobHeap.checkSize_eq_ok_iff.2 ⟨small, rfl⟩, ih.2 ⟨all, rfl⟩, rfl⟩

/-- What stands in front of the padding: a start with the mask, the row counts, and the tables. -/
def Rows.stream (rows : Rows) (widths : Widths) : List UInt8 :=
  TableStream.encodeStart widths.heapFlags rows.present ++
    ((rows.present.flatMap fun table => toLittle 4 (rows.count table)) ++
      rows.present.flatMap (rows.form widths))

/-- The same with all four tables, a mask and words for the counts. -/
def Rows.assemble (rows : Rows) (widths : Widths) (mask : Nat) (counts : List UInt32) :
    List UInt8 :=
  toLittle 4 0 ++ [2, 0, widths.heapFlags, 1] ++ toLittle 8 mask ++ toLittle 8 0 ++
    (counts.flatMap fun count => toLittle 4 count.toNat) ++ rows.form widths .encLog ++
    rows.form widths .encMap ++ rows.form widths .document ++
    rows.form widths .methodDebugInformation

/-- The row counts of the tables that are present, as words. -/
theorem flatMap_counts {rows : Rows} (small : ∀ table, rows.count table < UInt32.size) :
    ((rows.present.map fun table => UInt32.ofNat (rows.count table)).flatMap
        fun count => toLittle 4 count.toNat) =
      rows.present.flatMap fun table => toLittle 4 (rows.count table) := by
  rw [List.flatMap_map, TableStream.toLittle_ofNat small]

/-- The mask that is written is that of the tables which are present. -/
theorem foldl_mask_eq (rows : Rows) :
    (rows.present.map fun table => (table, rows.count table)).foldl
        (fun mask (table, _) => mask ||| 1 <<< table.number) 0 =
      TableStream.maskOf rows.present :=
  List.foldl_map

/-- What is assembled from the counts is the stream of the rows, as long as counts fit. -/
theorem assemble_eq_stream {rows : Rows} (widths : Widths)
    (small : ∀ table, rows.count table < UInt32.size) :
    rows.assemble widths (TableStream.maskOf rows.present)
        (rows.present.map fun table => UInt32.ofNat (rows.count table)) =
      rows.stream widths := by
  rw [Rows.assemble, flatMap_counts small, Rows.stream, rows.flatMap_form_present,
    TableStream.encodeStart]
  simp only [List.append_assoc]

/-- **How tables are written**: as the stream of their rows with padding, if all counts are
words. -/
theorem encodeTables_eq_ok_iff {rows : Rows} {heaps : Heaps} {bytes : List UInt8} :
    encodeTables rows.encMap rows.documents rows.methods heaps = .ok bytes ↔
      (∀ table, rows.count table < UInt32.size) ∧
        bytes = pad (rows.stream (.of heaps rows.documents)) := by
  let tables := presentTables rows.encMap.length rows.documents.size rows.methods.size
  have written : encodeTables rows.encMap rows.documents rows.methods heaps =
      (tables.mapM fun (_, rows) => BlobHeap.checkSize rows) >>= fun counts =>
        .ok (pad (rows.assemble (.of heaps rows.documents)
          (tables.foldl (fun mask (table, _) => mask ||| 1 <<< table.number) 0) counts)) := rfl
  rw [written, show tables = _ from rows.presentTables_eq, Outcome.bind_eq_ok_iff, foldl_mask_eq]
  constructor
  · rintro ⟨counts, checked, h⟩
    obtain ⟨small, rfl⟩ := mapM_checkSize_eq_ok_iff.1 checked
    have all : ∀ table, rows.count table < UInt32.size := by
      intro table
      by_cases mem : table ∈ rows.present
      · exact small _ (List.mem_map.2 ⟨table, mem, rfl⟩)
      · rw [Rows.count_eq_zero mem]
        decide
    rw [List.map_map] at h
    rw [← assemble_eq_stream _ all]
    exact ⟨all, (Except.ok.inj h).symm⟩
  · rintro ⟨small, rfl⟩
    refine ⟨_, mapM_checkSize_eq_ok_iff.2 ⟨?_, rfl⟩, ?_⟩
    · intro table mem
      obtain ⟨table, -, rfl⟩ := List.mem_map.1 mem
      exact small table
    · rw [List.map_map, ← assemble_eq_stream _ small]
      rfl

/-! ### What is read -/

/-- The flags say how wide the indices are, and announce nothing else. -/
theorem testBit_heapFlags (widths : Widths) :
    widths.heapFlags.toNat.testBit 2 = widths.blobs ∧
      widths.heapFlags.toNat.testBit 1 = widths.guids ∧
      widths.heapFlags.toNat.testBit 6 = false := by
  have bits : ∀ guids blobs : Bool,
      (UInt8.ofNat ((if guids then 2 else 0) + if blobs then 4 else 0)).toNat.testBit 2 = blobs ∧
      (UInt8.ofNat ((if guids then 2 else 0) + if blobs then 4 else 0)).toNat.testBit 1 = guids ∧
      (UInt8.ofNat ((if guids then 2 else 0) + if blobs then 4 else 0)).toNat.testBit 6 = false :=
    by decide
  exact bits widths.guids widths.blobs

/-- The reader takes heap indices to be as wide as they are written. -/
theorem wide_ofHeader (widths : Widths) (counts : RowCounts) :
    (Sizing.ofHeader widths.heapFlags counts false).wideBlobs = widths.blobs ∧
      (Sizing.ofHeader widths.heapFlags counts false).wideGuids = widths.guids := by
  obtain ⟨blobs, guids, -⟩ := testBit_heapFlags widths
  exact ⟨(Bool.false_or _).trans blobs, (Bool.false_or _).trans guids⟩

/-- Documents are wide for the reader if they are wide for the writer. -/
theorem isWide_document {rows : Rows} {widths : Widths} {counts : RowCounts}
    (wide : widths.documents = decide (UInt16.size ≤ rows.documents.size))
    (counted : ∀ table, (counts.ofTable table).toNat = rows.count table) :
    (Sizing.ofHeader widths.heapFlags counts false).isWide .document = widths.documents := by
  rw [Sizing.isWide, show (Sizing.ofHeader widths.heapFlags counts false).rows = counts from rfl,
    counted, wide]
  rfl

/-- The sizes that the reader takes rows to have are those that they are written with. -/
theorem exists_rowSize? {rows : Rows} {widths : Widths} {counts : RowCounts}
    (wide : widths.documents = decide (UInt16.size ≤ rows.documents.size))
    (counted : ∀ table, (counts.ofTable table).toNat = rows.count table) {table : Table}
    (mem : table ∈ rows.present) :
    ∃ size, rowSize? (.ofHeader widths.heapFlags counts false) table.number = some size ∧
      size * rows.count table = (rows.form widths table).length := by
  set sizing := Sizing.ofHeader widths.heapFlags counts false with sizing_eq
  obtain ⟨blobs, guids⟩ := wide_ofHeader widths counts
  have documents := isWide_document wide counted
  rw [← sizing_eq] at blobs guids documents
  have one : table ∈ [Table.encLog, .encMap, .document, .methodDebugInformation] :=
    (List.mem_filter.1 mem).1
  cases table with
  | encLog =>
      refine ⟨logRowSize, rfl, ?_⟩
      rw [Rows.form, length_flatMap_of_forall length_logForm]
      rfl
  | encMap =>
      refine ⟨TableRow.size MapRow sizing, rfl, ?_⟩
      rw [Rows.form, length_flatMap_of_forall length_mapForm]
      rfl
  | document =>
      refine ⟨2 * sizing.blobBytes + 2 * sizing.guidBytes, rfl, ?_⟩
      rw [Sizing.blobBytes, Sizing.guidBytes, blobs, guids, Rows.form,
        length_flatMap_of_forall (widths.length_documentForm)]
      rfl
  | methodDebugInformation =>
      refine ⟨sizing.tableBytes .document + sizing.blobBytes, rfl, ?_⟩
      rw [Sizing.tableBytes, Sizing.blobBytes, blobs, documents, Rows.form,
        length_flatMap_of_forall (widths.length_methodForm)]
      rfl
  | methodDef => exact absurd one (by decide)
  | standAloneSig => exact absurd one (by decide)

/-- Padding puts up to three zeros behind. -/
theorem exists_pad (bytes : List UInt8) :
    ∃ zeros, pad bytes = bytes ++ zeros ∧ zeros.length ≤ 3 := by
  refine ⟨List.replicate (roundUp4 bytes.length - bytes.length) 0, rfl, ?_⟩
  rw [List.length_replicate, roundUp4]
  omega

/-- Padding adds three bytes at most. -/
theorem length_pad_le (bytes : List UInt8) : (pad bytes).length ≤ bytes.length + 3 := by
  obtain ⟨zeros, padded, few⟩ := exists_pad bytes
  rw [padded, List.length_append]
  exact Nat.add_le_add_left few _

/-- **A written tables stream offers all tables**, and the reader takes indices to be as wide as
they are written. -/
theorem exists_parse_encodeTables (rows : Rows) {heaps : Heaps} {bytes : List UInt8}
    (h : encodeTables rows.encMap rows.documents rows.methods heaps = .ok bytes) :
    ∃ parsed, TableStream.parse bytes false = .ok parsed ∧
      parsed.sizing.wideBlobs = (Widths.of heaps rows.documents).blobs ∧
      parsed.sizing.wideGuids = (Widths.of heaps rows.documents).guids ∧
      parsed.sizing.isWide .document = (Widths.of heaps rows.documents).documents ∧
      ∀ table, parsed.Offers table (rows.count table)
        (rows.form (.of heaps rows.documents) table) := by
  obtain ⟨small, rfl⟩ := encodeTables_eq_ok_iff.1 h
  set widths := Widths.of heaps rows.documents with widths_eq
  have wide : widths.documents = decide (UInt16.size ≤ rows.documents.size) := rfl
  obtain ⟨zeros, padded, -⟩ := exists_pad (rows.stream widths)
  obtain ⟨parsed, counts, read, sizing, offers⟩ := TableStream.exists_parse
    (rows.form widths) rows.ascending_present small
    (fun table absent => Rows.count_eq_zero absent) (testBit_heapFlags widths).2.2
    (fun counts counted table mem => exists_rowSize? wide counted mem) zeros
  refine ⟨parsed, ?_, ?_, ?_, ?_, offers⟩
  · rw [padded, Rows.stream, List.append_assoc, List.append_assoc]
    exact read
  · rw [sizing]
    exact (wide_ofHeader widths counts).1
  · rw [sizing]
    exact (wide_ofHeader widths counts).2
  · rw [Sizing.isWide, (offers .document).counted, sizing, wide]
    rfl

/-! ### How much is written -/

/-- A tables stream is not longer than with four bytes for every index. -/
theorem length_stream_le (rows : Rows) (widths : Widths) :
    (rows.stream widths).length ≤
      40 + 12 * rows.encMap.length + 16 * rows.documents.size + 8 * rows.methods.size := by
  have few : rows.present.length ≤ 4 := List.length_filter_le _ _
  have blobs := Sizing.width_le widths.blobs
  have guids := Sizing.width_le widths.guids
  have documents := Sizing.width_le widths.documents
  have document_rows : (rows.form widths .document).length ≤ 16 * rows.documents.size := by
    rw [Rows.form, length_flatMap_of_forall widths.length_documentForm, Array.length_toList]
    exact Nat.mul_le_mul_right _ (by omega)
  have method_rows : (rows.form widths .methodDebugInformation).length ≤
      8 * rows.methods.size := by
    rw [Rows.form, length_flatMap_of_forall widths.length_methodForm, Array.length_toList]
    exact Nat.mul_le_mul_right _ (by omega)
  have log_rows : (rows.form widths .encLog).length = 8 * rows.encMap.length := by
    rw [Rows.form, length_flatMap_of_forall length_logForm]
  have map_rows : (rows.form widths .encMap).length = 4 * rows.encMap.length := by
    rw [Rows.form, length_flatMap_of_forall length_mapForm]
  rw [Rows.stream, rows.flatMap_form_present]
  have counts : (rows.present.flatMap fun table => toLittle 4 (rows.count table)).length =
      4 * rows.present.length := length_flatMap_of_forall (fun _ => length_toLittle _ _) _
  simp only [List.length_append, TableStream.length_encodeStart, counts]
  omega

end SymbolHistory.Metadata
