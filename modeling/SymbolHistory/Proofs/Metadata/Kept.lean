import SymbolHistory.Proofs.Metadata.RoundTrip

/-!
# What is kept of metadata

Writing metadata checks sizes and counts, but not whether the stored form can express the metadata.
What it cannot express is lost without notice: tokens that are not those of the rows, the high half
of document columns where documents take two bytes, line tables without bytes, and row counts of
tables that the module does not have. So what is read back is not always what was written, but it is
always what is kept of it.

## Main definitions

* `Metadata.keptColumn` : what is kept of a document column.
* `Metadata.kept` : what is kept of metadata.

## Main results

* `Metadata.serialize_kept` : what is lost is not looked at when metadata is written.
* `Metadata.eq_kept_of_parse` : what is read back is what was kept.
* `Metadata.columns_of_parse` : which document columns are read back.
* `Metadata.not_forall_columns_of_parse` : these are not all of them.
-/

namespace SymbolHistory

open Bytes

/-- The counts of the tables in a mask, and no rows for the others. It must not be unfolded when
modules are compared field by field. -/
@[irreducible]
def RowCounts.within (mask : UInt64) (counts : RowCounts) : RowCounts :=
  Vector.ofFn fun number : Fin 64 => if hasBit mask number then counts.get number else 0

theorem RowCounts.get_within (mask : UInt64) (counts : RowCounts) (number : Fin 64) :
    (within mask counts).get number = if hasBit mask number then counts.get number else 0 := by
  rw [within]
  exact Vector.getElem_ofFn number.isLt

/-- Only the counts of the tables in the mask are written. -/
theorem RowCounts.encode_within (mask : UInt64) (counts : RowCounts) :
    encode mask (within mask counts) = encode mask counts := by
  refine List.flatMap_congr fun number _ => ?_
  by_cases bit : hasBit mask number
  · rw [if_pos bit, if_pos bit, get_within, if_pos bit]
  · rw [if_neg bit, if_neg bit]

namespace ModuleInfo

/-- What is kept of a module: the row counts of tables that it has, and everything else. -/
def kept (info : ModuleInfo) : ModuleInfo :=
  { info with rows := info.rows.within info.referenced }

theorem encode_kept (info : ModuleInfo) : info.kept.encode = info.encode := by
  rw [kept, encode, encode, RowCounts.encode_within]

end ModuleInfo

namespace Metadata

/-- What is kept of a document column next to so many documents: its low 16 bits if documents take
two bytes. -/
def keptColumn (documents : Nat) (column : UInt32) : UInt32 :=
  if UInt16.size ≤ documents then column else UInt32.ofNat (column.toNat % UInt16.size)

/-- What is kept of a document. Its token is that of its row. -/
def keptDocument (document : Document) : Document :=
  { document with token := .ofRow .document document.rid }

/-- What is kept of a method next to so many documents. -/
def keptMethod (documents : Nat) (method : MethodDebug) : MethodDebug :=
  { method with
    token := .ofRow .methodDebugInformation method.rid
    document := keptColumn documents method.document
    lineTable := method.lineTable.filter (· ≠ []) }

/-- What is kept of metadata. -/
def kept (metadata : Metadata) : Metadata :=
  { metadata with
    module := metadata.module.map (·.kept)
    documents := metadata.documents.map keptDocument
    methods := metadata.methods.map (keptMethod metadata.documents.size) }

/-! ### Columns -/

/-- A document column is kept exactly if it fits. -/
theorem keptColumn_eq_iff {documents : Nat} {column : UInt32} :
    keptColumn documents column = column ↔
      column.toNat < UInt16.size ∨ UInt16.size ≤ documents := by
  rw [keptColumn]
  split
  · next wide => exact ⟨fun _ => .inr wide, fun _ => rfl⟩
  · next narrow =>
    rw [← UInt32.toNat_inj, UInt32.toNat_ofNat_of_lt']
    · rw [Nat.mod_eq_iff_lt (by decide), or_iff_left narrow]
    · exact Nat.lt_of_le_of_lt (Nat.mod_le _ _) column.toNat_lt

/-- What is kept of a document column fits. -/
theorem keptColumn_fits (documents : Nat) (column : UInt32) :
    (keptColumn documents column).toNat < UInt16.size ∨ UInt16.size ≤ documents := by
  rw [keptColumn]
  split
  · next wide => exact .inr wide
  · left
    have lt := Nat.mod_lt column.toNat (by decide : 0 < UInt16.size)
    rwa [UInt32.toNat_ofNat_of_lt' (Nat.lt_trans lt (by decide))]

/-- Only what is kept of a document column is written. -/
theorem encodeIndex_keptColumn (documents : Nat) (column : UInt32) :
    encodeIndex (decide (UInt16.size ≤ documents)) (keptColumn documents column) =
      encodeIndex (decide (UInt16.size ≤ documents)) column := by
  rw [keptColumn]
  split
  · rfl
  · next narrow =>
    rw [decide_eq_false narrow, encodeIndex, encodeIndex, UInt32.toNat_ofNat_of_lt']
    · exact toLittle_mod 2 column.toNat
    · exact Nat.lt_of_le_of_lt (Nat.mod_le _ _) column.toNat_lt

/-! ### Writing -/

/-- What is kept of the columns of a method. -/
def keptCells (documents : Nat) (cells : MethodCells) : MethodCells :=
  { cells with document := keptColumn documents cells.document }

/-- What is kept of a method takes the same place in the heap as the method. -/
theorem addMethod_keptMethod (documents : Nat) (blobs : BlobHeap.Builder)
    (done : Array MethodCells) (method : MethodDebug) :
    addMethod (blobs, done.map (keptCells documents)) (keptMethod documents method) =
      (fun state => (state.1, state.2.map (keptCells documents))) <$>
        addMethod (blobs, done) method := by
  rcases method with ⟨rid, token, document, lineTable⟩
  have push : ∀ place : UInt32,
      (done.map (keptCells documents)).push ⟨keptColumn documents document, place⟩ =
        (done.push ⟨document, place⟩).map (keptCells documents) := fun place => by
    rw [Array.map_push]
    rfl
  rcases lineTable with _ | _ | ⟨byte, bytes⟩
  · exact congrArg (fun all => Except.ok (blobs, all)) (push 0)
  · exact congrArg (fun all => Except.ok (blobs, all)) (push 0)
  · change (blobs.add (byte :: bytes) >>= fun added => _) = _ <$> (blobs.add (byte :: bytes) >>= _)
    cases blobs.add (byte :: bytes) with
    | error e => rfl
    | ok added => exact congrArg (fun all => Except.ok (added.2, all)) (push added.1)

/-- So do all methods, one after the other. -/
theorem foldlM_addMethod_kept (documents : Nat) (methods : List MethodDebug)
    (blobs : BlobHeap.Builder) (done : Array MethodCells) :
    (methods.map (keptMethod documents)).foldlM addMethod
        (blobs, done.map (keptCells documents)) =
      (fun state => (state.1, state.2.map (keptCells documents))) <$>
        methods.foldlM addMethod (blobs, done) := by
  induction methods generalizing blobs done with
  | nil => rfl
  | cons method methods ih =>
      rw [List.map_cons, List.foldlM_cons, List.foldlM_cons, addMethod_keptMethod]
      cases addMethod (blobs, done) method with
      | error e => rfl
      | ok state => exact ih state.1 state.2

/-- The tables are written from what is kept of the columns. -/
theorem encodeTables_keptCells (encMap : List Token) (documents : Array DocumentCells)
    (methods : Array MethodCells) (heaps : Heaps) :
    encodeTables encMap documents (methods.map (keptCells documents.size)) heaps =
      encodeTables encMap documents methods heaps := by
  have rows (wideBlobs : Bool) :
      (methods.map (keptCells documents.size)).toList.flatMap (fun row =>
          encodeIndex (decide (UInt16.size ≤ documents.size)) row.document ++
            encodeIndex wideBlobs row.lineTable) =
        methods.toList.flatMap fun row =>
          encodeIndex (decide (UInt16.size ≤ documents.size)) row.document ++
            encodeIndex wideBlobs row.lineTable := by
    simp only [Array.toList_map, List.flatMap_map, keptCells, encodeIndex_keptColumn]
  simp only [encodeTables, Array.size_map, rows]

/-- What is kept of documents is stored as the documents are. -/
theorem foldlM_addDocument_kept (documents : List Document)
    (state : Heaps × Array DocumentCells) :
    (documents.map keptDocument).foldlM addDocument state = documents.foldlM addDocument state := by
  rw [List.foldlM_map]
  rfl

/-- Documents are stored one by one. -/
theorem size_of_addDocuments {heaps : Heaps} {cells : Array DocumentCells}
    {documents : List Document}
    (added : documents.foldlM addDocument (⟨.new, .new⟩, #[]) = .ok (heaps, cells)) :
    cells.size = documents.length := by
  have suit := (suits_of_addDocuments Heaps.valid_new added).2
  rw [← suit.length_eq, Array.length_toList]

/-- The steps of writing metadata, one after the other. -/
theorem serialize_eq_bind (metadata : Metadata) :
    serialize metadata =
      metadata.documents.toList.foldlM addDocument (⟨.new, .new⟩, #[]) >>= fun first =>
        metadata.methods.toList.foldlM addMethod (first.1.blobs, #[]) >>= fun second =>
          encodeTables metadata.encMap first.2 second.2 ⟨second.1, first.1.guids⟩ >>= fun tables =>
            encodeRoot (streams metadata.module tables ⟨second.1, first.1.guids⟩) :=
  rfl

/-- **What is lost is not looked at.** Metadata has the same stored form as what is kept of it, and
if one of them has none, neither has the other. -/
theorem serialize_kept (metadata : Metadata) : serialize metadata.kept = serialize metadata := by
  have module : moduleStreams (metadata.module.map (·.kept)) = moduleStreams metadata.module := by
    cases metadata.module with
    | none => rfl
    | some info => exact congrArg (fun bytes => [(StreamName.pdb, bytes)]) info.encode_kept
  have methods (blobs : BlobHeap.Builder) :
      metadata.kept.methods.toList.foldlM addMethod (blobs, #[]) =
        (fun state => (state.1, state.2.map (keptCells metadata.documents.size))) <$>
          metadata.methods.toList.foldlM addMethod (blobs, #[]) := by
    rw [kept, Array.toList_map, ← foldlM_addMethod_kept, Array.map_empty]
  have documents : metadata.kept.documents.toList.foldlM addDocument (⟨.new, .new⟩, #[]) =
      metadata.documents.toList.foldlM addDocument (⟨.new, .new⟩, #[]) := by
    rw [kept, Array.toList_map, foldlM_addDocument_kept]
  rw [serialize_eq_bind, serialize_eq_bind, documents]
  refine Outcome.bind_congr fun first added => ?_
  rw [methods, bind_map_left]
  refine Outcome.bind_congr fun second _ => ?_
  have size : metadata.documents.size = first.2.size := by
    rw [size_of_addDocuments added, Array.length_toList]
  dsimp only [kept]
  rw [size, encodeTables_keptCells]
  refine Outcome.bind_congr fun tables _ => ?_
  rw [streams, streams, module]

/-! ### Reading -/

/-- The stored form can express what is kept. -/
theorem storable_kept {metadata : Metadata} (numbered : metadata.Numbered)
    (entryPoint : ∀ info ∈ metadata.module,
      info.entryPoint.isNull ∨ info.entryPoint.refersTo .methodDef) : metadata.kept.Storable where
  numbered := by
    refine ⟨fun i lt => ?_, fun i lt => ?_⟩
    · have known : i < metadata.documents.size := by simpa [kept] using lt
      simpa [kept, keptDocument] using numbered.documents i known
    · have known : i < metadata.methods.size := by simpa [kept] using lt
      simpa [kept, keptMethod] using numbered.methods i known
  tokened := by
    refine ⟨fun document mem => ?_, fun method mem => ?_⟩
    · obtain ⟨original, -, rfl⟩ := Array.mem_map.1 mem
      rfl
    · obtain ⟨original, -, rfl⟩ := Array.mem_map.1 mem
      rfl
  lineTables := by
    intro method mem
    obtain ⟨original, -, rfl⟩ := Array.mem_map.1 mem
    intro nothing
    have nonempty := (Option.filter_eq_some_iff.1 nothing).2
    simp at nonempty
  columns := by
    intro method mem
    obtain ⟨original, -, rfl⟩ := Array.mem_map.1 mem
    rw [kept, Array.size_map]
    exact keptColumn_fits _ _
  module := by
    intro info mem
    obtain ⟨original, known, rfl⟩ := Option.mem_map.1 mem
    refine ⟨entryPoint original known, fun number absent => ?_⟩
    rw [ModuleInfo.kept] at absent ⊢
    rw [RowCounts.get_within, absent]
    rfl

/-- A module that is read has an entry point that is null or a method. -/
theorem entryPoint_of_decode_encode {info read : ModuleInfo}
    (h : ModuleInfo.decode info.encode = .ok read) :
    info.entryPoint.isNull ∨ info.entryPoint.refersTo .methodDef := by
  rw [ModuleInfo.decode] at h
  split at h
  · cases h
  · obtain ⟨⟨found, rest⟩, h, -⟩ := Outcome.map_eq_ok_iff.1 h
    have front : take 20 info.encode = .ok (info.id.toList,
        toLittle 4 info.entryPoint.value.toNat ++ (toLittle 8 info.referenced.toNat ++
          info.rows.encode info.referenced)) :=
      take_eq_ok_iff.2 ⟨by simp only [ModuleInfo.encode, List.append_assoc],
        Vector.length_toList⟩
    rw [ModuleInfo.read, bind_of_ok front, bind_of_ok (word32_append _ _)] at h
    by_cases allowed : info.entryPoint.isNull || info.entryPoint.refersTo .methodDef
    · simpa using allowed
    · rw [if_neg allowed] at h
      cases h

/-- **What is read back is what was kept.** -/
theorem eq_kept_of_parse {metadata read : Metadata} {data : List UInt8}
    (numbered : metadata.Numbered) (written : serialize metadata = .ok data)
    (parsed : parse data = .ok read) : read = metadata.kept := by
  obtain ⟨heaps, documents, blobs, methods, tables, -, -, -, root_written⟩ :=
    serialize_eq_ok_iff.1 written
  obtain ⟨root, root_read, rest⟩ := Outcome.bind_eq_ok_iff.1 parsed
  have small := Root.lt_of_parse root_written (by simp [streams])
    (names_streams metadata.module tables ⟨blobs, heaps.guids⟩).1 root_read
  obtain ⟨same, same_read, -, tables_found, -, -, pdb_found⟩ := exists_root root_written small
  obtain rfl := Except.ok.inj (same_read.symm.trans root_read)
  have entryPoint : ∀ info ∈ metadata.module,
      info.entryPoint.isNull ∨ info.entryPoint.refersTo .methodDef := by
    intro info known
    rw [tables_found, Option.some_or] at rest
    obtain ⟨_, -, rest⟩ := Outcome.bind_eq_ok_iff.1 rest
    obtain ⟨_, -, rest⟩ := Outcome.bind_eq_ok_iff.1 rest
    obtain ⟨_, -, rest⟩ := Outcome.bind_eq_ok_iff.1 rest
    obtain ⟨_, module_read, -⟩ := Outcome.bind_eq_ok_iff.1 rest
    rw [pdb_found, known, Option.map_some] at module_read
    obtain ⟨found, decoded, -⟩ := Outcome.map_eq_ok_iff.1 module_read
    exact entryPoint_of_decode_encode decoded
  have again : parse data = .ok metadata.kept :=
    parse_of_serialize (storable_kept numbered entryPoint)
      ((serialize_kept metadata).trans written) small
  exact Except.ok.inj (parsed.symm.trans again)

/-- **Which document columns are read back.** Metadata has the same stored form as what is kept of
it, whatever its document columns are, and that is what is read back. So every method row has what
was kept of its document column, and that is the column itself exactly if it fits into 16 bits or
there are at least 2^16 documents. -/
theorem columns_of_parse {metadata read : Metadata} {data : List UInt8}
    (numbered : metadata.Numbered) (written : serialize metadata = .ok data)
    (parsed : parse data = .ok read) :
    serialize metadata.kept = .ok data ∧ read = metadata.kept ∧
      read.methods.size = metadata.methods.size ∧
      ∀ i (h : i < metadata.methods.size) (h' : i < read.methods.size),
        read.methods[i].document =
            keptColumn metadata.documents.size metadata.methods[i].document ∧
          (read.methods[i].document = metadata.methods[i].document ↔
            metadata.methods[i].document.toNat < UInt16.size ∨
              UInt16.size ≤ metadata.documents.size) := by
  obtain rfl := eq_kept_of_parse numbered written parsed
  refine ⟨(serialize_kept metadata).trans written, rfl, by simp [kept], fun i h h' => ?_⟩
  have column : metadata.kept.methods[i].document =
      keptColumn metadata.documents.size metadata.methods[i].document := by
    simp [kept, keptMethod]
  exact ⟨column, by rw [column, keptColumn_eq_iff]⟩

/-- Symbols with one document, and a method whose document column does not fit into 16 bits. -/
def farColumn : Metadata where
  module := none
  documents := #[⟨1, .ofRow .document 1, "a.cs", .nil, [], .nil⟩]
  methods := #[.ofLineTable 1 65537 none]
  encMap := []

theorem numbered_farColumn : farColumn.Numbered :=
  ⟨by decide, by decide⟩

/-- The method is kept with the column of the one document that there is. -/
theorem methods_kept_farColumn : farColumn.kept.methods = #[.ofLineTable 1 1 none] := by
  have column : keptColumn 1 65537 = 1 := by decide
  simp [kept, farColumn, keptMethod, column, MethodDebug.ofLineTable]

/-- They have a stored form, which is read. -/
theorem exists_parse_farColumn :
    ∃ data, serialize farColumn = .ok data ∧ parse data = .ok farColumn.kept := by
  obtain ⟨data, written, small⟩ := @exists_serialize farColumn (by decide) (by decide) (by decide)
    (by decide)
  have storable := storable_kept numbered_farColumn nofun
  exact ⟨data, written, parse_of_serialize storable ((serialize_kept _).trans written) small⟩

/-- The method is read back with another column than it was written with. -/
theorem columns_of_parse_farColumn :
    ∃ (data : List UInt8) (read : Metadata), farColumn.Numbered ∧
      serialize farColumn = .ok data ∧ parse data = .ok read ∧
      ∃ h : 0 < read.methods.size, read.methods[0].document = 1 ∧
        read.methods[0].document ≠ farColumn.methods[0].document := by
  obtain ⟨data, written, parsed⟩ := exists_parse_farColumn
  obtain ⟨-, -, size, columns⟩ := columns_of_parse numbered_farColumn written parsed
  have inside : 0 < farColumn.kept.methods.size := size.symm ▸ Nat.one_pos
  obtain ⟨column, fits⟩ := columns 0 Nat.one_pos inside
  exact ⟨data, _, numbered_farColumn, written, parsed, inside, column.trans (by decide),
    fun same => absurd (fits.1 same) (by decide)⟩

/-- So columns that do not fit are neither refused nor read back. -/
theorem not_forall_columns_of_parse :
    ¬∀ (metadata read : Metadata) (data : List UInt8), metadata.Numbered →
      serialize metadata = .ok data → parse data = .ok read →
        read.methods.map (·.document) = metadata.methods.map (·.document) := by
  intro all
  obtain ⟨data, written, parsed⟩ := exists_parse_farColumn
  have same := all farColumn farColumn.kept data numbered_farColumn written parsed
  rw [methods_kept_farColumn] at same
  simp [farColumn, MethodDebug.ofLineTable] at same

end Metadata

end SymbolHistory
