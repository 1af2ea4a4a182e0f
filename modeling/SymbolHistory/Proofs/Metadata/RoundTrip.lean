import SymbolHistory.Metadata.Parse
import SymbolHistory.Proofs.Layout.Root
import SymbolHistory.Proofs.Metadata.Heaps
import SymbolHistory.Proofs.Metadata.Tables

/-!
# Metadata is read back

Metadata that its stored form can express is read back as it is, as long as the stored form stays
below 2^32 bytes. It does if the metadata does not hold too much, and then writing succeeds.

## Main definitions

* `Metadata.Storable` : what the stored form can express.
* `Metadata.contentSize` : the bytes of all paths, hashes and line tables.

## Main results

* `Metadata.serialize_eq_ok_iff` : the steps of writing metadata.
* `Metadata.parse_of_serialize` : storable metadata is read back from its stored form.
* `Metadata.exists_serialize` : metadata that is not too large has a stored form.
* `Metadata.parse_serialize` : the two together.
-/

namespace SymbolHistory.Metadata

open Bytes

/-! ### Writing -/

/-- The stream of the module, if there is a module. -/
def moduleStreams : Option ModuleInfo → List (StreamName × List UInt8)
  | some info => [(.pdb, info.encode)]
  | none => []

/-- The streams that are written. -/
def streams (info : Option ModuleInfo) (tables : List UInt8) (heaps : Heaps) :
    List (StreamName × List UInt8) :=
  moduleStreams info ++ [(.tables, tables), (.strings, [0, 0, 0, 0]),
    (.userStrings, [0, 0, 0, 0]), (.guid, heaps.guids.toBytes),
    (.blob, pad heaps.blobs.bytes.toList)]

/-- The steps of writing metadata: documents and methods go to the heaps, then the tables and at
last the streams are written. -/
theorem serialize_eq_ok_iff {metadata : Metadata} {data : List UInt8} :
    serialize metadata = .ok data ↔
      ∃ heaps documents blobs methods tables,
        metadata.documents.toList.foldlM addDocument (⟨.new, .new⟩, #[]) =
          .ok (heaps, documents) ∧
        metadata.methods.toList.foldlM addMethod (heaps.blobs, #[]) = .ok (blobs, methods) ∧
        encodeTables metadata.encMap documents methods ⟨blobs, heaps.guids⟩ = .ok tables ∧
        encodeRoot (streams metadata.module tables ⟨blobs, heaps.guids⟩) = .ok data := by
  rw [serialize, Outcome.bind_eq_ok_iff]
  constructor
  · rintro ⟨⟨heaps, documents⟩, added, h⟩
    obtain ⟨⟨blobs, methods⟩, more, h⟩ := Outcome.bind_eq_ok_iff.1 h
    obtain ⟨tables, written, h⟩ := Outcome.bind_eq_ok_iff.1 h
    exact ⟨heaps, documents, blobs, methods, tables, added, more, written, h⟩
  · rintro ⟨heaps, documents, blobs, methods, tables, added, more, written, h⟩
    refine ⟨(heaps, documents), added, ?_⟩
    simp only
    rw [Outcome.bind_eq_ok_iff]
    refine ⟨(blobs, methods), more, ?_⟩
    simp only
    rw [Outcome.bind_eq_ok_iff]
    exact ⟨tables, written, h⟩

/-- All streams have different names, and none is the mark of a minimal update. -/
theorem names_streams (info : Option ModuleInfo) (tables : List UInt8) (heaps : Heaps) :
    ((streams info tables heaps).map (·.1)).Nodup ∧
      StreamName.minimalDelta ∉ (streams info tables heaps).map (·.1) := by
  cases info with
  | none =>
      change [StreamName.tables, .strings, .userStrings, .guid, .blob].Nodup ∧
        .minimalDelta ∉ [StreamName.tables, .strings, .userStrings, .guid, .blob]
      decide
  | some info =>
      change [StreamName.pdb, .tables, .strings, .userStrings, .guid, .blob].Nodup ∧
        .minimalDelta ∉ [StreamName.pdb, .tables, .strings, .userStrings, .guid, .blob]
      decide

/-- What the streams are found to be by their names. -/
theorem lookup_streams (info : Option ModuleInfo) (tables : List UInt8) (heaps : Heaps) :
    (streams info tables heaps).lookup .tables = some tables ∧
      (streams info tables heaps).lookup .blob = some (pad heaps.blobs.bytes.toList) ∧
      (streams info tables heaps).lookup .guid = some heaps.guids.toBytes ∧
      (streams info tables heaps).lookup .pdb = info.map ModuleInfo.encode := by
  cases info <;> exact ⟨rfl, rfl, rfl, rfl⟩

/-- How many bytes the streams have together. -/
theorem length_streams (info : Option ModuleInfo) (tables : List UInt8) (heaps : Heaps) :
    ((streams info tables heaps).flatMap (·.2)).length =
      ((moduleStreams info).flatMap (·.2)).length + tables.length + 8 +
        16 * heaps.guids.guids.size + (pad heaps.blobs.bytes.toList).length := by
  have guids := heaps.guids.length_toBytes
  simp only [streams, List.flatMap_append, List.flatMap_cons, List.flatMap_nil, List.append_nil,
    List.length_append, List.length_cons, List.length_nil, guids]
  omega

/-! ### Reading -/

/-- What the stored form can express. Rows are found again by their places, so these say their
numbers and tokens. An empty line table cannot be told from none. A document column takes two bytes
where there are few documents. -/
structure Storable (metadata : Metadata) : Prop where
  /-- Rows have the numbers of their places. -/
  numbered : metadata.Numbered
  /-- Rows have the tokens of their numbers. -/
  tokened : metadata.Tokened
  /-- No line table is empty. -/
  lineTables : ∀ method ∈ metadata.methods, method.lineTable ≠ some []
  /-- Document columns fit into the width of documents. -/
  columns : ∀ method ∈ metadata.methods,
    method.document.toNat < UInt16.size ∨ UInt16.size ≤ metadata.documents.size
  /-- The module can be expressed. -/
  module : ∀ info ∈ metadata.module, info.Storable

/-- A row that stands at its number has that number. -/
theorem ofNat_eq_rid {rid : UInt32} {i : Nat} (number : rid.toNat = i + 1) :
    UInt32.ofNat (1 + i) = rid := by
  rw [Nat.add_comm, ← number, UInt32.ofNat_toNat]

section

variable {metadata : Metadata} {heaps : Heaps} {rows : Rows} {parsed : TableStream}
  {stored : List UInt8}

/-- **Documents are read back** from tables with the right cells. -/
theorem mapM_resolve_documents (storable : metadata.Storable) (valid : heaps.Valid)
    (suit : List.Forall₂ (DocumentCells.Suits heaps) rows.documents.toList
      metadata.documents.toList)
    (few : heaps.guids.guids.size < UInt32.size) (kept : heaps.blobs.bytes.toList <+: stored)
    (blobs_wide : parsed.sizing.wideBlobs = (Widths.of heaps rows.documents).blobs)
    (guids_wide : parsed.sizing.wideGuids = (Widths.of heaps rows.documents).guids)
    (offers : parsed.Offers .document (rows.count .document)
      (rows.form (.of heaps rows.documents) .document)) :
    ∃ found, parsed.rows DocumentRow = .ok found ∧
      found.mapM (·.resolve ⟨stored.toArray⟩ ⟨heaps.guids.guids⟩) =
        .ok metadata.documents.toList := by
  set widths := Widths.of heaps rows.documents with widths_eq
  have offers : parsed.Offers .document rows.documents.toList.length
      (rows.documents.toList.flatMap widths.documentForm) := by
    rw [Array.length_toList]
    exact offers
  refine TableStream.Offers.mapM_rows widths.documentForm _ offers suit.length_eq
    fun i hc hv offset rest => ?_
  have suits := (List.forall₂_iff_get.1 suit).2 i hc hv
  simp only [List.get_eq_getElem] at suits
  set cells := rows.documents.toList[i]
  set document := metadata.documents.toList[i] with document_eq
  have number : document.rid.toNat = i + 1 := by
    simpa [document_eq] using storable.numbered.documents i (by simpa using hv)
  have token : document.token = .ofRow .document document.rid :=
    storable.tokened.documents document (Array.mem_toList_iff.1 (List.getElem_mem hv))
  have blobs_fit : ∀ {index : UInt32}, index.toNat < heaps.blobs.bytes.toList.length →
      IndexFits parsed.sizing.wideBlobs index := by
    intro index lt
    rw [blobs_wide]
    exact indexFits_of_le (Nat.le_of_lt lt)
  have guids_fit : ∀ {index : UInt32} {guid : Guid},
      GuidHeap.Stores heaps.guids.guids.toList index guid →
      IndexFits parsed.sizing.wideGuids index := by
    intro index guid stores
    rw [guids_wide]
    exact indexFits_of_le (stores.get few).2
  rw [ofNat_eq_rid number, Widths.documentForm, ← blobs_wide, ← guids_wide]
  exact ⟨_, read_documentRow (blobs_fit suits.name.lt) (guids_fit suits.hashAlgorithm)
    (blobs_fit suits.hash.lt) (guids_fit suits.language) document.rid offset rest,
    suits.resolve valid kept few token offset⟩

/-- **Methods are read back** from tables with the right cells. -/
theorem mapM_resolve_methods (storable : metadata.Storable) (valid : heaps.Valid)
    (suit : List.Forall₂ (MethodCells.Suits heaps.blobs) rows.methods.toList
      metadata.methods.toList)
    (same_size : rows.documents.size = metadata.documents.size)
    (kept : heaps.blobs.bytes.toList <+: stored)
    (blobs_wide : parsed.sizing.wideBlobs = (Widths.of heaps rows.documents).blobs)
    (documents_wide : parsed.sizing.isWide .document = (Widths.of heaps rows.documents).documents)
    (offers : parsed.Offers .methodDebugInformation (rows.count .methodDebugInformation)
      (rows.form (.of heaps rows.documents) .methodDebugInformation)) :
    ∃ found, parsed.rows MethodRow = .ok found ∧
      found.mapM (·.resolve ⟨stored.toArray⟩) = .ok metadata.methods.toList := by
  set widths := Widths.of heaps rows.documents with widths_eq
  have offers : parsed.Offers .methodDebugInformation rows.methods.toList.length
      (rows.methods.toList.flatMap widths.methodForm) := by
    rw [Array.length_toList]
    exact offers
  refine TableStream.Offers.mapM_rows widths.methodForm _ offers suit.length_eq
    fun i hc hv offset rest => ?_
  have suits := (List.forall₂_iff_get.1 suit).2 i hc hv
  simp only [List.get_eq_getElem] at suits
  set cells := rows.methods.toList[i]
  set method := metadata.methods.toList[i] with method_eq
  have mem : method ∈ metadata.methods := Array.mem_toList_iff.1 (List.getElem_mem hv)
  have number : method.rid.toNat = i + 1 := by
    simpa [method_eq] using storable.numbered.methods i (by simpa using hv)
  have token : method.token = .ofRow .methodDebugInformation method.rid :=
    storable.tokened.methods method mem
  have document_fits : IndexFits (parsed.sizing.isWide .document) cells.document := by
    rw [documents_wide, suits.document]
    refine (storable.columns method mem).symm.imp (fun wide => ?_) id
    rw [← same_size] at wide
    exact decide_eq_true wide
  have lineTable_fits : IndexFits parsed.sizing.wideBlobs cells.lineTable := by
    rw [blobs_wide]
    refine indexFits_of_le ?_
    obtain ⟨-, zero⟩ | ⟨blob, -, stores⟩ := suits.lineTable
    · rw [zero]
      exact Nat.zero_le _
    · exact Nat.le_of_lt stores.lt
  rw [ofNat_eq_rid number, Widths.methodForm, ← documents_wide, ← blobs_wide]
  exact ⟨_, read_methodRow document_fits lineTable_fits method.rid offset rest,
    suits.resolve valid.blobs kept token (storable.lineTables method mem) offset⟩

/-- **The map is read back.** -/
theorem map_token_rows {widths : Widths}
    (offers : parsed.Offers .encMap (rows.count .encMap) (rows.form widths .encMap)) :
    ∃ found, parsed.rows MapRow = .ok found ∧ found.map (·.token) = rows.encMap := by
  have offers : parsed.Offers .encMap rows.encMap.length (rows.encMap.flatMap mapForm) := offers
  obtain ⟨found, read, suit⟩ := TableStream.Offers.rows
    (fun (row : MapRow) token => row.token = token) offers
    fun i lt offset rest => ⟨_, read_mapRow parsed.sizing rows.encMap[i] _ offset rest, rfl⟩
  refine ⟨found, read, ?_⟩
  rw [← List.forall₂_eq_eq_eq, List.forall₂_map_left_iff]
  exact suit

end

/-- A blob heap with an empty blob at its start can be read from, also with padding. -/
theorem ofBytes_pad {blobs : BlobHeap.Builder} (valid : blobs.Valid) :
    ∃ stored, blobs.bytes.toList <+: stored ∧
      BlobHeap.ofBytes (pad blobs.bytes.toList) = .ok ⟨stored.toArray⟩ := by
  obtain ⟨zeros, padded, -⟩ := exists_pad blobs.bytes.toList
  have kept : blobs.bytes.toList <+: pad blobs.bytes.toList := by
    rw [padded]
    exact List.prefix_append _ _
  exact ⟨pad blobs.bytes.toList, kept, (valid.empty.mono kept).ofBytes⟩

/-- **The streams are found again by their names**, and no header is the mark of a minimal
update. -/
theorem exists_root {info : Option ModuleInfo} {tables data : List UInt8} {heaps : Heaps}
    (h : encodeRoot (streams info tables heaps) = .ok data) (small : data.length < UInt32.size) :
    ∃ root, Root.parse data = .ok root ∧
      root.headers.any (fun header => decide (header.name = .minimalDelta)) = false ∧
      root.stream? data .tables = some tables ∧
      root.stream? data .blob = some (pad heaps.blobs.bytes.toList) ∧
      root.stream? data .guid = some heaps.guids.toBytes ∧
      root.stream? data .pdb = info.map ModuleInfo.encode := by
  obtain ⟨distinct, not_minimal⟩ := names_streams info tables heaps
  obtain ⟨root, read, names, found⟩ :=
    Root.exists_parse h (by simp [streams]) distinct small
  refine ⟨root, read, ?_, ?_⟩
  · rw [List.any_eq_false]
    intro header mem same
    rw [← names] at not_minimal
    exact not_minimal (List.mem_map.2 ⟨header, mem, of_decide_eq_true same⟩)
  · rw [found, found, found, found]
    exact lookup_streams info tables heaps

/-- The module is read back, also if there is none. -/
theorem read_module {info : Option ModuleInfo} (storable : ∀ known ∈ info, known.Storable) :
    streamOr (info.map ModuleInfo.encode) none (some <$> ModuleInfo.decode ·) = .ok info := by
  cases info with
  | none => rfl
  | some known =>
      rw [Option.map_some, streamOr, ModuleInfo.decode_encode (storable known rfl)]
      rfl

/-- **Storable metadata is read back from its stored form**, if that is below 2^32 bytes. -/
theorem parse_of_serialize {metadata : Metadata} {data : List UInt8} (storable : metadata.Storable)
    (h : serialize metadata = .ok data) (small : data.length < UInt32.size) :
    parse data = .ok metadata := by
  obtain ⟨first, documents, blobs, methods, tables, documents_added, methods_added,
    tables_written, root_written⟩ := serialize_eq_ok_iff.1 h
  obtain ⟨first_grows, first_suits⟩ := suits_of_addDocuments Heaps.valid_new documents_added
  obtain ⟨blobs_grow, method_suits⟩ := suits_of_addMethods first_grows.valid.blobs methods_added
  -- The cells of documents are right for the heaps at the end as well.
  set rows : Rows := ⟨metadata.encMap, documents, methods⟩ with rows_eq
  set heaps : Heaps := ⟨blobs, first.guids⟩ with heaps_eq
  have grows : first.Grows heaps := ⟨blobs_grow, first_grows.valid.guids.grows⟩
  have document_suits : List.Forall₂ (DocumentCells.Suits heaps) rows.documents.toList
      metadata.documents.toList := first_suits.imp fun _ _ suits => suits.of_grows grows
  have same_size : rows.documents.size = metadata.documents.size := by
    simpa using document_suits.length_eq
  have few : heaps.guids.guids.size < UInt32.size := by
    have length := Root.length_of_encodeRoot root_written
    rw [length_streams] at length
    omega
  -- The root, the tables and the heaps are found again.
  obtain ⟨root, root_read, narrow, tables_found, blob_found, guid_found, pdb_found⟩ :=
    exists_root root_written small
  obtain ⟨parsed, tables_read, blobs_wide, guids_wide, documents_wide, offers⟩ :=
    exists_parse_encodeTables rows tables_written
  obtain ⟨stored, kept, blobs_read⟩ := ofBytes_pad grows.valid.blobs
  obtain ⟨document_rows, documents_read, documents_resolved⟩ :=
    mapM_resolve_documents storable grows.valid document_suits few kept blobs_wide guids_wide
      (offers .document)
  obtain ⟨method_rows, methods_read, methods_resolved⟩ :=
    mapM_resolve_methods storable grows.valid method_suits same_size kept blobs_wide
      documents_wide (offers .methodDebugInformation)
  obtain ⟨map_rows, map_read, map_eq⟩ := map_token_rows (offers .encMap)
  rw [parse, Outcome.bind_eq_ok_iff]
  refine ⟨root, root_read, ?_⟩
  rw [tables_found, Option.some_or]
  simp only
  rw [narrow, blob_found, guid_found, pdb_found, Outcome.bind_eq_ok_iff]
  refine ⟨parsed, tables_read, ?_⟩
  rw [Outcome.bind_eq_ok_iff]
  refine ⟨⟨stored.toArray⟩, blobs_read, ?_⟩
  rw [Outcome.bind_eq_ok_iff]
  refine ⟨⟨heaps.guids.guids⟩, GuidHeap.ofBytes_toBytes heaps.guids, ?_⟩
  rw [Outcome.bind_eq_ok_iff]
  refine ⟨metadata.module, read_module storable.module, ?_⟩
  rw [Outcome.bind_eq_ok_iff]
  refine ⟨document_rows, documents_read, ?_⟩
  rw [Outcome.bind_eq_ok_iff]
  refine ⟨metadata.documents.toList, documents_resolved, ?_⟩
  rw [Outcome.bind_eq_ok_iff]
  refine ⟨method_rows, methods_read, ?_⟩
  rw [Outcome.bind_eq_ok_iff]
  refine ⟨metadata.methods.toList, methods_resolved, ?_⟩
  rw [Outcome.bind_eq_ok_iff]
  refine ⟨map_rows, map_read, ?_⟩
  rw [map_eq, Array.toArray_toList, Array.toArray_toList]
  rfl

/-! ### How much is written -/

/-- The bytes of the path and the hash of a document. -/
def documentContent (document : Document) : Nat :=
  document.name.utf8ByteSize + document.hash.length

/-- The bytes of the line table of a method. -/
def methodContent (method : MethodDebug) : Nat :=
  (method.lineTable.getD []).length

/-- The bytes of all paths, hashes and line tables. -/
def contentSize (metadata : Metadata) : Nat :=
  (metadata.documents.toList.map documentContent).sum +
    (metadata.methods.toList.map methodContent).sum

/-- What is bounded by content member by member is bounded by it together. -/
theorem sum_map_le {α : Type} {cost content : α → Nat} {factor each : Nat}
    (h : ∀ a, cost a ≤ factor * content a + each) (as : List α) :
    (as.map cost).sum ≤ factor * (as.map content).sum + each * as.length := by
  induction as with
  | nil => exact Nat.zero_le _
  | cons a as ih =>
      have first := h a
      rw [List.map_cons, List.sum_cons, List.map_cons, List.sum_cons, List.length_cons,
        Nat.mul_add, Nat.mul_succ]
      omega

theorem documentCost_le (document : Document) :
    documentCost document ≤ 8 * documentContent document + 17 := by
  rw [documentCost, DocumentName.cost, documentContent]
  omega

theorem methodCost_le (method : MethodDebug) :
    methodCost method ≤ 1 * methodContent method + 4 := by
  rw [methodCost, methodContent]
  omega

/-- Heaps while documents are added: valid, with two GUIDs for each document at most. -/
def Filling (state : Heaps × Array DocumentCells) : Prop :=
  state.1.Valid ∧ state.1.guids.guids.size ≤ 2 * state.2.size

/-- Documents go to the heaps while there is room. -/
theorem exists_addDocuments (documents : List Document)
    (room : 1 + (documents.map documentCost).sum ≤ Width.four.bound) :
    ∃ heaps cells, documents.foldlM addDocument (⟨.new, .new⟩, #[]) = .ok (heaps, cells) ∧
      heaps.blobs.bytes.size ≤ 1 + (documents.map documentCost).sum ∧
      heaps.guids.guids.size ≤ 2 * cells.size := by
  have one : ∀ state document, Filling state →
      state.1.blobs.bytes.size + documentCost document ≤ Width.four.bound →
      ∃ next, addDocument state document = .ok next ∧ Filling next ∧
        next.1.blobs.bytes.size ≤ state.1.blobs.bytes.size + documentCost document := by
    rintro ⟨heaps, done⟩ document ⟨valid, few⟩ room
    have valid : heaps.Valid := valid
    have few : heaps.guids.guids.size ≤ 2 * done.size := few
    obtain ⟨later, all, added, size, guids, count⟩ := exists_addDocument done valid room
    have still : later.guids.guids.size ≤ 2 * all.size := by omega
    exact ⟨(later, all), added, ⟨(suits_of_addDocument valid added).1.valid, still⟩, size⟩
  obtain ⟨⟨heaps, cells⟩, added, ⟨-, few⟩, size⟩ := Outcome.exists_foldlM Filling
    (fun state => state.1.blobs.bytes.size) documentCost one documents (⟨.new, .new⟩, #[])
    ⟨Heaps.valid_new, Nat.zero_le _⟩ room
  exact ⟨heaps, cells, added, size, few⟩

/-- Methods go to the heap while there is room. -/
theorem exists_addMethods (blobs : BlobHeap.Builder) (methods : List MethodDebug)
    (room : blobs.bytes.size + (methods.map methodCost).sum ≤ Width.four.bound) :
    ∃ later cells, methods.foldlM addMethod (blobs, #[]) = .ok (later, cells) ∧
      later.bytes.size ≤ blobs.bytes.size + (methods.map methodCost).sum := by
  have one : ∀ (state : BlobHeap.Builder × Array MethodCells) method, True →
      state.1.bytes.size + methodCost method ≤ Width.four.bound →
      ∃ next, addMethod state method = .ok next ∧ True ∧
        next.1.bytes.size ≤ state.1.bytes.size + methodCost method := by
    rintro ⟨blobs, done⟩ method - room
    obtain ⟨later, all, added, size, -⟩ := exists_addMethod done room
    exact ⟨(later, all), added, trivial, size⟩
  obtain ⟨⟨later, cells⟩, added, -, size⟩ := Outcome.exists_foldlM (fun _ => True)
    (fun state => state.1.bytes.size) methodCost one methods (blobs, #[]) trivial room
  exact ⟨later, cells, added, size⟩

/-- The headers of all streams are short. -/
theorem headersSize_streams_le (info : Option ModuleInfo) (tables : List UInt8) (heaps : Heaps) :
    Root.headersSize (streams info tables heaps) ≤ 92 := by
  have fields : StreamName.pdb.fieldSize = 8 ∧ StreamName.tables.fieldSize = 4 ∧
      StreamName.strings.fieldSize = 12 ∧ StreamName.userStrings.fieldSize = 4 ∧
      StreamName.guid.fieldSize = 8 ∧ StreamName.blob.fieldSize = 8 := by decide
  have none : Root.headersSize [] = 0 := rfl
  cases info <;>
    simp only [streams, moduleStreams, List.nil_append, List.cons_append, Root.headersSize_cons,
      none] <;>
    omega

/-- The stream of the module is short. -/
theorem length_moduleStreams_le (info : Option ModuleInfo) :
    ((moduleStreams info).flatMap (·.2)).length ≤ 288 := by
  cases info with
  | none => exact Nat.zero_le _
  | some info =>
      rw [moduleStreams, List.flatMap_singleton]
      exact info.length_encode_le

/-- How much is written at most, with four bytes for every index. -/
theorem length_root_le (info : Option ModuleInfo) (rows : Rows) (heaps : Heaps) (widths : Widths) :
    32 + Root.headersSize (streams info (pad (rows.stream widths)) heaps) +
        ((streams info (pad (rows.stream widths)) heaps).flatMap (·.2)).length ≤
      466 + 12 * rows.encMap.length + 16 * rows.documents.size + 8 * rows.methods.size +
        16 * heaps.guids.guids.size + heaps.blobs.bytes.size := by
  have headers := headersSize_streams_le info (pad (rows.stream widths)) heaps
  have module := length_moduleStreams_le info
  have tables := length_stream_le rows widths
  have tables_padded := length_pad_le (rows.stream widths)
  have blobs_padded := length_pad_le heaps.blobs.bytes.toList
  have stored : heaps.blobs.bytes.toList.length = heaps.blobs.bytes.size := Array.length_toList
  rw [length_streams]
  omega

/-- **Metadata that is not too large has a stored form**, and that is below 2^32 bytes. -/
theorem exists_serialize {metadata : Metadata} (content : metadata.contentSize < 2 ^ 20)
    (documents : metadata.documents.size < 2 ^ 20) (methods : metadata.methods.size < 2 ^ 20)
    (encMap : metadata.encMap.length < 2 ^ 20) :
    ∃ data, serialize metadata = .ok data ∧ data.length < UInt32.size := by
  have words : UInt32.size = 2 ^ 32 := rfl
  have bound : Width.four.bound = 2 ^ 29 := rfl
  rw [contentSize] at content
  rw [← Array.length_toList] at documents methods
  have documents_cost := sum_map_le documentCost_le metadata.documents.toList
  have methods_cost := sum_map_le methodCost_le metadata.methods.toList
  obtain ⟨first, cells, documents_added, first_size, few⟩ :=
    exists_addDocuments metadata.documents.toList (by omega)
  obtain ⟨blobs, method_cells, methods_added, blobs_size⟩ :=
    exists_addMethods first.blobs metadata.methods.toList (by omega)
  obtain ⟨first_grows, document_suits⟩ := suits_of_addDocuments Heaps.valid_new documents_added
  obtain ⟨-, method_suits⟩ := suits_of_addMethods first_grows.valid.blobs methods_added
  have cells_size : cells.size = metadata.documents.toList.length := by
    rw [← document_suits.length_eq, Array.length_toList]
  have method_cells_size : method_cells.size = metadata.methods.toList.length := by
    rw [← method_suits.length_eq, Array.length_toList]
  set rows : Rows := ⟨metadata.encMap, cells, method_cells⟩ with rows_eq
  set heaps : Heaps := ⟨blobs, first.guids⟩ with heaps_eq
  have small : ∀ table, rows.count table < UInt32.size := by
    intro table
    cases table <;> simp only [Rows.count, rows_eq] <;> omega
  set widths := Widths.of heaps rows.documents
  have tables_written : encodeTables rows.encMap rows.documents rows.methods heaps =
      .ok (pad (rows.stream widths)) := encodeTables_eq_ok_iff.2 ⟨small, rfl⟩
  have total : 32 + Root.headersSize (streams metadata.module (pad (rows.stream widths)) heaps) +
      ((streams metadata.module (pad (rows.stream widths)) heaps).flatMap (·.2)).length <
        UInt32.size := by
    refine Nat.lt_of_le_of_lt (length_root_le metadata.module rows heaps widths) ?_
    simp only [rows_eq, heaps_eq]
    omega
  obtain ⟨data, root_written⟩ := Root.exists_encodeRoot total
  refine ⟨data, serialize_eq_ok_iff.2 ⟨first, cells, blobs, method_cells, _, documents_added,
    methods_added, tables_written, root_written⟩, ?_⟩
  rw [Root.length_of_encodeRoot root_written]
  exact total

/-! ### Round trip -/

/-- **Metadata and its stored form.** What the stored form can express is read back as it is, from
any stored form below 2^32 bytes. If all paths, hashes and line tables together have less than 2^20
bytes, and there are less than 2^20 documents, methods and entries of the map, then there is a
stored form, and it is below 2^32 bytes. -/
theorem parse_serialize (metadata : Metadata) :
    (metadata.Storable → ∀ data, serialize metadata = .ok data → data.length < UInt32.size →
      parse data = .ok metadata) ∧
    (metadata.contentSize < 2 ^ 20 → metadata.documents.size < 2 ^ 20 →
      metadata.methods.size < 2 ^ 20 → metadata.encMap.length < 2 ^ 20 →
      ∃ data, serialize metadata = .ok data ∧ data.length < UInt32.size) :=
  ⟨fun storable _ h small => parse_of_serialize storable h small, exists_serialize⟩

/-- Symbols of a module with two methods, in documents whose paths mix separators and have empty
parts. -/
def mixedPaths : Metadata where
  module := some ⟨Vector.replicate 20 7, .ofRow .methodDef 1, 0x40,
    (Vector.replicate 64 0).set 6 2⟩
  documents := #[⟨1, .ofRow .document 1, "C:\\src//a\\/b.cs", .sha256, [1, 2, 3], .csharp⟩,
    ⟨2, .ofRow .document 2, "", .nil, [], .nil⟩,
    ⟨3, .ofRow .document 3, "\\\\x\\", .sha1, [1, 2, 3], .fsharp⟩]
  methods := #[.ofLineTable 1 3 (some [0, 0, 0, 4, 10, 1]), .ofLineTable 2 0 none]
  encMap := [.ofRow .document 9, .ofRow .methodDebugInformation 2]

theorem storable_mixedPaths : mixedPaths.Storable where
  numbered := ⟨by decide, by decide⟩
  tokened := ⟨by decide, by decide⟩
  lineTables := by decide
  columns := by decide
  module info mem := by
    obtain rfl := Option.some.inj mem
    exact ⟨.inr (by decide), by decide⟩

/-- Those symbols have a stored form, and are read back from it. -/
theorem parse_serialize_mixedPaths :
    mixedPaths.Storable ∧ mixedPaths.contentSize < 2 ^ 20 ∧
      mixedPaths.documents.size < 2 ^ 20 ∧ mixedPaths.methods.size < 2 ^ 20 ∧
      mixedPaths.encMap.length < 2 ^ 20 ∧
      ∃ data, serialize mixedPaths = .ok data ∧ data.length < UInt32.size ∧
        parse data = .ok mixedPaths := by
  have content : mixedPaths.contentSize < 2 ^ 20 := by decide
  have documents : mixedPaths.documents.size < 2 ^ 20 := by decide
  have methods : mixedPaths.methods.size < 2 ^ 20 := by decide
  have encMap : mixedPaths.encMap.length < 2 ^ 20 := by decide
  obtain ⟨data, written, small⟩ := (parse_serialize mixedPaths).2 content documents methods encMap
  exact ⟨storable_mixedPaths, content, documents, methods, encMap, data, written, small,
    (parse_serialize mixedPaths).1 storable_mixedPaths data written small⟩

end SymbolHistory.Metadata
