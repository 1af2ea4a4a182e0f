import SymbolHistory.Proofs.Machine.Document
import SymbolHistory.Proofs.Machine.Root
import SymbolHistory.Proofs.Machine.Tables
import SymbolHistory.Metadata.Parse

/-!
# Debug metadata on a machine

Every step from the bytes to the metadata of a generation, as a machine takes it. None of them runs
into a trap, whatever the bytes are, and each fails where the library fails and with the same error.

## Main definitions

* `readMetadata` : the debug metadata in a string of bytes.
* `Fits` : metadata with names and line tables that are not larger than an object can be.

## Main results

* `readMetadata_eq` : a machine reads the metadata that the library reads.
* `fits_of_parse` : metadata that is read fits.
-/

namespace SymbolHistory.Machine

open Metadata (streamOr)

/-- The value of an optional stream, or a default where there is no such stream. -/
def valueOr {α : Type} (stream : Option (List UInt8)) (absent : α)
    (decode : List UInt8 → Exec α) : Exec α :=
  match stream with
  | some bytes => decode bytes
  | none => pure absent

/-- The debug information of a stored row. -/
def resolveMethod (row : MethodRow) (blobs : BlobHeap) : Exec MethodDebug := do
  if row.lineTable = 0 then
    return ⟨row.rid, row.token, row.document, none⟩
  else
    let stored ← blobAt blobs row.lineTable.toNat
    return ⟨row.rid, row.token, row.document, some stored⟩

/-- What the tables and heaps of metadata say. -/
def metadataFrom (root : Root) (data stream : List UInt8) : Exec Metadata := do
  let allWide := root.headers.any (·.name = .minimalDelta)
  let tables ← readTables stream allWide
  let blobs ← valueOr (← streamBytes root data .blob) .empty blobHeap
  let guids ← valueOr (← streamBytes root data .guid) [] guidHeap
  let module ← valueOr (← streamBytes root data .pdb) none fun bytes => some <$> moduleInfo bytes
  let documents ← (← rowsOf tables DocumentRow).mapM (resolveDocument · blobs guids)
  let methods ← (← rowsOf tables MethodRow).mapM (resolveMethod · blobs)
  let encMap ← rowsOf tables MapRow
  return ⟨module, documents.toArray, methods.toArray, encMap.map (·.token)⟩

/-- The debug metadata in a string of bytes. -/
def readMetadata (data : List UInt8) : Exec Metadata := do
  let root ← readRoot data
  match ← streamBytes root data .tables with
  | some stream => metadataFrom root data stream
  | none =>
    match ← streamBytes root data .editTables with
    | some stream => metadataFrom root data stream
    | none => fail (.malformed .noTables)

theorem resolveMethod_eq {row : MethodRow} {blobs : BlobHeap}
    (bounded : blobs.bytes.size < objectBound) :
    resolveMethod row blobs = ofExcept (row.resolve blobs) := by
  rw [resolveMethod, MethodRow.resolve, ofExcept_ite, ofExcept_bind, blobAt_eq bounded]
  rfl

/-- A stream is not larger than the data. -/
theorem length_stream_le {root : Root} {data stream : List UInt8} {name : StreamName}
    (h : root.stream? data name = some stream) : stream.length ≤ data.length := by
  obtain ⟨header, -, rfl⟩ := Option.map_eq_some_iff.1 h
  rw [List.length_take, List.length_drop]
  omega

section Values

variable {root : Root} {data : List UInt8} {name : StreamName}

/-- A machine has the blobs that the library has, and they fit. -/
theorem mirrors_blobs (bounded : data.length < objectBound) :
    Mirrors (fun blobs heap => blobs = heap ∧ heap.bytes.size < objectBound)
      (valueOr (root.stream? data name) .empty blobHeap)
      (streamOr (root.stream? data name) .empty BlobHeap.ofBytes) := by
  cases found : root.stream? data name with
  | none => exact .done ⟨rfl, by decide⟩
  | some stream =>
      have le := length_stream_le found
      rw [valueOr, streamOr, blobHeap_eq, BlobHeap.ofBytes]
      split
      · exact .done ⟨rfl, by rw [List.size_toArray]; omega⟩
      · exact .failed _

/-- A machine has the GUIDs that the library has. -/
theorem mirrors_guids (bounded : data.length < objectBound) :
    Mirrors
      (fun stream (heap : GuidHeap) => ∀ place, guidAt stream place = ofExcept (heap.get place))
      (valueOr (root.stream? data name) [] guidHeap)
      (streamOr (root.stream? data name) .empty GuidHeap.ofBytes) := by
  cases found : root.stream? data name with
  | none =>
      refine .done fun place => ?_
      exact @guidAt_eq [] _ (by decide) rfl place
  | some stream =>
      have le := length_stream_le found
      rw [valueOr, streamOr, guidHeap_eq]
      cases parsed : GuidHeap.ofBytes stream with
      | error e => exact .failed e
      | ok heap => exact .done fun place => guidAt_eq (by omega) parsed place

/-- A machine has the module info that the library has. -/
theorem module_eq (bounded : data.length < objectBound) :
    valueOr (root.stream? data name) none (fun bytes => some <$> moduleInfo bytes) =
      ofExcept (streamOr (root.stream? data name) none (some <$> ModuleInfo.decode ·)) := by
  cases found : root.stream? data name with
  | none => rfl
  | some stream =>
      have le := length_stream_le found
      rw [valueOr, streamOr, moduleInfo_eq (by omega), ofExcept_map]

end Values

/-- What the library makes of the tables and heaps. -/
def restOfParse (root : Root) (data stream : List UInt8) : Except Error Metadata := do
  let allWide := root.headers.any (·.name = .minimalDelta)
  let tables ← TableStream.parse stream allWide
  let blobs ← streamOr (root.stream? data .blob) .empty BlobHeap.ofBytes
  let guids ← streamOr (root.stream? data .guid) .empty GuidHeap.ofBytes
  let module ← streamOr (root.stream? data .pdb) none (some <$> ModuleInfo.decode ·)
  let documents ← (← tables.rows DocumentRow).mapM (·.resolve blobs guids)
  let methods ← (← tables.rows MethodRow).mapM (·.resolve blobs)
  let encMap ← tables.rows MapRow
  return ⟨module, documents.toArray, methods.toArray, encMap.map (·.token)⟩

theorem metadataFrom_eq {root : Root} {data stream : List UInt8} {name : StreamName}
    (bounded : data.length < objectBound) (parsed : Root.parse data = .ok root)
    (found : root.stream? data name = some stream) :
    metadataFrom root data stream = ofExcept (restOfParse root data stream) := by
  have le := length_stream_le found
  unfold metadataFrom restOfParse
  simp only [streamBytes_eq parsed, pure_bind]
  refine (mirrors_readTables (by omega) _).bind_eq fun tables parsed ⟨whole, shows⟩ => ?_
  refine (mirrors_blobs bounded).bind_eq fun _ blobs ⟨same, blobs_bounded⟩ => ?_
  subst same
  refine (mirrors_guids bounded).bind_eq fun guidBytes guids same => ?_
  have rows (ρ : Type) [TableRow ρ] [MachineRow ρ] : rowsOf tables ρ = ofExcept (parsed.rows ρ) :=
    rowsOf_eq (by rw [whole]; omega) shows ρ
  rw [module_eq bounded, ofExcept_bind]
  refine bind_congr fun module => ?_
  rw [rows, ofExcept_bind]
  refine bind_congr fun documentRows => ?_
  rw [ofExcept_mapM fun row _ => resolveDocument_eq blobs_bounded same, ofExcept_bind]
  refine bind_congr fun documents => ?_
  rw [rows, ofExcept_bind]
  refine bind_congr fun methodRows => ?_
  rw [ofExcept_mapM fun row _ => resolveMethod_eq blobs_bounded, ofExcept_bind]
  refine bind_congr fun methods => ?_
  rw [rows, ofExcept_bind]
  rfl

/-- The stream with the tables is looked for under both of its names. -/
theorem parse_eq (data : List UInt8) : Metadata.parse data = Root.parse data >>= fun root =>
    match root.stream? data .tables with
    | some stream => restOfParse root data stream
    | none =>
      match root.stream? data .editTables with
      | some stream => restOfParse root data stream
      | none => .error (.malformed .noTables) := by
  refine bind_congr fun root => ?_
  cases root.stream? data .tables with
  | some stream => rfl
  | none => cases root.stream? data .editTables <;> rfl

/-- **A machine reads the metadata that the library reads, or fails as it does.** -/
theorem readMetadata_eq {data : List UInt8} (bounded : data.length < objectBound) :
    readMetadata data = ofExcept (Metadata.parse data) := by
  rw [readMetadata, readRoot_eq bounded, parse_eq]
  cases parsed : Root.parse data with
  | error e => rfl
  | ok root =>
      rw [ofExcept_ok, pure_bind, Outcome.bind_of_ok rfl, streamBytes_eq parsed, pure_bind,
        streamBytes_eq parsed]
      cases found : root.stream? data .tables with
      | some stream => exact metadataFrom_eq bounded parsed found
      | none =>
          dsimp only
          rw [pure_bind]
          cases found : root.stream? data .editTables with
          | some stream => exact metadataFrom_eq bounded parsed found
          | none => rfl

/-! ### The size of what is read -/

/-- Metadata with names and line tables that are not larger than an object can be. -/
structure Fits (metadata : Metadata) : Prop where
  /-- Names fit. -/
  names : ∀ document ∈ metadata.documents, document.name.utf8ByteSize < objectBound
  /-- Line tables fit. -/
  lineTables : ∀ method ∈ metadata.methods, ∀ stored ∈ method.lineTable,
    stored.length < objectBound

theorem utf8ByteSize_lt_of_resolve {row : DocumentRow} {blobs : BlobHeap} {guids : GuidHeap}
    {document : Document} (h : row.resolve blobs guids = .ok document) :
    document.name.utf8ByteSize < objectBound := by
  obtain ⟨name, decoded, h⟩ := Outcome.bind_eq_ok_iff.1 h
  obtain ⟨hashAlgorithm, -, h⟩ := Outcome.bind_eq_ok_iff.1 h
  obtain ⟨hash, -, h⟩ := Outcome.bind_eq_ok_iff.1 h
  obtain ⟨language, -, h⟩ := Outcome.bind_eq_ok_iff.1 h
  cases h
  exact utf8ByteSize_lt_of_decode decoded

theorem length_lt_of_resolve {row : MethodRow} {blobs : BlobHeap} {method : MethodDebug}
    (h : row.resolve blobs = .ok method) :
    ∀ stored ∈ method.lineTable, stored.length < objectBound := by
  unfold MethodRow.resolve at h
  split at h
  · cases h
    intro stored mem
    cases mem
  · obtain ⟨blob, got, h⟩ := Outcome.bind_eq_ok_iff.1 h
    cases h
    rintro stored ⟨⟩
    exact Nat.lt_trans (BlobHeap.get_eq_ok_iff.1 got).length_lt (by decide)

/-- **Metadata that is read fits.** -/
theorem fits_of_parse {data : List UInt8} {metadata : Metadata}
    (h : Metadata.parse data = .ok metadata) : Fits metadata := by
  have rest : ∃ root stream, restOfParse root data stream = .ok metadata := by
    rw [parse_eq] at h
    obtain ⟨root, -, h⟩ := Outcome.bind_eq_ok_iff.1 h
    split at h
    · exact ⟨root, _, h⟩
    · split at h
      · exact ⟨root, _, h⟩
      · cases h
  obtain ⟨root, stream, h⟩ := rest
  obtain ⟨tables, -, h⟩ := Outcome.bind_eq_ok_iff.1 h
  obtain ⟨blobs, -, h⟩ := Outcome.bind_eq_ok_iff.1 h
  obtain ⟨guids, -, h⟩ := Outcome.bind_eq_ok_iff.1 h
  obtain ⟨module, -, h⟩ := Outcome.bind_eq_ok_iff.1 h
  obtain ⟨documentRows, -, h⟩ := Outcome.bind_eq_ok_iff.1 h
  obtain ⟨documents, resolved, h⟩ := Outcome.bind_eq_ok_iff.1 h
  obtain ⟨methodRows, -, h⟩ := Outcome.bind_eq_ok_iff.1 h
  obtain ⟨methods, resolved', h⟩ := Outcome.bind_eq_ok_iff.1 h
  obtain ⟨encMap, -, h⟩ := Outcome.bind_eq_ok_iff.1 h
  cases h
  refine ⟨fun document mem => ?_, fun method mem => ?_⟩
  · obtain ⟨row, -, resolves⟩ := Outcome.exists_of_mem_results resolved (List.mem_toArray.1 mem)
    exact utf8ByteSize_lt_of_resolve resolves
  · obtain ⟨row, -, resolves⟩ := Outcome.exists_of_mem_results resolved' (List.mem_toArray.1 mem)
    exact length_lt_of_resolve resolves

end SymbolHistory.Machine
