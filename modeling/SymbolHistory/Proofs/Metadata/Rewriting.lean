import SymbolHistory.Proofs.Layout.Placement
import SymbolHistory.Proofs.Metadata.Kept

/-!
# Metadata from anywhere can be written again

Bytes that are parsed need not have been written here: streams may stand in another order, indices
may be wide without need, blobs may be there twice, paths may be cut at any character. Parsing takes
all of this away. What it yields has numbered rows and a module that can be stored, so what is kept
of it is read back when it is written again.

## Main results

* `Metadata.numbered_of_parse`, `Metadata.tokened_of_parse` : parsed rows have the numbers of their
  places, and the tokens of these.
* `Metadata.storable_of_parse` : a parsed module can be stored.
* `Metadata.parse_kept_of_parse` : what is kept of parsed metadata is read back.
* `Metadata.rewriting_keeps_what_was_parsed` : when that is everything.
-/

namespace SymbolHistory

open Bytes

/-! ### Rows -/

namespace DocumentRow

/-- A document has the number and the token of the row that it comes from. -/
theorem told_of_resolve {sizing : Sizing} {number : UInt32} {place : Nat} {bytes rest : List UInt8}
    {row : DocumentRow} {blobs : BlobHeap} {guids : GuidHeap} {document : Document}
    (read : TableRow.read sizing number place bytes = .ok (row, rest))
    (resolved : row.resolve blobs guids = .ok document) :
    document.rid = number ∧ document.token = .ofRow .document number := by
  obtain ⟨_, _, -, read⟩ := bind_eq_ok_iff.1 read
  obtain ⟨_, _, -, read⟩ := bind_eq_ok_iff.1 read
  obtain ⟨_, _, -, read⟩ := bind_eq_ok_iff.1 read
  obtain ⟨_, _, -, read⟩ := bind_eq_ok_iff.1 read
  obtain ⟨rfl, -⟩ := pure_eq_ok_iff.1 read
  obtain ⟨_, -, resolved⟩ := Outcome.bind_eq_ok_iff.1 resolved
  obtain ⟨_, -, resolved⟩ := Outcome.bind_eq_ok_iff.1 resolved
  obtain ⟨_, -, resolved⟩ := Outcome.bind_eq_ok_iff.1 resolved
  obtain ⟨_, -, resolved⟩ := Outcome.bind_eq_ok_iff.1 resolved
  obtain rfl := Outcome.pure_eq_ok_iff.1 resolved
  exact ⟨rfl, rfl⟩

end DocumentRow

namespace MethodRow

/-- So has a method. -/
theorem told_of_resolve {sizing : Sizing} {number : UInt32} {place : Nat} {bytes rest : List UInt8}
    {row : MethodRow} {blobs : BlobHeap} {method : MethodDebug}
    (read : TableRow.read sizing number place bytes = .ok (row, rest))
    (resolved : row.resolve blobs = .ok method) :
    method.rid = number ∧ method.token = .ofRow .methodDebugInformation number := by
  obtain ⟨_, _, -, read⟩ := bind_eq_ok_iff.1 read
  obtain ⟨_, _, -, read⟩ := bind_eq_ok_iff.1 read
  obtain ⟨rfl, -⟩ := pure_eq_ok_iff.1 read
  rw [resolve] at resolved
  split at resolved
  · obtain rfl := Outcome.pure_eq_ok_iff.1 resolved
    exact ⟨rfl, rfl⟩
  · obtain ⟨_, -, resolved⟩ := Outcome.bind_eq_ok_iff.1 resolved
    obtain rfl := Outcome.pure_eq_ok_iff.1 resolved
    exact ⟨rfl, rfl⟩

end MethodRow

/-- Values that have the numbers and tokens of the rows that they come from have the numbers of
their places, and the tokens of these. -/
theorem TableStream.HasRows.told {ρ δ : Type} [TableRow ρ] [PlacedRow ρ] {tables : TableStream}
    {rows : List ρ} {resolve : ρ → Except Error δ} {values : List δ} {rid : δ → UInt32}
    {token : δ → Token} {table : Table} (h : tables.HasRows ρ rows)
    (resolved : rows.mapM resolve = .ok values)
    (told : ∀ {number place bytes rest row value},
      TableRow.read tables.sizing number place bytes = .ok (row, rest) → resolve row = .ok value →
        rid value = number ∧ token value = .ofRow table number)
    {i : Nat} (lt : i < values.length) :
    (rid values[i]).toNat = i + 1 ∧ token values[i] = .ofRow table (rid values[i]) := by
  obtain ⟨length, each⟩ := List.forall₂_iff_get.1 (Outcome.mapM_eq_ok_iff.1 resolved)
  have inside : i < rows.length := length ▸ lt
  obtain ⟨place, stands⟩ := h.exists_standsAt inside
  obtain ⟨number, same⟩ := told stands.read (each i inside lt)
  have known := stands.rid
  rw [(PlacedRow.told stands.read).1] at known
  rw [List.get_eq_getElem] at number same
  rw [number]
  exact ⟨known, same⟩

namespace Metadata

/-! ### Parsed metadata -/

/-- A module that was read was decoded. -/
theorem exists_decode_of_streamOr {stream : Option (List UInt8)} {module : Option ModuleInfo}
    (h : streamOr stream none (some <$> ModuleInfo.decode ·) = .ok module) :
    ∀ info ∈ module, ∃ bytes, ModuleInfo.decode bytes = .ok info := by
  rintro info rfl
  cases stream with
  | none => cases h
  | some bytes =>
      obtain ⟨found, decoded, eq⟩ := Outcome.map_eq_ok_iff.1 h
      exact ⟨bytes, Option.some.inj eq ▸ decoded⟩

/-- What metadata is parsed from: tables, heaps, and the stream of the module if there is one. -/
theorem exists_of_parse {data : List UInt8} {metadata : Metadata}
    (parsed : parse data = .ok metadata) :
    ∃ stream allWide tables blobs guids documentRows methodRows,
      TableStream.parse stream allWide = .ok tables ∧
      (∀ info ∈ metadata.module, ∃ bytes, ModuleInfo.decode bytes = .ok info) ∧
      tables.rows DocumentRow = .ok documentRows ∧
      documentRows.mapM (·.resolve blobs guids) = .ok metadata.documents.toList ∧
      tables.rows MethodRow = .ok methodRows ∧
      methodRows.mapM (·.resolve blobs) = .ok metadata.methods.toList := by
  obtain ⟨root, -, parsed⟩ := Outcome.bind_eq_ok_iff.1 parsed
  split at parsed
  · cases parsed
  · next stream _ =>
    obtain ⟨tables, tables_read, parsed⟩ := Outcome.bind_eq_ok_iff.1 parsed
    obtain ⟨blobs, -, parsed⟩ := Outcome.bind_eq_ok_iff.1 parsed
    obtain ⟨guids, -, parsed⟩ := Outcome.bind_eq_ok_iff.1 parsed
    obtain ⟨module, module_read, parsed⟩ := Outcome.bind_eq_ok_iff.1 parsed
    obtain ⟨documentRows, documents_read, parsed⟩ := Outcome.bind_eq_ok_iff.1 parsed
    obtain ⟨documents, documents_resolved, parsed⟩ := Outcome.bind_eq_ok_iff.1 parsed
    obtain ⟨methodRows, methods_read, parsed⟩ := Outcome.bind_eq_ok_iff.1 parsed
    obtain ⟨methods, methods_resolved, parsed⟩ := Outcome.bind_eq_ok_iff.1 parsed
    obtain ⟨_, -, parsed⟩ := Outcome.bind_eq_ok_iff.1 parsed
    obtain rfl := Outcome.pure_eq_ok_iff.1 parsed
    refine ⟨stream, _, tables, blobs, guids, documentRows, methodRows, tables_read, ?_,
      documents_read, documents_resolved, methods_read, methods_resolved⟩
    exact exists_decode_of_streamOr module_read

/-- Parsed rows are told their numbers and tokens by their places. -/
theorem told_of_parse {data : List UInt8} {metadata : Metadata}
    (parsed : parse data = .ok metadata) :
    (∀ i (h : i < metadata.documents.size), metadata.documents[i].rid.toNat = i + 1 ∧
      metadata.documents[i].token = .ofRow .document metadata.documents[i].rid) ∧
    ∀ i (h : i < metadata.methods.size), metadata.methods[i].rid.toNat = i + 1 ∧
      metadata.methods[i].token = .ofRow .methodDebugInformation metadata.methods[i].rid := by
  obtain ⟨stream, allWide, tables, blobs, guids, documentRows, methodRows, tables_read, -,
    documents_read, documents_resolved, methods_read, methods_resolved⟩ := exists_of_parse parsed
  obtain ⟨ranges, laid⟩ := TableStream.exists_laidOut tables_read
  obtain ⟨_, documents⟩ := laid.exists_hasRows DocumentRow (by decide)
  obtain ⟨_, methods⟩ := laid.exists_hasRows MethodRow (by decide)
  obtain rfl := Except.ok.inj (documents.read.symm.trans documents_read)
  obtain rfl := Except.ok.inj (methods.read.symm.trans methods_read)
  refine ⟨fun i lt => ?_, fun i lt => ?_⟩
  · exact documents.told documents_resolved DocumentRow.told_of_resolve
      (by simpa using lt : i < metadata.documents.toList.length)
  · exact methods.told methods_resolved MethodRow.told_of_resolve
      (by simpa using lt : i < metadata.methods.toList.length)

/-- **Parsed rows have the numbers of their places.** -/
theorem numbered_of_parse {data : List UInt8} {metadata : Metadata}
    (parsed : parse data = .ok metadata) : metadata.Numbered where
  documents i lt := ((told_of_parse parsed).1 i lt).1
  methods i lt := ((told_of_parse parsed).2 i lt).1

/-- **Parsed rows have the tokens of their numbers.** -/
theorem tokened_of_parse {data : List UInt8} {metadata : Metadata}
    (parsed : parse data = .ok metadata) : metadata.Tokened where
  documents document mem := by
    obtain ⟨i, lt, rfl⟩ := Array.mem_iff_getElem.1 mem
    exact ((told_of_parse parsed).1 i lt).2
  methods method mem := by
    obtain ⟨i, lt, rfl⟩ := Array.mem_iff_getElem.1 mem
    exact ((told_of_parse parsed).2 i lt).2

/-- **A parsed module can be stored**: its entry point is null or a method, and tables that it does
not have have no rows. -/
theorem storable_of_parse {data : List UInt8} {metadata : Metadata}
    (parsed : parse data = .ok metadata) : ∀ info ∈ metadata.module, info.Storable := by
  obtain ⟨_, _, _, _, _, _, _, -, decoded, -⟩ := exists_of_parse parsed
  intro info mem
  obtain ⟨_, decoded⟩ := decoded info mem
  exact ModuleInfo.storable_of_decode decoded

/-! ### Writing again -/

/-- **What is kept of parsed metadata is read back** when it is written again. -/
theorem parse_kept_of_parse {data written : List UInt8} {metadata : Metadata}
    (parsed : parse data = .ok metadata) (again : serialize metadata = .ok written)
    (small : written.length < UInt32.size) : parse written = .ok metadata.kept :=
  parse_of_serialize
    (storable_kept (numbered_of_parse parsed)
      fun info mem => (storable_of_parse parsed info mem).entryPoint)
    ((serialize_kept metadata).trans again) small

/-- **Metadata from anywhere can be written again.** Whatever bytes metadata was parsed from, its
rows have the numbers of their places and the tokens of these, and its module can be stored. From
what is written of it, what is kept of it is read back. That is all of it exactly if no method has a
line table without bytes, and all document columns fit into 16 bits or there are more documents than
that. -/
theorem rewriting_keeps_what_was_parsed {data : List UInt8} {metadata : Metadata}
    (parsed : parse data = .ok metadata) :
    metadata.Numbered ∧ metadata.Tokened ∧
      (∀ info ∈ metadata.module,
        (info.entryPoint.isNull ∨ info.entryPoint.refersTo .methodDef) ∧
          ∀ number : Fin 64, hasBit info.referenced number = false → info.rows.get number = 0) ∧
      ∀ written, serialize metadata = .ok written → written.length < UInt32.size →
        parse written = .ok metadata.kept ∧
          (parse written = .ok metadata ↔
            (∀ method ∈ metadata.methods, method.lineTable ≠ some []) ∧
              ((∀ method ∈ metadata.methods, method.document.toNat ≤ 65535) ∨
                65535 < metadata.documents.size)) := by
  have numbered := numbered_of_parse parsed
  have tokened := tokened_of_parse parsed
  have module := storable_of_parse parsed
  refine ⟨numbered, tokened, fun info mem => ⟨(module info mem).entryPoint, (module info mem).rows⟩,
    fun written again small => ?_⟩
  have kept := parse_kept_of_parse parsed again small
  refine ⟨kept, fun same => ?_, fun ⟨lineTables, columns⟩ => ?_⟩
  · have eq : metadata.kept = metadata := Except.ok.inj (kept.symm.trans same)
    have storable : metadata.Storable :=
      eq ▸ storable_kept numbered fun info mem => (module info mem).entryPoint
    refine ⟨storable.lineTables, ?_⟩
    by_cases wide : 65535 < metadata.documents.size
    · exact .inr wide
    · refine .inl fun method mem => ?_
      have fits := (storable.columns method mem).resolve_right wide
      exact Nat.le_of_lt_succ fits
  · have storable : metadata.Storable := {
      numbered, tokened, lineTables, module
      columns := fun method mem =>
        columns.imp (fun narrow => Nat.lt_succ_of_le (narrow method mem)) id }
    exact parse_of_serialize storable again small

/-- Symbols that nothing here writes like this: the tables stand behind the heap and the module, in
a stream of their own kind, and the mark of a minimal update makes all indices wide. The first
path has colons, an empty part between them and a place in a wider number than need be, and both
documents have a copy of the same hash. -/
def foreignBytes : List UInt8 :=
  -- The root, and the headers of the four streams.
  [66, 83, 74, 66, 1, 0, 1, 0, 0, 0, 0, 0, 4, 0, 0, 0, 118, 49, 0, 0, 0, 0, 4, 0] ++
    [84, 0, 0, 0, 24, 0, 0, 0, 35, 66, 108, 111, 98, 0, 0, 0] ++
    [108, 0, 0, 0, 36, 0, 0, 0, 35, 80, 100, 98, 0, 0, 0, 0] ++
    [144, 0, 0, 0, 0, 0, 0, 0, 35, 74, 84, 68, 0, 0, 0, 0] ++
    [144, 0, 0, 0, 80, 0, 0, 0, 35, 45, 0, 0] ++
  -- The blobs: two parts, a name, two hashes, a name.
    [0, 3, 115, 114, 99, 1, 97, 5, 58, 1, 0, 128, 5, 1, 9, 1, 9, 3, 0, 1, 5, 0, 0, 0] ++
  -- The module.
    List.replicate 20 7 ++ [1, 0, 0, 6, 4, 0, 0, 0, 0, 0, 0, 0, 5, 0, 0, 0] ++
  -- The tables: the header, two documents, two methods.
    [0, 0, 0, 0, 2, 0, 0, 1, 0, 0, 0, 0, 0, 0, 3, 0, 0, 0, 0, 0, 0, 0, 0, 0] ++
    [2, 0, 0, 0, 2, 0, 0, 0] ++
    [7, 0, 0, 0, 0, 0, 0, 0, 13, 0, 0, 0, 0, 0, 0, 0] ++
    [17, 0, 0, 0, 0, 0, 0, 0, 15, 0, 0, 0, 0, 0, 0, 0] ++
    [2, 0, 0, 0, 13, 0, 0, 0] ++ [0, 0, 0, 0, 0, 0, 0, 0]

/-- What they say. -/
def foreignSymbols : Metadata where
  module := some ⟨Vector.replicate 20 7, .ofRow .methodDef 1, 4, (Vector.replicate 64 0).set 2 5⟩
  documents := #[⟨1, .ofRow .document 1, "src::a", .nil, [9], .nil⟩,
    ⟨2, .ofRow .document 2, "srca", .nil, [9], .nil⟩]
  methods := #[.ofLineTable 1 2 (some [9]), .ofLineTable 2 0 none]
  encMap := []

set_option maxRecDepth 20000 in
theorem parse_foreignBytes : parse foreignBytes = .ok foreignSymbols := by
  decide +kernel

/-- All of it is read back from what is written of it. -/
theorem rewriting_keeps_what_was_parsed_foreignBytes :
    parse foreignBytes = .ok foreignSymbols ∧ ∃ written, serialize foreignSymbols = .ok written ∧
      written.length < UInt32.size ∧ parse written = .ok foreignSymbols := by
  obtain ⟨-, -, -, rewritten⟩ := rewriting_keeps_what_was_parsed parse_foreignBytes
  have content : foreignSymbols.contentSize < 2 ^ 20 := by decide
  obtain ⟨written, again, small⟩ := exists_serialize content (by decide) (by decide) (by decide)
  exact ⟨parse_foreignBytes, written, again, small,
    (rewritten written again small).2.2 ⟨by decide, .inl (by decide)⟩⟩

end Metadata

end SymbolHistory
