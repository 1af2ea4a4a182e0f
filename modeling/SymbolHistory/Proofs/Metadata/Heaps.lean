import SymbolHistory.Metadata.Serialize
import SymbolHistory.Proofs.DocumentName
import SymbolHistory.Proofs.Heap.Guid

/-!
# Documents and methods go to the heaps

Documents and methods are added to the heaps one after the other, and each is left with the places
of what it holds. Later ones do not touch these, so at the end all places are right.

## Main definitions

* `Metadata.Heaps.Grows` : what the heaps have in common with later ones.
* `Metadata.DocumentCells.Suits`, `Metadata.MethodCells.Suits` : cells are right for a document or
  method.

## Main results

* `Metadata.suits_of_addDocuments`, `Metadata.suits_of_addMethods` : the cells that are left are
  right at the end.
* `Metadata.DocumentCells.Suits.resolve`, `Metadata.MethodCells.Suits.resolve` : a row with the
  right cells resolves to its document or method.
-/

namespace SymbolHistory.Metadata

open Bytes

/-! ### Documents -/

/-- Later heaps are valid and have all that was in the ones before. -/
structure Heaps.Grows (heaps later : Heaps) : Prop where
  /-- So do the blobs. -/
  blobs : heaps.blobs.Grows later.blobs
  /-- So do the GUIDs. -/
  guids : heaps.guids.Grows later.guids

/-- Both heaps are valid. -/
structure Heaps.Valid (heaps : Heaps) : Prop where
  /-- The blobs are valid. -/
  blobs : heaps.blobs.Valid
  /-- The GUIDs are valid. -/
  guids : heaps.guids.Valid

theorem Heaps.Grows.valid {heaps later : Heaps} (h : heaps.Grows later) : later.Valid :=
  ⟨h.blobs.valid, h.guids.valid⟩

theorem Heaps.Valid.grows {heaps : Heaps} (h : heaps.Valid) : heaps.Grows heaps :=
  ⟨h.blobs.grows, h.guids.grows⟩

theorem Heaps.Grows.trans {first second third : Heaps} (h₁ : first.Grows second)
    (h₂ : second.Grows third) : first.Grows third :=
  ⟨h₁.blobs.trans h₂.blobs, h₁.guids.trans h₂.guids⟩

theorem Heaps.valid_new : Heaps.Valid ⟨.new, .new⟩ :=
  ⟨BlobHeap.Builder.valid_new, GuidHeap.Builder.valid_new⟩

/-- The heaps have what a document holds at the places in its cells. -/
structure DocumentCells.Suits (heaps : Heaps) (cells : DocumentCells) (document : Document) :
    Prop where
  /-- The name blob spells the path. -/
  name : DocumentName.Names heaps.blobs.bytes.toList cells.name.toNat document.name
  /-- The hash algorithm has its index. -/
  hashAlgorithm : GuidHeap.Stores heaps.guids.guids.toList cells.hashAlgorithm
    document.hashAlgorithm
  /-- The hash has its place. -/
  hash : BlobHeap.Stores heaps.blobs.bytes.toList cells.hash.toNat document.hash
  /-- The language has its index. -/
  language : GuidHeap.Stores heaps.guids.guids.toList cells.language document.language

/-- Cells stay right when the heaps grow. -/
theorem DocumentCells.Suits.of_grows {heaps later : Heaps} {cells : DocumentCells}
    {document : Document} (h : cells.Suits heaps document) (grows : heaps.Grows later) :
    cells.Suits later document where
  name := h.name.mono grows.blobs.kept
  hashAlgorithm := h.hashAlgorithm.mono grows.guids.kept
  hash := h.hash.mono grows.blobs.kept
  language := h.language.mono grows.guids.kept

/-- What adding a document does: its path and then its hash go to the blobs, the hash algorithm and
then the language to the GUIDs. -/
theorem addDocument_eq_ok_iff {heaps later : Heaps} {done all : Array DocumentCells}
    {document : Document} :
    addDocument (heaps, done) document = .ok (later, all) ↔
      ∃ name named hash hashed,
        DocumentName.encode heaps.blobs document.name = .ok (name, named) ∧
        named.add document.hash = .ok (hash, hashed) ∧
        later = ⟨hashed, ((heaps.guids.add document.hashAlgorithm).2.add document.language).2⟩ ∧
        all = done.push ⟨name, (heaps.guids.add document.hashAlgorithm).1, hash,
          ((heaps.guids.add document.hashAlgorithm).2.add document.language).1⟩ := by
  rw [addDocument]
  simp only
  rw [Outcome.bind_eq_ok_iff]
  constructor
  · rintro ⟨⟨name, named⟩, encoded, h⟩
    obtain ⟨⟨hash, hashed⟩, added, h⟩ := Outcome.bind_eq_ok_iff.1 h
    obtain ⟨rfl, rfl⟩ := Prod.mk.inj (Except.ok.inj h)
    exact ⟨name, named, hash, hashed, encoded, added, rfl, rfl⟩
  · rintro ⟨name, named, hash, hashed, encoded, added, rfl, rfl⟩
    refine ⟨(name, named), encoded, ?_⟩
    rw [Outcome.bind_eq_ok_iff]
    exact ⟨(hash, hashed), added, rfl⟩

/-- Adding one document leaves the right cells for it. -/
theorem suits_of_addDocument {heaps later : Heaps} {done all : Array DocumentCells}
    {document : Document} (valid : heaps.Valid)
    (h : addDocument (heaps, done) document = .ok (later, all)) :
    heaps.Grows later ∧ ∃ cells, all = done.push cells ∧ cells.Suits later document := by
  obtain ⟨name, named, hash, hashed, encoded, added, rfl, rfl⟩ := addDocument_eq_ok_iff.1 h
  obtain ⟨grows_name, names⟩ := DocumentName.grows_of_encode valid.blobs encoded
  obtain ⟨grows_hash, stores_hash⟩ := BlobHeap.Builder.grows_of_add grows_name.valid added
  obtain ⟨grows_algorithm, algorithm⟩ := valid.guids.grows_add document.hashAlgorithm
  obtain ⟨grows_language, language⟩ := grows_algorithm.valid.grows_add document.language
  exact ⟨⟨grows_name.trans grows_hash, grows_algorithm.trans grows_language⟩, _, rfl,
    names.mono grows_hash.kept, algorithm.mono grows_language.kept, stores_hash,
    language⟩

/-- **Adding documents leaves the right cells for all of them.** -/
theorem suits_of_addDocuments {heaps later : Heaps} {all : Array DocumentCells}
    {documents : List Document} (valid : heaps.Valid)
    (h : documents.foldlM addDocument (heaps, #[]) = .ok (later, all)) :
    heaps.Grows later ∧ List.Forall₂ (DocumentCells.Suits later) all.toList documents := by
  obtain ⟨grows, cells, rfl, suit⟩ := Outcome.results_of_foldlM Heaps.Valid Heaps.Grows
    DocumentCells.Suits Heaps.Grows.valid Heaps.Valid.grows Heaps.Grows.trans
    (fun grows suits => suits.of_grows grows) suits_of_addDocument valid h
  rw [Array.toList_appendList, List.nil_append]
  exact ⟨grows, suit⟩

/-- **A row with the right cells resolves to its document.** The blobs may have more behind. -/
theorem DocumentCells.Suits.resolve {heaps : Heaps} {cells : DocumentCells} {document : Document}
    {stored : List UInt8} (h : cells.Suits heaps document) (valid : heaps.Valid)
    (kept : heaps.blobs.bytes.toList <+: stored) (few : heaps.guids.guids.size < UInt32.size)
    (token : document.token = .ofRow .document document.rid) (offset : Nat) :
    DocumentRow.resolve ⟨document.rid, .ofRow .document document.rid, offset, cells.name,
        cells.hashAlgorithm, cells.hash, cells.language⟩ ⟨stored.toArray⟩ ⟨heaps.guids.guids⟩ =
      .ok document := by
  have name := (h.name.mono kept).decode (valid.blobs.empty.mono kept)
  have hash := (h.hash.mono kept).get
  have algorithm := (h.hashAlgorithm.get few).1
  have language := (h.language.get few).1
  rw [Array.toArray_toList] at algorithm language
  rw [DocumentRow.resolve, Outcome.bind_eq_ok_iff]
  refine ⟨document.name, name, ?_⟩
  rw [Outcome.bind_eq_ok_iff]
  refine ⟨document.hashAlgorithm, algorithm, ?_⟩
  rw [Outcome.bind_eq_ok_iff]
  refine ⟨document.hash, hash, ?_⟩
  rw [Outcome.bind_eq_ok_iff]
  refine ⟨document.language, language, ?_⟩
  rw [← token]
  rfl

/-! ### Methods -/

/-- The heap has the line table of a method at the place in its cells; place 0 means that there is
none. -/
structure MethodCells.Suits (blobs : BlobHeap.Builder) (cells : MethodCells)
    (method : MethodDebug) : Prop where
  /-- The document column is the same. -/
  document : cells.document = method.document
  /-- The line table has its place. -/
  lineTable : (method.lineTable = none ∧ cells.lineTable = 0) ∨
    ∃ stored, method.lineTable = some stored ∧
      BlobHeap.Stores blobs.bytes.toList cells.lineTable.toNat stored

/-- Cells stay right when the heap grows. -/
theorem MethodCells.Suits.of_grows {blobs later : BlobHeap.Builder} {cells : MethodCells}
    {method : MethodDebug} (h : cells.Suits blobs method) (grows : blobs.Grows later) :
    cells.Suits later method where
  document := h.document
  lineTable := h.lineTable.imp id fun ⟨stored, same, stores⟩ =>
    ⟨stored, same, stores.mono grows.kept⟩

/-- What adding a method does: its line table, if there is one, goes to the blobs. -/
theorem addMethod_eq_ok_iff {blobs later : BlobHeap.Builder} {done all : Array MethodCells}
    {method : MethodDebug} :
    addMethod (blobs, done) method = .ok (later, all) ↔
      (method.lineTable = none ∧ later = blobs ∧ all = done.push ⟨method.document, 0⟩) ∨
      ∃ stored place, method.lineTable = some stored ∧ blobs.add stored = .ok (place, later) ∧
        all = done.push ⟨method.document, place⟩ := by
  rw [addMethod]
  simp only
  cases method.lineTable with
  | none =>
      simp only [true_and, reduceCtorEq, false_and, exists_false, or_false]
      rw [Outcome.pure_eq_ok_iff, Prod.mk.injEq, eq_comm, @eq_comm _ all]
  | some stored =>
      simp only [reduceCtorEq, false_and, false_or, Option.some.injEq]
      rw [Outcome.bind_eq_ok_iff]
      constructor
      · rintro ⟨⟨place, last⟩, added, h⟩
        obtain ⟨rfl, rfl⟩ := Prod.mk.inj (Except.ok.inj h)
        exact ⟨stored, place, rfl, added, rfl⟩
      · rintro ⟨_, place, rfl, added, rfl⟩
        exact ⟨(place, later), added, rfl⟩

/-- Adding one method leaves the right cells for it. -/
theorem suits_of_addMethod {blobs later : BlobHeap.Builder} {done all : Array MethodCells}
    {method : MethodDebug} (valid : blobs.Valid)
    (h : addMethod (blobs, done) method = .ok (later, all)) :
    blobs.Grows later ∧ ∃ cells, all = done.push cells ∧ cells.Suits later method := by
  obtain ⟨none, rfl, rfl⟩ | ⟨stored, place, same, added, rfl⟩ := addMethod_eq_ok_iff.1 h
  · exact ⟨valid.grows, _, rfl, rfl, .inl ⟨none, rfl⟩⟩
  · obtain ⟨grows, stores⟩ := BlobHeap.Builder.grows_of_add valid added
    exact ⟨grows, _, rfl, rfl, .inr ⟨stored, same, stores⟩⟩

/-- **Adding methods leaves the right cells for all of them.** -/
theorem suits_of_addMethods {blobs later : BlobHeap.Builder} {all : Array MethodCells}
    {methods : List MethodDebug} (valid : blobs.Valid)
    (h : methods.foldlM addMethod (blobs, #[]) = .ok (later, all)) :
    blobs.Grows later ∧ List.Forall₂ (MethodCells.Suits later) all.toList methods := by
  obtain ⟨grows, cells, rfl, suit⟩ := Outcome.results_of_foldlM BlobHeap.Builder.Valid
    BlobHeap.Builder.Grows MethodCells.Suits BlobHeap.Builder.Grows.valid
    BlobHeap.Builder.Valid.grows BlobHeap.Builder.Grows.trans
    (fun grows suits => suits.of_grows grows) suits_of_addMethod valid h
  rw [Array.toList_appendList, List.nil_append]
  exact ⟨grows, suit⟩

/-- Place 0 stands for no line table, so a line table that is there must not be empty. -/
theorem MethodCells.Suits.lineTable_eq_zero_iff {blobs : BlobHeap.Builder} {cells : MethodCells}
    {method : MethodDebug} (h : cells.Suits blobs method) (valid : blobs.Valid)
    (nonempty : method.lineTable ≠ some []) :
    cells.lineTable = 0 ↔ method.lineTable = none := by
  obtain ⟨none, zero⟩ | ⟨stored, same, stores⟩ := h.lineTable
  · exact ⟨fun _ => none, fun _ => zero⟩
  · rw [same]
    constructor
    · intro zero
      rw [zero] at stores
      rw [same, valid.eq_nil stores] at nonempty
      exact absurd rfl nonempty
    · intro none
      cases none

/-- **A row with the right cells resolves to its method.** The blobs may have more behind. -/
theorem MethodCells.Suits.resolve {blobs : BlobHeap.Builder} {cells : MethodCells}
    {method : MethodDebug} {stored : List UInt8} (h : cells.Suits blobs method)
    (valid : blobs.Valid) (kept : blobs.bytes.toList <+: stored)
    (token : method.token = .ofRow .methodDebugInformation method.rid)
    (nonempty : method.lineTable ≠ some []) (offset : Nat) :
    MethodRow.resolve ⟨method.rid, .ofRow .methodDebugInformation method.rid, offset,
        cells.document, cells.lineTable⟩ ⟨stored.toArray⟩ = .ok method := by
  have zero := h.lineTable_eq_zero_iff valid nonempty
  rw [MethodRow.resolve, ← token, h.document]
  obtain ⟨none, absent⟩ | ⟨blob, same, stores⟩ := h.lineTable
  · rw [if_pos absent]
    obtain ⟨rid, token, document, lineTable⟩ := method
    obtain rfl := none
    rfl
  · rw [if_neg (by rw [zero, same]; exact Option.some_ne_none blob), Outcome.bind_eq_ok_iff]
    refine ⟨blob, (stores.mono kept).get, ?_⟩
    obtain ⟨rid, token, document, lineTable⟩ := method
    obtain rfl := same
    rfl

/-! ### How much the heaps take -/

/-- What a document takes in the blob heap at most. -/
def documentCost (document : Document) : Nat :=
  DocumentName.cost document.name + 4 + document.hash.length

/-- What a method takes in the blob heap at most. -/
def methodCost (method : MethodDebug) : Nat :=
  4 + (method.lineTable.getD []).length

/-- Adding a document succeeds while there is room. -/
theorem exists_addDocument {heaps : Heaps} {document : Document} (done : Array DocumentCells)
    (valid : heaps.Valid)
    (room : heaps.blobs.bytes.size + documentCost document ≤ Width.four.bound) :
    ∃ later all, addDocument (heaps, done) document = .ok (later, all) ∧
      later.blobs.bytes.size ≤ heaps.blobs.bytes.size + documentCost document ∧
      later.guids.guids.size ≤ heaps.guids.guids.size + 2 ∧ all.size = done.size + 1 := by
  rw [documentCost] at room ⊢
  obtain ⟨name, named, encoded⟩ := DocumentName.exists_encode valid.blobs
    (by omega : heaps.blobs.bytes.size + DocumentName.cost document.name ≤ Width.four.bound)
  have name_size := DocumentName.size_of_encode encoded
  obtain ⟨hash, hashed, added⟩ := named.exists_add document.hash (by omega) (by omega)
  have hash_size := BlobHeap.Builder.size_of_add added
  have algorithm_size := heaps.guids.size_add_le document.hashAlgorithm
  have language_size := (heaps.guids.add document.hashAlgorithm).2.size_add_le document.language
  refine ⟨_, _, addDocument_eq_ok_iff.2 ⟨name, named, hash, hashed, encoded, added, rfl, rfl⟩, ?_,
    ?_, Array.size_push _⟩
  · simp only
    omega
  · simp only
    omega

/-- Adding a method succeeds while there is room. -/
theorem exists_addMethod {blobs : BlobHeap.Builder} {method : MethodDebug}
    (done : Array MethodCells)
    (room : blobs.bytes.size + methodCost method ≤ Width.four.bound) :
    ∃ later all, addMethod (blobs, done) method = .ok (later, all) ∧
      later.bytes.size ≤ blobs.bytes.size + methodCost method ∧ all.size = done.size + 1 := by
  rw [methodCost] at room ⊢
  cases same : method.lineTable with
  | none =>
      exact ⟨blobs, _, addMethod_eq_ok_iff.2 (.inl ⟨same, rfl, rfl⟩), by omega,
        Array.size_push _⟩
  | some stored =>
      rw [same, Option.getD_some] at room
      obtain ⟨place, later, added⟩ := blobs.exists_add stored (by omega) (by omega)
      have size := BlobHeap.Builder.size_of_add added
      rw [Option.getD_some]
      exact ⟨later, _, addMethod_eq_ok_iff.2 (.inr ⟨stored, place, same, added, rfl⟩), by omega,
        Array.size_push _⟩

end SymbolHistory.Metadata
