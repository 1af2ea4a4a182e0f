import SymbolHistory.Document
import SymbolHistory.MethodDebug
import SymbolHistory.Layout.ModuleInfo

/-!
# Debug metadata of one generation

## Main definitions

* `Metadata` : the documents and methods of one generation and, of an update, the methods that its
  rows belong to.
* `Metadata.document?`, `Metadata.method?` : rows by number.
* `Metadata.methodTokens` : the methods that an update adds or replaces.
* `Metadata.Numbered` : rows have the numbers of their places.
* `Metadata.Tokened` : rows have the tokens of their numbers.

## Main results

* `Metadata.Numbered.document?_rid`, `Metadata.Numbered.method?_rid` : numbered rows are found by
  their numbers.
-/

namespace SymbolHistory

/-- The debug metadata of one generation. -/
structure Metadata where
  /-- The module, in the first generation. -/
  module : Option ModuleInfo
  /-- The documents, by row. -/
  documents : Array Document
  /-- The debug information of methods, by row. -/
  methods : Array MethodDebug
  /-- The rows that an update adds or replaces, in order. -/
  encMap : List Token
  deriving DecidableEq

namespace Metadata

/-- Metadata that says nothing. -/
def empty : Metadata :=
  ⟨none, #[], #[], []⟩

/-- The document in row `rid`; rows are counted from 1. -/
def document? (metadata : Metadata) (rid : UInt32) : Option Document :=
  if rid = 0 then none else metadata.documents[rid.toNat - 1]?

/-- The debug information in row `rid`; rows are counted from 1. -/
def method? (metadata : Metadata) (rid : UInt32) : Option MethodDebug :=
  if rid = 0 then none else metadata.methods[rid.toNat - 1]?

/-- The entries of the map that name methods. Entry `i` says which method the debug information in
row `i` belongs to. -/
def methodTokens (metadata : Metadata) : List Token :=
  metadata.encMap.filter (·.refersTo .methodDebugInformation)

/-- Every row has the number of its place, counted from 1. -/
structure Numbered (metadata : Metadata) : Prop where
  /-- Documents have the numbers of their places. -/
  documents : ∀ i (h : i < metadata.documents.size), metadata.documents[i].rid.toNat = i + 1
  /-- So do methods. -/
  methods : ∀ i (h : i < metadata.methods.size), metadata.methods[i].rid.toNat = i + 1

/-- Every row has the token of the row that its number says. -/
structure Tokened (metadata : Metadata) : Prop where
  /-- Documents have the tokens of document rows. -/
  documents : ∀ document ∈ metadata.documents, document.token = .ofRow .document document.rid
  /-- Methods have the tokens of rows of debug information. -/
  methods : ∀ method ∈ metadata.methods, method.token = .ofRow .methodDebugInformation method.rid

/-- Row 0 does not exist. -/
@[simp] theorem document?_zero (metadata : Metadata) : metadata.document? 0 = none := rfl

/-- Row 0 does not exist. -/
@[simp] theorem method?_zero (metadata : Metadata) : metadata.method? 0 = none := rfl

theorem numbered_empty : empty.Numbered where
  documents i h := absurd h (Nat.not_lt_zero i)
  methods i h := absurd h (Nat.not_lt_zero i)

/-- If rows are numbered, looking a document up by its number finds it. -/
theorem Numbered.document?_rid {metadata : Metadata} (h : metadata.Numbered) {document : Document}
    (mem : document ∈ metadata.documents) : metadata.document? document.rid = some document := by
  obtain ⟨i, lt, rfl⟩ := Array.mem_iff_getElem.1 mem
  have number := h.documents i lt
  have ne : metadata.documents[i].rid ≠ 0 := by
    intro zero
    simp [zero] at number
  rw [document?, if_neg ne, number]
  simp [lt]

/-- If rows are numbered, looking a method up by its row finds it. -/
theorem Numbered.method?_rid {metadata : Metadata} (h : metadata.Numbered) {method : MethodDebug}
    (mem : method ∈ metadata.methods) : metadata.method? method.rid = some method := by
  obtain ⟨i, lt, rfl⟩ := Array.mem_iff_getElem.1 mem
  have number := h.methods i lt
  have ne : metadata.methods[i].rid ≠ 0 := by
    intro zero
    simp [zero] at number
  rw [method?, if_neg ne, number]
  simp [lt]

end Metadata

end SymbolHistory
