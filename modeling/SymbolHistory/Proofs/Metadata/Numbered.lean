import SymbolHistory.Metadata.Basic
import Mathlib.Data.List.Nodup

/-!
# Numbered rows

Rows that have the numbers of their places have different numbers, and looking a number up finds the
row that has it, and only that.

## Main results

* `Metadata.Numbered.nodup_rid_documents`, `Metadata.Numbered.nodup_rid_methods` : numbers differ.
* `Metadata.Numbered.document?_eq_some_iff` : what looking a document row up finds.
-/

namespace SymbolHistory.Metadata

/-- Rows whose numbers are those of their places have different numbers. -/
theorem nodup_of_getElem_toNat {α : Type} {rows : List α} {rid : α → UInt32}
    (h : ∀ i (lt : i < rows.length), (rid rows[i]).toNat = i + 1) : (rows.map rid).Nodup := by
  have numbers : (rows.map rid).map (·.toNat) = List.range' 1 rows.length := by
    apply List.ext_getElem
    · simp
    · intro i h₁ h₂
      have lt : i < rows.length := by simpa using h₂
      simp only [List.getElem_map, List.getElem_range', h i lt]
      omega
  refine List.Nodup.of_map (·.toNat) ?_
  rw [numbers]
  exact List.nodup_range'

namespace Numbered

/-- Numbered rows of documents have different numbers. -/
theorem nodup_rid_documents {metadata : Metadata} (h : metadata.Numbered) :
    (metadata.documents.toList.map (·.rid)).Nodup :=
  nodup_of_getElem_toNat fun i lt => h.documents i (by simpa using lt)

/-- Numbered rows of methods have different numbers. -/
theorem nodup_rid_methods {metadata : Metadata} (h : metadata.Numbered) :
    (metadata.methods.toList.map (·.rid)).Nodup :=
  nodup_of_getElem_toNat fun i lt => h.methods i (by simpa using lt)

/-- Looking a document row up finds the document with that number. -/
theorem document?_eq_some_iff {metadata : Metadata} (h : metadata.Numbered) {row : UInt32}
    {document : Document} :
    metadata.document? row = some document ↔
      document ∈ metadata.documents ∧ document.rid = row := by
  constructor
  · intro found
    rw [document?] at found
    by_cases zero : row = 0
    · rw [if_pos zero] at found
      cases found
    · rw [if_neg zero] at found
      obtain ⟨lt, rfl⟩ := Array.getElem?_eq_some_iff.1 found
      refine ⟨Array.getElem_mem lt, ?_⟩
      rw [← UInt32.toNat_inj, h.documents _ lt]
      have := UInt32.toNat_inj.not.2 zero
      rw [UInt32.toNat_zero] at this
      omega
  · rintro ⟨mem, rfl⟩
    exact h.document?_rid mem

end Numbered

end SymbolHistory.Metadata
