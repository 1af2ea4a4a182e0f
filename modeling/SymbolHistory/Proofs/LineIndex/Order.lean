import SymbolHistory.Proofs.LineIndex.Refinement

/-!
# No answer depends on the order of extents

Extents of a document are in the order in which they came, and that is different if methods move in
another order, or if their lines are worked out anew and not moved. But they are sorted before they
are divided into runs, and no two extents of one document are of the same method. So two indices
that say the same have the same runs, and give the same answers.

## Main results

* `packRuns_eq_of_perm` : the order of extents does not matter to the runs.
* `LineIndex.Represents.runs_eq` : indices that say the same have the same runs.
-/

namespace SymbolHistory

/-- The order of placement tells extents apart that are of different methods. -/
theorem method_eq_of_placementLe {a b : Extent} (h : placementLe a b) (h' : placementLe b a) :
    a.method = b.method := by
  rcases a with ⟨⟨method⟩, _, minLine, maxLine⟩
  rcases b with ⟨⟨other⟩, _, minLine', maxLine'⟩
  simp only [placementLe, MethodId.mk.injEq, UInt32.lt_iff_toNat_lt, UInt32.le_iff_toNat_le,
    ← UInt32.toNat_inj] at h h' ⊢
  grind

/-- **The order of extents does not matter to the runs**, if each is of a method of its own. -/
theorem packRuns_eq_of_perm {extents others : List Extent} (h : extents.Perm others)
    (single : (extents.map (·.method)).Nodup) : packRuns extents = packRuns others := by
  have sorted : extents.mergeSort placementLe = others.mergeSort placementLe := by
    refine List.Perm.eq_of_pairwise ?_
      (List.pairwise_mergeSort placementLe_trans placementLe_total _)
      (List.pairwise_mergeSort placementLe_trans placementLe_total _)
      ((List.mergeSort_perm _ _).trans (h.trans (List.mergeSort_perm _ _).symm))
    intro a b mem other_mem le le'
    have known : a ∈ extents := (List.mergeSort_perm _ _).subset mem
    have known' : b ∈ extents := h.symm.subset ((List.mergeSort_perm _ _).subset other_mem)
    exact List.inj_on_of_nodup_map single known known' (method_eq_of_placementLe le le')
  rw [packRuns, packRuns, sorted]

namespace LineIndex

variable {index other : LineIndex} {content : Content}

/-- Indices that say the same have the same extents, up to order. -/
theorem Represents.perm_extentsIn (h : index.Represents content) (h' : other.Represents content)
    (document : DocumentId) : (index.extentsIn document).Perm (other.extentsIn document) :=
  perm_of_filter_method fun method => by rw [h.extents, h'.extents]

/-- **Indices that say the same have the same runs.** -/
theorem Represents.runs_eq (h : index.Represents content) (h' : other.Represents content)
    (single : ∀ method, ((content method).2.map (·.document)).Nodup) (faithful : index.Faithful)
    (faithful' : other.Faithful) : index.runs = other.runs := by
  funext document
  rw [faithful.runs_eq, faithful'.runs_eq]
  exact packRuns_eq_of_perm (h.perm_extentsIn h' document) (h.nodup_methods single document)

end LineIndex

end SymbolHistory
