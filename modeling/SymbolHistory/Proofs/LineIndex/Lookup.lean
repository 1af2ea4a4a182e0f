import SymbolHistory.Proofs.LineIndex.Content

/-!
# Looking lines up

Questions about lines go to the runs of a document, but the answers do not depend on how it is
divided into runs: a line hits exactly the extents that contain it, in the order of methods.

## Main results

* `LineIndex.Faithful.hits_eq` : the hits of a line are the extents that contain it.
* `LineIndex.Faithful.pairwise_hits` : hits ascend strictly if no method has two extents.
* `LineIndex.Represents.lines?_eq` : the lines of a method are those of its first span.
* `LineIndex.Represents.mem_hits_iff` : a method is hit if a span of it contains the line.
-/

namespace SymbolHistory

namespace LineIndex

/-- The method and version that an extent belongs to. -/
def hitOf (extent : Extent) : MethodId × Nat :=
  (extent.method, extent.version)

/-! ### Hits and extents -/

theorem hitLe_trans (a b c : MethodId × Nat) (h₁ : hitLe a b) (h₂ : hitLe b c) : hitLe a c := by
  rcases a with ⟨⟨a⟩, v⟩
  rcases b with ⟨⟨b⟩, w⟩
  rcases c with ⟨⟨c⟩, x⟩
  simp only [hitLe, MethodId.mk.injEq, UInt32.le_iff_toNat_le, ← UInt32.toNat_inj] at h₁ h₂ ⊢
  grind

theorem hitLe_total (a b : MethodId × Nat) : hitLe a b || hitLe b a := by
  rcases a with ⟨⟨a⟩, v⟩
  rcases b with ⟨⟨b⟩, w⟩
  simp only [hitLe, MethodId.mk.injEq, UInt32.le_iff_toNat_le, ← UInt32.toNat_inj, Bool.or_eq_true]
  grind

theorem hitLe_antisymm (a b : MethodId × Nat) (h₁ : hitLe a b) (h₂ : hitLe b a) : a = b := by
  rcases a with ⟨⟨a⟩, v⟩
  rcases b with ⟨⟨b⟩, w⟩
  simp only [hitLe, MethodId.mk.injEq, Prod.mk.injEq, UInt32.le_iff_toNat_le,
    ← UInt32.toNat_inj] at h₁ h₂ ⊢
  grind

/-- The extents that the runs of a document have on a line are the extents on it. -/
theorem filterMap_covering?_perm (extents : List Extent) (line : UInt32) :
    ((packRuns extents).filterMap fun run => (run.covering? line).map hitOf).Perm
      ((extents.filter (·.covers line)).map hitOf) := by
  have found : ∀ runs : List Run, (∀ run ∈ runs, run.Ordered) →
      (runs.filterMap fun run => (run.covering? line).map hitOf) =
        (runs.flatten.filter (·.covers line)).map hitOf := by
    intro runs ordered
    induction runs with
    | nil => rfl
    | cons run runs ih =>
        obtain ⟨first, rest⟩ := List.forall_mem_cons.1 ordered
        rw [List.flatten_cons, List.filter_append, List.map_append, ← ih rest,
          ← Run.toList_covering? first]
        cases h : run.covering? line <;> simp [h]
  rw [found _ fun run mem => ordered_of_mem_packRuns mem]
  exact ((packRuns_flatten_perm extents).filter _).map _

/-- **The hits of a line are the extents that contain it**, by method and version. -/
theorem Faithful.hits_eq {index : LineIndex} (h : index.Faithful) (document : DocumentId)
    (line : UInt32) :
    index.hits document line =
      (((index.extentsIn document).filter (·.covers line)).map hitOf).mergeSort hitLe := by
  have runs : index.hits document line =
      ((packRuns (index.extentsIn document)).filterMap fun run =>
        (run.covering? line).map hitOf).mergeSort hitLe := by
    rw [hits, h.runs_eq]
    rfl
  rw [runs]
  refine List.Perm.eq_of_pairwise (fun a b _ _ => hitLe_antisymm a b)
    (List.pairwise_mergeSort hitLe_trans hitLe_total _)
    (List.pairwise_mergeSort hitLe_trans hitLe_total _) ?_
  exact (List.mergeSort_perm _ _).trans
    ((filterMap_covering?_perm _ _).trans (List.mergeSort_perm _ _).symm)

/-- A method is hit if one of its extents contains the line. -/
theorem Faithful.mem_hits_iff {index : LineIndex} (h : index.Faithful) {document : DocumentId}
    {line : UInt32} {method : MethodId} {version : Nat} :
    (method, version) ∈ index.hits document line ↔
      ∃ extent ∈ index.extentsIn document,
        extent.covers line ∧ extent.method = method ∧ extent.version = version := by
  rw [h.hits_eq, (List.mergeSort_perm _ _).mem_iff, List.mem_map]
  simp only [List.mem_filter, hitOf, Prod.mk.injEq, and_assoc]

/-- Hits ascend strictly by method, if no method has two extents in the document. -/
theorem Faithful.pairwise_hits {index : LineIndex} (h : index.Faithful) {document : DocumentId}
    (single : ((index.extentsIn document).map (·.method)).Nodup) (line : UInt32) :
    (index.hits document line).Pairwise (·.1.val < ·.1.val) := by
  rw [h.hits_eq]
  have sorted := List.pairwise_mergeSort hitLe_trans hitLe_total
    (((index.extentsIn document).filter (·.covers line)).map hitOf)
  have distinct : ((((index.extentsIn document).filter (·.covers line)).map hitOf).mergeSort
      hitLe).Pairwise (·.1 ≠ ·.1) := by
    rw [← List.pairwise_map]
    refine ((List.mergeSort_perm _ _).map _).nodup_iff.2 ?_
    rw [List.map_map]
    exact single.sublist (List.filter_sublist.map _)
  refine (sorted.and distinct).imp ?_
  rintro ⟨⟨a⟩, v⟩ ⟨⟨b⟩, w⟩ ⟨le, ne⟩
  simp only [hitLe, ne_eq, MethodId.mk.injEq, UInt32.le_iff_toNat_le, UInt32.lt_iff_toNat_lt,
    ← UInt32.toNat_inj] at le ne ⊢
  rw [if_neg ne, decide_eq_true_eq] at le
  omega

/-! ### Hits and spans -/

/-- An extent that an index knows stands for a span of its method. -/
theorem Represents.mem_extentsIn_iff {index : LineIndex} {content : Content}
    (h : index.Represents content) {document : DocumentId} {extent : Extent} :
    extent ∈ index.extentsIn document ↔
      extent.version = (content extent.method).1 ∧
        ⟨document, extent.minLine, extent.maxLine⟩ ∈ (content extent.method).2 := by
  have own : extent ∈ index.extentsIn document ↔
      extent ∈ (index.extentsIn document).filter (·.method = extent.method) := by simp
  rw [own, h.extents, extentsOf, List.mem_map]
  constructor
  · rintro ⟨span, mem, eq⟩
    obtain ⟨known, there⟩ := List.mem_filter.1 mem
    obtain rfl : span.document = document := of_decide_eq_true there
    rw [← eq]
    exact ⟨rfl, known⟩
  · rintro ⟨version, known⟩
    exact ⟨_, List.mem_filter.2 ⟨known, decide_eq_true rfl⟩, by rw [← version]⟩

/-- If no method has two spans in a document, then no method has two extents there. -/
theorem Represents.nodup_methods {index : LineIndex} {content : Content}
    (h : index.Represents content)
    (single : ∀ method, ((content method).2.map (·.document)).Nodup) (document : DocumentId) :
    ((index.extentsIn document).map (·.method)).Nodup := by
  rw [List.nodup_iff_count_le_one]
  intro method
  have counted : ((index.extentsIn document).map (·.method)).count method =
      ((content method).2.map (·.document)).count document := by
    have extents := congrArg List.length (h.extents method document)
    rw [extentsOf, List.length_map, ← List.countP_eq_length_filter,
      ← List.countP_eq_length_filter] at extents
    rw [List.count, List.count, List.countP_map, List.countP_map]
    simpa only [Function.comp_def, beq_eq_decide] using extents
  rw [counted]
  exact List.nodup_iff_count_le_one.1 (single method) document

/-- The lines of a method in a document are those of its first span there. -/
theorem Represents.lines?_eq {index : LineIndex} {content : Content}
    (h : index.Represents content) (method : MethodId) (document : DocumentId) :
    index.lines? method document =
      (((content method).2.find? (·.document = document)).map fun span =>
        (span.minLine, span.maxLine)) := by
  rw [lines?, ← List.head?_filter, h.extents, extentsOf, List.head?_map, List.head?_filter,
    Option.map_map]
  rfl

/-- A method is hit if one of its spans contains the line. -/
theorem Represents.mem_hits_iff {index : LineIndex} {content : Content}
    (h : index.Represents content) (faithful : index.Faithful) {document : DocumentId}
    {line : UInt32} {method : MethodId} {version : Nat} :
    (method, version) ∈ index.hits document line ↔
      version = (content method).1 ∧ ∃ span ∈ (content method).2,
        span.document = document ∧ span.minLine ≤ line ∧ line ≤ span.maxLine := by
  rw [faithful.mem_hits_iff]
  constructor
  · rintro ⟨extent, mem, covers, rfl, rfl⟩
    obtain ⟨version, known⟩ := h.mem_extentsIn_iff.1 mem
    exact ⟨version, _, known, rfl, Extent.covers_iff.1 covers⟩
  · rintro ⟨rfl, span, known, rfl, covers⟩
    refine ⟨⟨method, (content method).1, span.minLine, span.maxLine⟩, ?_, ?_, rfl, rfl⟩
    · exact h.mem_extentsIn_iff.2 ⟨rfl, known⟩
    · exact Extent.covers_iff.2 covers

end LineIndex

end SymbolHistory
