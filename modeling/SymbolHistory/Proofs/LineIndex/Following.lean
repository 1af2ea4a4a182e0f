import SymbolHistory.Proofs.LineIndex.Lookup

/-!
# What comes next in each run

Asked for what is on a line or next after it, an index gives one extent of each run: the first one
that does not end before the line. The other extents of a run that do not end before the line lie
behind that one as a whole, which is why one for each run is enough.

## Main results

* `Run.next?_eq_find?` : what a run has at or after a line.
* `LineIndex.Faithful.exists_skipped` : what is given and what is left out.
* `LineIndex.Faithful.mem_or_exists_before` : whatever is left out is behind what is given.
-/

namespace SymbolHistory

/-! ### In one run -/

/-- In an ordered run every extent ends before all later ones start. -/
theorem Run.Ordered.pairwise {run : Run} (h : run.Ordered) :
    run.Pairwise (·.maxLine < ·.minLine) := by
  induction run with
  | nil => exact List.Pairwise.nil
  | cons extent run ih =>
      refine List.pairwise_cons.2 ⟨?_, ih h.tail⟩
      rcases run with _ | ⟨next, run⟩
      · simp
      · have ends : extent.maxLine < next.minLine := (List.isChain_cons_cons.1 h.apart).1
        intro later mem
        rcases List.mem_cons.1 mem with rfl | mem
        · exact ends
        · exact UInt32.lt_of_lt_of_le ends (List.rel_of_pairwise_cons h.tail.starts mem)

/-- **What a run has at or after a line** is the first of its extents that does not end before the
line, if no extent ends before it starts. -/
theorem Run.next?_eq_find? {run : Run} (h : run.Ordered)
    (proper : ∀ extent ∈ run, extent.minLine ≤ extent.maxLine) (line : UInt32) :
    run.next? line = run.find? (line ≤ ·.maxLine) := by
  induction run with
  | nil => rfl
  | cons extent run ih =>
      by_cases reached : extent.minLine ≤ line
      · rcases run with _ | ⟨next, run⟩
        · by_cases inside : line ≤ extent.maxLine
          · simp [next?, covering?, Extent.covers, reached, inside, Option.filter_some]
          · have passed := UInt32.not_le.1 inside
            simp [next?, covering?, Extent.covers, reached, passed]
        · by_cases further : next.minLine ≤ line
          · -- The first extent is over by then, and looking on starts with the next one.
            have ends : extent.maxLine < next.minLine := (List.isChain_cons_cons.1 h.apart).1
            have passed : ¬line ≤ extent.maxLine :=
              UInt32.not_le.2 (UInt32.lt_of_lt_of_le ends further)
            have skip : next? (extent :: next :: run) line = next? (next :: run) line := by
              simp [next?, covering?, reached, further]
            rw [List.find?_cons_of_neg (by simpa using UInt32.not_le.1 passed), skip]
            exact ih h.tail fun other mem => proper other (List.mem_cons_of_mem _ mem)
          · have ahead : line ≤ next.maxLine :=
              UInt32.le_trans (UInt32.le_of_lt (UInt32.not_le.1 further)) (proper next (by simp))
            by_cases inside : line ≤ extent.maxLine
            · simp [next?, covering?, Extent.covers, reached, further, inside, Option.filter_some]
            · simp [next?, covering?, Extent.covers, reached, further, inside, ahead,
                Option.filter_some]
      · have ahead : line ≤ extent.maxLine :=
          UInt32.le_trans (UInt32.le_of_lt (UInt32.not_le.1 reached)) (proper extent (by simp))
        simp [next?, covering?, reached, ahead]

/-- The extents of a run that do not end before a line are the one that the run has at or after the
line, and others that start behind the end of that one. -/
theorem Run.exists_filter_eq {run : Run} (h : run.Ordered)
    (proper : ∀ extent ∈ run, extent.minLine ≤ extent.maxLine) (line : UInt32) :
    ∃ skipped, run.filter (line ≤ ·.maxLine) = (run.next? line).toList ++ skipped ∧
      ∀ extent ∈ skipped, ∃ candidate ∈ run.next? line, candidate.maxLine < extent.minLine := by
  rw [next?_eq_find? h proper, ← List.head?_filter]
  have apart := h.pairwise.filter (line ≤ ·.maxLine)
  cases ahead : run.filter (line ≤ ·.maxLine) with
  | nil => exact ⟨[], rfl, fun extent mem => absurd mem List.not_mem_nil⟩
  | cons candidate others =>
      rw [ahead] at apart
      exact ⟨others, rfl, fun extent mem =>
        ⟨candidate, rfl, (List.pairwise_cons.1 apart).1 extent mem⟩⟩

/-- The same of several runs: each has one extent at or after the line, if any. -/
theorem Run.exists_filter_flatten_perm {runs : List Run} (ordered : ∀ run ∈ runs, run.Ordered)
    (proper : ∀ extent ∈ runs.flatten, extent.minLine ≤ extent.maxLine) (line : UInt32) :
    ∃ skipped, (runs.flatten.filter (line ≤ ·.maxLine)).Perm
        (runs.filterMap (·.next? line) ++ skipped) ∧
      ∀ extent ∈ skipped, ∃ candidate ∈ runs.filterMap (·.next? line),
        candidate.maxLine < extent.minLine := by
  induction runs with
  | nil => exact ⟨[], List.Perm.nil, fun extent mem => absurd mem List.not_mem_nil⟩
  | cons run runs ih =>
      rw [List.flatten_cons] at proper
      obtain ⟨first, rest⟩ := List.forall_mem_cons.1 ordered
      obtain ⟨own, others⟩ := List.forall_mem_append.1 proper
      obtain ⟨skipped, split, behind⟩ := run.exists_filter_eq first own line
      obtain ⟨more, perm, behind_more⟩ := ih rest others
      have given : (run :: runs).filterMap (·.next? line) =
          (run.next? line).toList ++ runs.filterMap (·.next? line) := by
        cases found : run.next? line <;> simp [found]
      refine ⟨skipped ++ more, ?_, List.forall_mem_append.2 ⟨?_, ?_⟩⟩
      · rw [List.flatten_cons, List.filter_append, split, given, List.append_assoc,
          List.append_assoc]
        refine (((perm.append_left _).trans ?_).append_left _)
        rw [← List.append_assoc, ← List.append_assoc]
        exact List.perm_append_comm.append_right _
      · intro extent mem
        obtain ⟨candidate, found, ends⟩ := behind extent mem
        exact ⟨candidate, List.mem_filterMap.2 ⟨run, List.mem_cons_self, found⟩, ends⟩
      · intro extent mem
        obtain ⟨candidate, found, ends⟩ := behind_more extent mem
        exact ⟨candidate, given ▸ List.mem_append_right _ found, ends⟩

namespace LineIndex

/-! ### In a document -/

variable {index : LineIndex} {document : DocumentId}

/-- **The extents that do not end before a line** are those at or after it that are given, and
others that are behind one of these as a whole. -/
theorem Faithful.exists_skipped (h : index.Faithful)
    (proper : ∀ extent ∈ index.extentsIn document, extent.minLine ≤ extent.maxLine)
    (line : UInt32) :
    ∃ skipped, ((index.extentsIn document).filter (line ≤ ·.maxLine)).Perm
        (index.nextExtents document line ++ skipped) ∧
      ∀ extent ∈ skipped, ∃ candidate ∈ index.nextExtents document line,
        candidate.maxLine < extent.minLine := by
  have all := packRuns_flatten_perm (index.extentsIn document)
  have sorted := List.mergeSort_perm
    ((packRuns (index.extentsIn document)).filterMap (·.next? line)) startLe
  obtain ⟨skipped, perm, behind⟩ := Run.exists_filter_flatten_perm
    (fun run mem => ordered_of_mem_packRuns mem)
    (fun extent mem => proper extent (all.mem_iff.1 mem)) line
  rw [nextExtents, h.runs_eq]
  refine ⟨skipped, ?_, fun extent mem => ?_⟩
  · exact (all.symm.filter _).trans (perm.trans (sorted.symm.append_right _))
  · obtain ⟨candidate, found, ends⟩ := behind extent mem
    exact ⟨candidate, sorted.mem_iff.2 found, ends⟩

/-- An extent that is given is in the document and does not end before the line. -/
theorem Faithful.of_mem_nextExtents (h : index.Faithful)
    (proper : ∀ extent ∈ index.extentsIn document, extent.minLine ≤ extent.maxLine)
    {line : UInt32} {extent : Extent} (mem : extent ∈ index.nextExtents document line) :
    extent ∈ index.extentsIn document ∧ line ≤ extent.maxLine := by
  obtain ⟨skipped, perm, -⟩ := h.exists_skipped proper line
  obtain ⟨own, ahead⟩ := List.mem_filter.1 (perm.mem_iff.2 (List.mem_append_left skipped mem))
  exact ⟨own, of_decide_eq_true ahead⟩

/-- **Whatever is left out is behind what is given**: an extent that does not end before the line is
among the extents at or after it, or one of these ends before it starts. -/
theorem Faithful.mem_or_exists_before (h : index.Faithful)
    (proper : ∀ extent ∈ index.extentsIn document, extent.minLine ≤ extent.maxLine)
    {line : UInt32} {extent : Extent} (mem : extent ∈ index.extentsIn document)
    (ahead : line ≤ extent.maxLine) :
    extent ∈ index.nextExtents document line ∨
      ∃ candidate ∈ index.nextExtents document line, candidate.maxLine < extent.minLine := by
  obtain ⟨skipped, perm, behind⟩ := h.exists_skipped proper line
  rcases List.mem_append.1 (perm.mem_iff.1 (List.mem_filter.2 ⟨mem, decide_eq_true ahead⟩)) with
    given | left_out
  · exact .inl given
  · exact .inr (behind extent left_out)

end LineIndex

end SymbolHistory
