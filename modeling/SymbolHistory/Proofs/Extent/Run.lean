import SymbolHistory.Extent.Run
import Mathlib.Data.List.Chain

/-!
# Division into runs

Dividing extents into runs loses none of them and makes none up, and the runs are ordered: extents
start in order, and each ends before the next one starts. That is what looking a line up in a run
relies on: of all extents in an ordered run, only the last one that does not start behind a line can
contain it. An extent that ends before it starts contains no line, so such extents do no harm.

## Main definitions

* `Run.Ordered` : the extents of a run follow one another.

## Main results

* `packRuns_flatten_perm` : the runs together have the extents that were divided.
* `ordered_of_mem_packRuns` : every run is ordered.
* `Run.toList_covering?` : looking a line up in an ordered run finds the extents that contain it.
-/

namespace SymbolHistory

/-- A run whose extents follow one another. -/
structure Run.Ordered (run : Run) : Prop where
  /-- Extents start in order. -/
  starts : run.Pairwise (·.minLine ≤ ·.minLine)
  /-- Each extent ends before the next one starts. -/
  apart : run.IsChain (·.maxLine < ·.minLine)

/-! ### Looking lines up -/

/-- The rest of an ordered run is ordered. -/
theorem Run.Ordered.tail {extent : Extent} {run : Run} (h : Run.Ordered (extent :: run)) :
    Run.Ordered run :=
  ⟨h.starts.of_cons, h.apart.tail⟩

/-- In front of its first extent an ordered run contains no line. -/
theorem Run.Ordered.filter_covers_eq_nil {extent : Extent} {run : Run}
    (h : Run.Ordered (extent :: run)) {line : UInt32} (before : line < extent.minLine) :
    (extent :: run).filter (·.covers line) = [] := by
  rw [List.filter_eq_nil_iff]
  intro other mem
  have start : extent.minLine ≤ other.minLine := by
    rcases List.mem_cons.1 mem with rfl | mem
    · exact UInt32.le_refl _
    · exact List.rel_of_pairwise_cons h.starts mem
  rw [Extent.covers_iff]
  rintro ⟨reached, -⟩
  exact UInt32.not_le.2 before (UInt32.le_trans start reached)

/-- Looking a line up in an ordered run finds the extents that contain it, of which there is one at
most. -/
theorem Run.toList_covering? {run : Run} (h : run.Ordered) (line : UInt32) :
    (run.covering? line).toList = run.filter (·.covers line) := by
  induction run with
  | nil => rfl
  | cons extent run ih =>
      by_cases reached : extent.minLine ≤ line
      · rcases run with _ | ⟨next, run⟩
        · cases hc : extent.covers line <;> simp [covering?, reached, hc]
        · by_cases further : next.minLine ≤ line
          -- The next extent starts at the line or before it, so the first one is over by then.
          · have passed : extent.covers line = false := by
              rw [Bool.eq_false_iff, ne_eq, Extent.covers_iff]
              rintro ⟨-, inside⟩
              have ends : extent.maxLine < next.minLine := (List.isChain_cons_cons.1 h.apart).1
              exact UInt32.not_le.2 ends (UInt32.le_trans further inside)
            have skip : covering? (extent :: next :: run) line = covering? (next :: run) line := by
              simp [covering?, reached, further]
            rw [List.filter_cons_of_neg (by simp [passed]), skip, ih h.tail]
          · have rest := h.tail.filter_covers_eq_nil (UInt32.not_le.1 further)
            rw [List.filter_cons, rest]
            cases hc : extent.covers line <;> simp [covering?, reached, further, hc]
      · rw [h.filter_covers_eq_nil (UInt32.not_le.1 reached)]
        simp [covering?, reached]

/-! ### The order of placement -/

theorem placementLe_trans (a b c : Extent) (h₁ : placementLe a b) (h₂ : placementLe b c) :
    placementLe a c := by
  simp only [placementLe, UInt32.lt_iff_toNat_lt, UInt32.le_iff_toNat_le, ← UInt32.toNat_inj]
    at h₁ h₂ ⊢
  grind

theorem placementLe_total (a b : Extent) : placementLe a b || placementLe b a := by
  simp only [placementLe, UInt32.lt_iff_toNat_lt, UInt32.le_iff_toNat_le, ← UInt32.toNat_inj,
    Bool.or_eq_true]
  grind

/-- Extents are placed by ascending first line. -/
theorem minLine_le_of_placementLe {a b : Extent} (h : placementLe a b) : a.minLine ≤ b.minLine := by
  simp only [placementLe, UInt32.lt_iff_toNat_lt, UInt32.le_iff_toNat_le, ← UInt32.toNat_inj]
    at h ⊢
  grind

/-- The extents as they are placed start in order. -/
theorem pairwise_mergeSort_placementLe (extents : List Extent) :
    (extents.mergeSort placementLe).Pairwise (·.minLine ≤ ·.minLine) :=
  (List.pairwise_mergeSort placementLe_trans placementLe_total extents).imp
    minLine_le_of_placementLe

/-! ### Placing -/

namespace OpenRun

/-- An extent that starts behind the end of an ordered run and behind all of its starts can be
appended. -/
theorem ordered_push {run : OpenRun} {extent : Extent} (h : run.toRun.Ordered)
    (start : ∀ other ∈ run.toRun, other.minLine ≤ extent.minLine)
    (behind : run.last.maxLine < extent.minLine) : (run.push extent).toRun.Ordered := by
  rw [toRun_push]
  constructor
  · rw [List.pairwise_append]
    exact ⟨h.starts, List.pairwise_singleton _ _, fun other mem last last_mem =>
      List.mem_singleton.1 last_mem ▸ start other mem⟩
  · refine h.apart.append (List.isChain_singleton _) ?_
    intro last last_mem first first_mem
    have last_eq : run.last = last := by simpa [toRun] using last_mem
    have first_eq : extent = first := by simpa using first_mem
    exact last_eq ▸ first_eq ▸ behind

/-- Appending to one of some runs adds the extent to their extents. -/
theorem flatten_pushTo_perm {stop : UInt32} {extent : Extent} {runs : List OpenRun}
    (h : ∃ run ∈ runs, run.last.maxLine = stop) :
    ((pushTo stop extent runs).map toRun).flatten.Perm (extent :: (runs.map toRun).flatten) := by
  induction runs with
  | nil => simp at h
  | cons run runs ih =>
      rw [pushTo]
      split
      · rw [List.map_cons, List.map_cons, List.flatten_cons, List.flatten_cons, toRun_push,
          List.append_assoc]
        exact List.perm_middle
      · next ne =>
        have later : ∃ run ∈ runs, run.last.maxLine = stop := by
          obtain ⟨found, mem, eq⟩ := h
          rcases List.mem_cons.1 mem with rfl | mem
          · exact absurd eq ne
          · exact ⟨found, mem, eq⟩
        rw [List.map_cons, List.map_cons, List.flatten_cons, List.flatten_cons]
        exact ((ih later).append_left _).trans List.perm_middle

/-- A run after appending to one of some runs is one of these, or one that ends on the given line
with the extent appended. -/
theorem mem_pushTo {stop : UInt32} {extent : Extent} {runs : List OpenRun} {run : OpenRun}
    (h : run ∈ pushTo stop extent runs) :
    run ∈ runs ∨ ∃ old ∈ runs, old.last.maxLine = stop ∧ run = old.push extent := by
  induction runs with
  | nil => simp [pushTo] at h
  | cons first runs ih =>
      rw [pushTo] at h
      split at h
      · next eq =>
        rcases List.mem_cons.1 h with rfl | mem
        · exact .inr ⟨first, List.mem_cons_self, eq, rfl⟩
        · exact .inl (List.mem_cons_of_mem _ mem)
      · rcases List.mem_cons.1 h with rfl | mem
        · exact .inl List.mem_cons_self
        · rcases ih mem with mem | ⟨old, mem, eq⟩
          · exact .inl (List.mem_cons_of_mem _ mem)
          · exact .inr ⟨old, List.mem_cons_of_mem _ mem, eq⟩

end OpenRun

/-- Ordered runs that hold the extents placed so far. -/
structure Packed (placed : List Extent) (runs : List OpenRun) : Prop where
  /-- The runs hold the placed extents. -/
  perm : (runs.map OpenRun.toRun).flatten.Perm placed
  /-- Every run is ordered. -/
  ordered : ∀ run ∈ runs, run.toRun.Ordered

/-- A run that holds an extent alone is ordered. -/
theorem OpenRun.ordered_singleton (extent : Extent) : (OpenRun.mk extent []).toRun.Ordered :=
  ⟨List.pairwise_singleton _ _, List.isChain_singleton _⟩

/-- Opening a new run for an extent. -/
theorem Packed.open {placed : List Extent} {runs : List OpenRun} (h : Packed placed runs)
    (extent : Extent) : Packed (placed ++ [extent]) (runs ++ [⟨extent, []⟩]) where
  perm := by
    have single : ([OpenRun.mk extent []].map OpenRun.toRun).flatten = [extent] := rfl
    rw [List.map_append, List.flatten_append, single]
    exact h.perm.append_right _
  ordered run mem := by
    rcases List.mem_append.1 mem with mem | mem
    · exact h.ordered run mem
    · exact List.mem_singleton.1 mem ▸ OpenRun.ordered_singleton extent

/-- Placing an extent keeps runs ordered, if no placed extent starts behind it. -/
theorem Packed.place {placed : List Extent} {runs : List OpenRun} (h : Packed placed runs)
    {extent : Extent} (start : ∀ other ∈ placed, other.minLine ≤ extent.minLine) :
    Packed (placed ++ [extent]) (place runs extent) := by
  rw [SymbolHistory.place]
  split
  · next stop least =>
    split
    · next behind =>
      obtain ⟨run, mem, stops⟩ := List.mem_map.1 (List.min?_mem least)
      constructor
      · exact (OpenRun.flatten_pushTo_perm ⟨run, mem, stops⟩).trans
          ((h.perm.cons extent).trans (List.perm_append_singleton _ _).symm)
      · intro run mem
        rcases OpenRun.mem_pushTo mem with kept | ⟨old, known, stops, rfl⟩
        · exact h.ordered run kept
        · refine OpenRun.ordered_push (h.ordered old known) ?_ (stops ▸ behind)
          intro other inside
          refine start other (h.perm.subset ?_)
          exact List.mem_flatten.2 ⟨_, List.mem_map_of_mem known, inside⟩
    · exact h.open extent
  · next none =>
    have empty : runs = [] := by simpa using List.min?_eq_none_iff.1 none
    subst empty
    exact h.open extent

/-- Placing extents that start in order gives ordered runs of them. -/
theorem packed_foldl_place {extents : List Extent}
    (h : extents.Pairwise (·.minLine ≤ ·.minLine)) : Packed extents (extents.foldl place []) := by
  induction extents using List.reverseRecOn with
  | nil => exact ⟨List.Perm.refl _, fun run mem => absurd mem List.not_mem_nil⟩
  | append_singleton placed extent ih =>
      rw [List.foldl_append]
      obtain ⟨before, -, start⟩ := List.pairwise_append.1 h
      exact (ih before).place fun other mem => start other mem extent (List.mem_singleton.2 rfl)

theorem packed_mergeSort (extents : List Extent) :
    Packed (extents.mergeSort placementLe) ((extents.mergeSort placementLe).foldl place []) :=
  packed_foldl_place (pairwise_mergeSort_placementLe extents)

/-- **Runs lose nothing.** Together they have the extents that were divided. -/
theorem packRuns_flatten_perm (extents : List Extent) :
    (packRuns extents).flatten.Perm extents :=
  (packed_mergeSort extents).perm.trans (List.mergeSort_perm _ _)

/-- **Runs are ordered.** -/
theorem ordered_of_mem_packRuns {extents : List Extent} {run : Run}
    (h : run ∈ packRuns extents) : run.Ordered := by
  obtain ⟨opened, mem, rfl⟩ := List.mem_map.1 h
  exact (packed_mergeSort extents).ordered opened mem

end SymbolHistory
