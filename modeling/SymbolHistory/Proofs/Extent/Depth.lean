import SymbolHistory.Proofs.LineIndex.Following
import Mathlib.Order.Bounds.Basic

/-!
# No division has fewer runs

Extents that contain one common line must all be apart in a division into groups that do not
overlap, so no such division has fewer groups than the largest number of extents on one line. The
runs are exactly as many: a new run is only opened for an extent if every run so far ends on the
first line of that extent or behind it, and as no extent placed before starts behind that line, the
last extents of all runs contain it.

An extent that ends before it starts contains no line, so it would need a run and not add to any
line. The count is about extents that are not empty.

## Main definitions

* `depth` : how many extents contain a line.
* `Extent.Apart`, `Divides` : divisions into groups that do not overlap.

## Main results

* `exists_length_place_le_depth` : one step of the division keeps a line with as many extents as
  there are runs.
* `Divides.depth_le` : no division has fewer groups than extents on a line.
* `packRuns_fewest` : the runs are complete, ordered, and as few as there can be.
-/

namespace SymbolHistory

/-- The number of extents that contain a line. -/
def depth (extents : List Extent) (line : UInt32) : Nat :=
  extents.countP (·.covers line)

/-- Two extents that have no line in common. -/
def Extent.Apart (a b : Extent) : Prop :=
  ∀ line, ¬(a.covers line ∧ b.covers line)

/-- A division of extents into groups in which no two extents have a line in common. -/
structure Divides (groups : List (List Extent)) (extents : List Extent) : Prop where
  /-- The groups together have the extents. -/
  perm : groups.flatten.Perm extents
  /-- Within a group extents do not overlap. -/
  apart : ∀ group ∈ groups, group.Pairwise Extent.Apart

/-! ### At least as many groups as extents on a line -/

theorem depth_eq_of_perm {a b : List Extent} (h : a.Perm b) (line : UInt32) :
    depth a line = depth b line :=
  h.countP_eq _

theorem depth_append (a b : List Extent) (line : UInt32) :
    depth (a ++ b) line = depth a line + depth b line :=
  List.countP_append

/-- Of extents that do not overlap, one at most contains a given line. -/
theorem depth_le_one {group : List Extent} (h : group.Pairwise Extent.Apart) (line : UInt32) :
    depth group line ≤ 1 := by
  induction group with
  | nil => simp [depth]
  | cons extent group ih =>
      rw [depth, List.countP_cons, ← depth]
      have rest := ih h.of_cons
      split
      · next covers =>
        have none : depth group line = 0 := by
          rw [depth, List.countP_eq_zero]
          intro other mem inside
          exact List.rel_of_pairwise_cons h mem line ⟨covers, inside⟩
        omega
      · omega

/-- Groups with at most one extent each on a line have at most as many there as there are groups. -/
theorem depth_flatten_le {groups : List (List Extent)} {line : UInt32}
    (h : ∀ group ∈ groups, depth group line ≤ 1) : depth groups.flatten line ≤ groups.length := by
  induction groups with
  | nil => simp [depth]
  | cons group groups ih =>
      have first := h group List.mem_cons_self
      have rest := ih fun other mem => h other (List.mem_cons_of_mem _ mem)
      rw [List.flatten_cons, depth_append, List.length_cons]
      omega

/-- **No division has fewer groups** than there are extents on any one line. -/
theorem Divides.depth_le {groups : List (List Extent)} {extents : List Extent}
    (h : Divides groups extents) (line : UInt32) : depth extents line ≤ groups.length := by
  rw [← depth_eq_of_perm h.perm]
  exact depth_flatten_le fun group mem => depth_le_one (h.apart group mem) line

/-! ### As many extents on a line as there are runs -/

/-- Groups that all have an extent on a line have at least as many there as there are groups. -/
theorem length_le_depth_flatten {groups : List (List Extent)} {line : UInt32}
    (h : ∀ group ∈ groups, ∃ extent ∈ group, extent.covers line) :
    groups.length ≤ depth groups.flatten line := by
  induction groups with
  | nil => simp
  | cons group groups ih =>
      have first : 0 < depth group line := List.countP_pos_iff.2 (h group List.mem_cons_self)
      have rest := ih fun other mem => h other (List.mem_cons_of_mem _ mem)
      rw [List.flatten_cons, depth_append, List.length_cons]
      omega

namespace OpenRun

@[simp] theorem length_pushTo (stop : UInt32) (extent : Extent) (runs : List OpenRun) :
    (pushTo stop extent runs).length = runs.length := by
  induction runs with
  | nil => rfl
  | cons run runs ih =>
      rw [pushTo]
      split
      · rfl
      · rw [List.length_cons, ih, List.length_cons]

theorem last_mem_toRun (run : OpenRun) : run.last ∈ run.toRun := by
  simp [toRun]

/-- A run is never empty. -/
theorem toRun_ne_nil (run : OpenRun) : run.toRun ≠ [] :=
  List.ne_nil_of_mem run.last_mem_toRun

end OpenRun

/-- What placing an extent does to the number of runs: none is opened, or one is and then all runs
end on the first line of the extent or behind it. -/
theorem length_place_cases (runs : List OpenRun) (extent : Extent) :
    (place runs extent).length = runs.length ∨
    ((place runs extent).length = runs.length + 1 ∧
      ∀ run ∈ runs, extent.minLine ≤ run.last.maxLine) := by
  rw [place]
  split
  · next stop least =>
    split
    · exact .inl (OpenRun.length_pushTo _ _ _)
    · next reached =>
      refine .inr ⟨by simp, fun run mem => ?_⟩
      have first : stop ≤ run.last.maxLine :=
        (List.min?_eq_some_iff.1 least).2 _ (List.mem_map_of_mem mem)
      exact UInt32.le_trans (UInt32.not_lt.1 reached) first
  · next none =>
    have empty : runs = [] := by simpa using List.min?_eq_none_iff.1 none
    subst empty
    exact .inr ⟨rfl, by simp⟩

/-- Placing an extent keeps a line with as many extents as there are runs. -/
theorem exists_length_place_le_depth {placed : List Extent} {runs : List OpenRun} {extent : Extent}
    (packed : Packed placed runs) (start : ∀ other ∈ placed, other.minLine ≤ extent.minLine)
    (proper : extent.minLine ≤ extent.maxLine)
    (h : ∃ line, runs.length ≤ depth placed line) :
    ∃ line, (place runs extent).length ≤ depth (placed ++ [extent]) line := by
  rcases length_place_cases runs extent with same | ⟨more, reached⟩
  · obtain ⟨line, enough⟩ := h
    refine ⟨line, ?_⟩
    rw [same, depth_append]
    omega
  · -- The first line of the extent lies in the last extent of every run, and in the new one.
    refine ⟨extent.minLine, ?_⟩
    have lasts : runs.length ≤ depth placed extent.minLine := by
      rw [← depth_eq_of_perm packed.perm, ← List.length_map OpenRun.toRun]
      refine length_le_depth_flatten fun group mem => ?_
      obtain ⟨run, known, rfl⟩ := List.mem_map.1 mem
      have held : run.last ∈ placed :=
        packed.perm.subset (List.mem_flatten.2 ⟨_, mem, run.last_mem_toRun⟩)
      exact ⟨run.last, run.last_mem_toRun,
        Extent.covers_iff.2 ⟨start _ held, reached run known⟩⟩
    have own : depth [extent] extent.minLine = 1 :=
      List.countP_singleton.trans
        (if_pos (Extent.covers_iff.2 ⟨UInt32.le_refl _, proper⟩))
    rw [more, depth_append, own]
    omega

theorem exists_length_foldl_place_le_depth {extents : List Extent}
    (sorted : extents.Pairwise (·.minLine ≤ ·.minLine))
    (proper : ∀ extent ∈ extents, extent.minLine ≤ extent.maxLine) :
    ∃ line, (extents.foldl place []).length ≤ depth extents line := by
  induction extents using List.reverseRecOn with
  | nil => exact ⟨0, Nat.zero_le _⟩
  | append_singleton placed extent ih =>
      obtain ⟨before, -, start⟩ := List.pairwise_append.1 sorted
      rw [List.foldl_append]
      exact exists_length_place_le_depth (packed_foldl_place before)
        (fun other mem => start other mem extent (List.mem_singleton.2 rfl))
        (proper extent (by simp))
        (ih before fun other mem => proper other (List.mem_append_left _ mem))

/-- Some line lies in as many extents as there are runs. -/
theorem exists_length_packRuns_le_depth {extents : List Extent}
    (proper : ∀ extent ∈ extents, extent.minLine ≤ extent.maxLine) :
    ∃ line, (packRuns extents).length ≤ depth extents line := by
  have perm := List.mergeSort_perm extents placementLe
  obtain ⟨line, enough⟩ := exists_length_foldl_place_le_depth
    (pairwise_mergeSort_placementLe extents) fun extent mem => proper extent (perm.subset mem)
  refine ⟨line, ?_⟩
  rw [packRuns, List.length_map, ← depth_eq_of_perm perm]
  exact enough

/-- In an ordered run extents do not overlap. -/
theorem Run.Ordered.pairwise_apart {run : Run} (h : run.Ordered) :
    run.Pairwise Extent.Apart := by
  refine h.pairwise.imp fun {a b} ends line ⟨inA, inB⟩ => ?_
  have reached := (Extent.covers_iff.1 inA).2
  have started := (Extent.covers_iff.1 inB).1
  exact UInt32.not_le.2 ends (UInt32.le_trans started reached)

/-- The runs are a division. -/
theorem divides_packRuns (extents : List Extent) : Divides (packRuns extents) extents where
  perm := packRuns_flatten_perm extents
  apart _ mem := (ordered_of_mem_packRuns mem).pairwise_apart

/-- **The runs are complete, ordered and as few as there can be.** They hold the extents that were
divided, none of them is empty, and each extent of a run ends before the next one starts. If no
extent ends before it starts, there are as many runs as there are extents on the line with the most
of them, and no division into groups without overlaps has fewer groups. -/
theorem packRuns_fewest (extents : List Extent) :
    (packRuns extents).flatten.Perm extents ∧
    (∀ run ∈ packRuns extents, run ≠ [] ∧ run.IsChain (·.maxLine < ·.minLine)) ∧
    ((∀ extent ∈ extents, extent.minLine ≤ extent.maxLine) →
      IsGreatest (Set.range (depth extents)) (packRuns extents).length ∧
      ∀ groups, Divides groups extents → (packRuns extents).length ≤ groups.length) := by
  refine ⟨packRuns_flatten_perm extents, fun run mem => ⟨?_, ?_⟩, fun proper => ?_⟩
  · obtain ⟨opened, -, rfl⟩ := List.mem_map.1 mem
    exact opened.toRun_ne_nil
  · exact (ordered_of_mem_packRuns mem).apart
  · obtain ⟨line, enough⟩ := exists_length_packRuns_le_depth proper
    have most : ∀ other, depth extents other ≤ (packRuns extents).length :=
      (divides_packRuns extents).depth_le
    refine ⟨⟨⟨line, (most line).antisymm enough⟩, ?_⟩, fun groups divides => ?_⟩
    · rintro _ ⟨other, rfl⟩
      exact most other
    · exact enough.trans (divides.depth_le line)

/-- An extent with two more inside it and a third one that starts on its last line. No three of
them have a line in common. -/
def nestedExtents : List Extent :=
  [⟨⟨1⟩, 0, 1, 9⟩, ⟨⟨2⟩, 0, 3, 5⟩, ⟨⟨3⟩, 0, 6, 6⟩, ⟨⟨4⟩, 0, 9, 12⟩]

theorem packRuns_fewest_nestedExtents :
    (packRuns nestedExtents).length = 2 ∧
    ∀ groups, Divides groups nestedExtents → 2 ≤ groups.length := by
  have sorted : nestedExtents.mergeSort placementLe = nestedExtents :=
    List.mergeSort_of_pairwise (by decide)
  have two : (packRuns nestedExtents).length = 2 := by
    rw [packRuns, sorted]
    decide
  refine ⟨two, fun groups divides => ?_⟩
  rw [← two]
  exact ((packRuns_fewest nestedExtents).2.2 (by decide)).2 groups divides

end SymbolHistory
