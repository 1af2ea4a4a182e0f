import SymbolHistory.Proofs.Machine.Basic
import SymbolHistory.Proofs.Extent.Run
import SymbolHistory.LineIndex.Basic

/-!
# Runs on a machine

A machine keeps the ends of the runs in a heap, each with the index of its run. The run that ends
first, and of several the one with the smallest index, is on top of the heap; a machine takes that
index to append an extent to the run.

## Main definitions

* `top?`, `replaceTop` : what is on top of a heap, and a heap with something else on top.
* `partition` : divides extents into runs.
* `hits`, `firstHit`, `nextExtents` : what is on or after a line.

## Main results

* `partition_eq` : a machine divides extents as the library does, and never takes an index without
  a run.
* `hits_eq`, `firstHit_eq`, `nextExtents_eq` : it finds what the library finds.
-/

namespace SymbolHistory.Machine

/-- The last lines of runs, each with the index of the run. -/
abbrev Ends := List (UInt32 × Nat)

/-- What is on top of a heap: the run that ends first, the one with the smallest index if there are
several. -/
def top? : Ends → Option (UInt32 × Nat)
  | [] => none
  | first :: ends =>
    match top? ends with
    | none => some first
    | some best =>
      some (if first.1 < best.1 ∨ first.1 = best.1 ∧ first.2 ≤ best.2 then first else best)

/-- A heap with something else in place of what is on top. -/
def replaceTop (top new : UInt32 × Nat) (ends : Ends) : Ends :=
  ends.map fun entry => if entry = top then new else entry

/-- Makes a new run of an extent. -/
def startRun (runs : List Run) (ends : Ends) (extent : Extent) : List Run × Ends :=
  (runs ++ [[extent]], ends ++ [(extent.maxLine, runs.length)])

/-- Places an extent. -/
def placeExtent (grown : List Run × Ends) (extent : Extent) : Exec (List Run × Ends) := do
  let (runs, ends) := grown
  match top? ends with
  | some (stop, place) =>
    if stop < extent.minLine then
      let run ← index runs place
      return (runs.set place (run ++ [extent]),
        replaceTop (stop, place) (extent.maxLine, place) ends)
    else
      return startRun runs ends extent
  | none => return startRun runs ends extent

/-- Divides extents into runs. -/
def partition (extents : List Extent) : Exec (List Run) := do
  let (runs, _) ← (extents.mergeSort placementLe).foldlM placeExtent ([], [])
  return runs

/-- The extents in a document, divided into runs. -/
def runs (index : LineIndex) (document : DocumentId) : Exec (List Run) :=
  match index.remembered[document]? with
  | some runs => return runs
  | none => partition (index.extentsIn document)

/-- The methods whose extents in a document cover a line, with their versions. -/
def hits (index : LineIndex) (document : DocumentId) (line : UInt32) :
    Exec (List (MethodId × Nat)) := do
  let runs ← runs index document
  let found := runs.filterMap fun run =>
    (run.covering? line).map fun extent => (extent.method, extent.version)
  return found.mergeSort LineIndex.hitLe

/-- The first method whose extent in a document covers a line. -/
def firstHit (index : LineIndex) (document : DocumentId) (line : UInt32) :
    Exec (Option (MethodId × Nat)) := do
  return (← hits index document line).head?

/-- From each run of a document the extent that covers a line, or else the next one behind the
line. -/
def nextExtents (index : LineIndex) (document : DocumentId) (line : UInt32) :
    Exec (List Extent) := do
  let runs ← runs index document
  return (runs.filterMap (·.next? line)).mergeSort LineIndex.startLe

/-! ### The heap -/

/-- What a heap holds of runs that grow, the first one with index `first`. -/
def endsFrom (first : Nat) : List OpenRun → Ends
  | [] => []
  | run :: runs => (run.last.maxLine, first) :: endsFrom (first + 1) runs

theorem endsFrom_append (first : Nat) (runs more : List OpenRun) :
    endsFrom first (runs ++ more) = endsFrom first runs ++ endsFrom (first + runs.length) more := by
  induction runs generalizing first with
  | nil => rfl
  | cons run runs ih =>
      rw [List.cons_append, endsFrom, endsFrom, ih, List.length_cons, List.cons_append,
        Nat.add_right_comm, Nat.add_assoc]

/-- The indices in a heap are those of its runs. -/
theorem index_of_mem_endsFrom {first : Nat} {runs : List OpenRun} {entry : UInt32 × Nat}
    (h : entry ∈ endsFrom first runs) : first ≤ entry.2 ∧ entry.2 < first + runs.length := by
  induction runs generalizing first with
  | nil => exact absurd h List.not_mem_nil
  | cons run runs ih =>
      rw [List.length_cons]
      rcases List.mem_cons.1 h with rfl | h
      · dsimp only
        omega
      · have := ih h
        omega

/-- A run ends first: those in front of it end later, and those behind it not before. -/
structure EndsFirst (front : List OpenRun) (run : OpenRun) (back : List OpenRun) : Prop where
  /-- Those in front of it end later. -/
  front_lt : ∀ other ∈ front, run.last.maxLine < other.last.maxLine
  /-- Those behind it do not end before. -/
  le_back : ∀ other ∈ back, run.last.maxLine ≤ other.last.maxLine

/-- **The run on top of the heap is the first one of those that end first.** -/
theorem exists_top? (first : Nat) {runs : List OpenRun} (some : runs ≠ []) :
    ∃ front run back, runs = front ++ run :: back ∧ EndsFirst front run back ∧
      top? (endsFrom first runs) = .some (run.last.maxLine, first + front.length) := by
  induction runs generalizing first with
  | nil => contradiction
  | cons run runs ih =>
      rcases runs with _ | ⟨other, runs⟩
      · exact ⟨[], run, [], rfl, ⟨fun _ mem => absurd mem List.not_mem_nil,
          fun _ mem => absurd mem List.not_mem_nil⟩, rfl⟩
      · obtain ⟨front, best, back, split, least, top⟩ := ih (first + 1) (List.cons_ne_nil _ _)
        rw [endsFrom, top?, top, split]
        dsimp only
        by_cases le : run.last.maxLine ≤ best.last.maxLine
        · refine ⟨[], run, front ++ best :: back, rfl,
            ⟨fun _ mem => absurd mem List.not_mem_nil, fun other mem => ?_⟩, ?_⟩
          · rcases List.mem_append.1 mem with mem | mem
            · exact UInt32.le_trans le (UInt32.le_of_lt (least.front_lt other mem))
            · rcases List.mem_cons.1 mem with rfl | mem
              · exact le
              · exact UInt32.le_trans le (least.le_back other mem)
          · rw [if_pos]
            · rfl
            · rcases UInt32.lt_or_eq_of_le le with lt | eq
              · exact .inl lt
              · exact .inr ⟨eq, by omega⟩
        · have lt := UInt32.not_le.1 le
          refine ⟨run :: front, best, back, rfl, ⟨fun other mem => ?_, least.le_back⟩, ?_⟩
          · rcases List.mem_cons.1 mem with rfl | mem
            · exact lt
            · exact least.front_lt other mem
          · rw [if_neg, List.length_cons, Nat.add_right_comm, Nat.add_assoc]
            rintro (lt' | ⟨eq, -⟩)
            · exact le (UInt32.le_of_lt lt')
            · exact le (UInt32.le_of_eq eq)

/-- Replacing what is on top changes the entry of one run. -/
theorem replaceTop_endsFrom (first : Nat) (front back : List OpenRun) (run : OpenRun)
    (extent : Extent) :
    replaceTop (run.last.maxLine, first + front.length) (extent.maxLine, first + front.length)
        (endsFrom first (front ++ run :: back)) =
      endsFrom first (front ++ run.push extent :: back) := by
  have kept (first' : Nat) (runs : List OpenRun)
      (apart : ∀ entry ∈ endsFrom first' runs, entry.2 ≠ first + front.length) :
      replaceTop (run.last.maxLine, first + front.length) (extent.maxLine, first + front.length)
        (endsFrom first' runs) = endsFrom first' runs := by
    refine (List.map_congr_left fun entry mem => ?_).trans (List.map_id _)
    exact if_neg fun same => apart entry mem (congrArg Prod.snd same)
  have before := kept first front fun entry mem =>
    Nat.ne_of_lt (index_of_mem_endsFrom mem).2
  have behind := kept (first + front.length + 1) back fun entry mem =>
    Nat.ne_of_gt (index_of_mem_endsFrom mem).1
  rw [endsFrom_append, endsFrom_append, endsFrom, endsFrom]
  rw [replaceTop] at before behind ⊢
  rw [List.map_append, before, List.map_cons, if_pos rfl, behind]
  rfl

/-! ### Placing extents -/

/-- Appending to the run that ends first is appending to the first run that ends on that line. -/
theorem pushTo_of_endsFirst {front back : List OpenRun} {run : OpenRun}
    (h : EndsFirst front run back) (extent : Extent) :
    OpenRun.pushTo run.last.maxLine extent (front ++ run :: back) =
      front ++ run.push extent :: back := by
  have later := h.front_lt
  clear h
  induction front with
  | nil => exact if_pos rfl
  | cons other front ih =>
      have lt := later other List.mem_cons_self
      rw [List.cons_append, OpenRun.pushTo, if_neg fun same => UInt32.lt_irrefl _ (same ▸ lt),
        ih fun another mem => later another (List.mem_cons_of_mem _ mem)]
      rfl

/-- The least last line is that of the run that ends first. -/
theorem min?_of_endsFirst {front back : List OpenRun} {run : OpenRun}
    (h : EndsFirst front run back) :
    ((front ++ run :: back).map (·.last.maxLine)).min? = some run.last.maxLine := by
  rw [List.min?_eq_some_iff]
  refine ⟨List.mem_map_of_mem (List.mem_append_right _ List.mem_cons_self), fun line mem => ?_⟩
  obtain ⟨other, of_runs, rfl⟩ := List.mem_map.1 mem
  rcases List.mem_append.1 of_runs with mem | mem
  · exact UInt32.le_of_lt (h.front_lt other mem)
  · rcases List.mem_cons.1 mem with rfl | mem
    · exact UInt32.le_refl _
    · exact h.le_back other mem

/-- What a machine holds of runs that grow. -/
def held (runs : List OpenRun) : List Run × Ends :=
  (runs.map OpenRun.toRun, endsFrom 0 runs)

theorem startRun_held (runs : List OpenRun) (extent : Extent) :
    startRun (held runs).1 (held runs).2 extent = held (runs ++ [⟨extent, []⟩]) := by
  rw [held, held, endsFrom_append, startRun, List.map_append, List.length_map, Nat.zero_add]
  rfl

/-- **The run on top of the heap is there, and placing an extent is what the library does.** -/
theorem placeExtent_held (runs : List OpenRun) (extent : Extent) :
    placeExtent (held runs) extent = pure (held (place runs extent)) := by
  by_cases none : runs = []
  · subst none
    rfl
  · obtain ⟨front, run, back, rfl, least, top⟩ := exists_top? 0 none
    have there : (held (front ++ run :: back)).1[0 + front.length]? = some run.toRun := by
      rw [held, Nat.zero_add, List.map_append, List.getElem?_append_right (by rw [List.length_map]),
        List.length_map, Nat.sub_self]
      rfl
    rw [place, min?_of_endsFirst least, placeExtent]
    dsimp only
    rw [show (held (front ++ run :: back)).2 = endsFrom 0 (front ++ run :: back) from rfl, top]
    dsimp only
    by_cases behind : run.last.maxLine < extent.minLine
    · rw [if_pos behind, if_pos behind, pushTo_of_endsFirst least,
        index_of_getElem? there, pure_bind, replaceTop_endsFrom]
      rw [held, held, Nat.zero_add, List.map_append, List.set_append_right _ _ (by simp)]
      simp
    · rw [if_neg behind, if_neg behind]
      exact congrArg pure (startRun_held _ extent)

/-- **A machine divides extents as the library does.** -/
theorem partition_eq (extents : List Extent) : partition extents = pure (packRuns extents) := by
  have all (sorted : List Extent) (runs : List OpenRun) :
      sorted.foldlM placeExtent (held runs) = pure (held (sorted.foldl place runs)) := by
    induction sorted generalizing runs with
    | nil => rfl
    | cons extent sorted ih =>
        rw [List.foldlM_cons, placeExtent_held, pure_bind, ih]
        rfl
  rw [partition, show (([], []) : List Run × Ends) = held [] from rfl, all, pure_bind]
  rfl

theorem runs_eq (index : LineIndex) (document : DocumentId) :
    runs index document = pure (index.runs document) := by
  unfold runs LineIndex.runs
  cases index.remembered[document]? with
  | some runs => rfl
  | none => exact partition_eq _

theorem hits_eq (index : LineIndex) (document : DocumentId) (line : UInt32) :
    hits index document line = pure (index.hits document line) := by
  rw [hits, runs_eq]
  rfl

theorem firstHit_eq (index : LineIndex) (document : DocumentId) (line : UInt32) :
    firstHit index document line = pure (index.firstHit? document line) := by
  rw [firstHit, hits_eq]
  rfl

theorem nextExtents_eq (index : LineIndex) (document : DocumentId) (line : UInt32) :
    nextExtents index document line = pure (index.nextExtents document line) := by
  rw [nextExtents, runs_eq]
  rfl

end SymbolHistory.Machine
