import SymbolHistory.Extent.Basic

/-!
# Runs of extents

The extents of a document are divided into runs. In a run each extent ends before the next one
starts, so at most one extent of a run contains a given line, and it is the last one that does not
start behind the line.

Extents are placed by ascending first line, wider ones first, each into the run that ends first if
that run ends before the extent starts, and else into a run of its own. No other division into such
runs has fewer of them.

## Main definitions

* `Run` : extents that follow one another.
* `placementLe` : the order in which extents are placed.
* `OpenRun`, `place` : runs while they grow, and how an extent is placed.
* `packRuns` : divides extents into runs, as few as there can be.
* `Run.covering?`, `Run.next?` : what a run has at or after a line.
-/

namespace SymbolHistory

/-- Extents that follow one another. -/
abbrev Run := List Extent

/-- The order in which extents are placed: by first line, on a tie the one that ends later first, on
a further tie by method. -/
def placementLe (a b : Extent) : Bool :=
  if a.minLine = b.minLine then
    if a.maxLine = b.maxLine then a.method.val ≤ b.method.val else b.maxLine < a.maxLine
  else a.minLine < b.minLine

/-- A run while it grows. -/
structure OpenRun where
  /-- The last extent. -/
  last : Extent
  /-- The extents in front of it, backwards. -/
  earlier : List Extent
  deriving DecidableEq, Repr

namespace OpenRun

/-- A run with an extent appended. -/
def push (run : OpenRun) (extent : Extent) : OpenRun :=
  ⟨extent, run.last :: run.earlier⟩

/-- The run from its first extent on. -/
def toRun (run : OpenRun) : Run :=
  (run.last :: run.earlier).reverse

/-- Appends an extent to the first of the runs that end on the line `stop`. -/
def pushTo (stop : UInt32) (extent : Extent) : List OpenRun → List OpenRun
  | [] => []
  | run :: runs =>
    if run.last.maxLine = stop then run.push extent :: runs else run :: pushTo stop extent runs

@[simp] theorem toRun_push (run : OpenRun) (extent : Extent) :
    (run.push extent).toRun = run.toRun ++ [extent] := by
  simp [toRun, push]

end OpenRun

/-- Places an extent: into the run that ends first, if it ends before the extent starts, or else
into a new run. -/
def place (runs : List OpenRun) (extent : Extent) : List OpenRun :=
  match (runs.map (·.last.maxLine)).min? with
  | some stop =>
    if stop < extent.minLine then OpenRun.pushTo stop extent runs else runs ++ [⟨extent, []⟩]
  | none => [⟨extent, []⟩]

/-- Divides extents into runs. -/
def packRuns (extents : List Extent) : List Run :=
  ((extents.mergeSort placementLe).foldl place []).map OpenRun.toRun

namespace Run

/-- The extent of a run that contains a line: the last one that does not start behind it, if that
one reaches so far. -/
def covering? (run : Run) (line : UInt32) : Option Extent :=
  (run.takeWhile (·.minLine ≤ line)).getLast?.filter (·.covers line)

/-- The extent of a run that contains a line, or else the first one that starts behind it. -/
def next? (run : Run) (line : UInt32) : Option Extent :=
  (run.covering? line).or (run.dropWhile (·.minLine ≤ line)).head?

end Run

end SymbolHistory
