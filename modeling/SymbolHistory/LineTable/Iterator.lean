import SymbolHistory.LineTable.Decode

/-!
# Points one at a time

The points of a stored line table can be asked for one after the other, so that what stands in front
of a damaged record is not lost.

## Main definitions

* `LineTable.Iterator` : a line table whose points are asked for one after the other.
* `LineTable.Iterator.next` : asks for the next point.
* `LineTable.Iterator.answer` : what is answered when points are asked for again and again.
* `LineTable.readAll` : all points, or the first failure.
-/

namespace SymbolHistory.LineTable

open Bytes

/-- A line table whose points are asked for one after the other. -/
structure Iterator where
  /-- What stands in front of the points. -/
  header : Header
  /-- What the next record is relative to. -/
  context : Context
  /-- The bytes from the next record on. -/
  rest : List UInt8
  /-- Whether a record could not be read. -/
  failed : Bool
  deriving DecidableEq, Repr

namespace Iterator

/-- Reads the header. The first record comes next. -/
def ofBytes (bytes : List UInt8) (column : Option UInt32) : Except Error Iterator := do
  let (header, rest) ← readHeader column bytes
  return ⟨header, .initial header.initialDocument, rest, false⟩

/-- Asks for the next point. The answer is the point, or why its record cannot be read. Nothing is
answered behind the last record, and nothing behind a failure. -/
def next (iterator : Iterator) : Option (Except Error SequencePoint) × Iterator :=
  if iterator.failed || iterator.rest.isEmpty then (none, iterator)
  else
    match readPoint iterator.context iterator.rest with
    | .error e => (some (.error e), { iterator with failed := true })
    | .ok (point, rest) =>
      (some (.ok point), { iterator with context := iterator.context.after point, rest })

/-- What is answered when points are asked for again and again, by the number of the question,
from 0. -/
def answer (iterator : Iterator) : Nat → Option (Except Error SequencePoint)
  | 0 => iterator.next.1
  | question + 1 => iterator.next.2.answer question

/-- Behind the last record there is nothing. -/
theorem next_of_isEmpty {iterator : Iterator} (h : iterator.failed ∨ iterator.rest = []) :
    iterator.next = (none, iterator) := by
  rw [next, if_pos (by simpa using h)]

/-- A record that cannot be read is the last answer. -/
theorem next_of_error {iterator : Iterator} {e : Error} (live : iterator.failed = false)
    (some : iterator.rest ≠ []) (h : readPoint iterator.context iterator.rest = .error e) :
    iterator.next = (Option.some (.error e), { iterator with failed := true }) := by
  rw [next, if_neg (by simp [live, some]), h]

/-- A record that can be read is answered, and the one behind it comes next. -/
theorem next_of_ok {iterator : Iterator} {point : SequencePoint} {rest : List UInt8}
    (live : iterator.failed = false) (some : iterator.rest ≠ [])
    (h : readPoint iterator.context iterator.rest = .ok (point, rest)) :
    iterator.next = (Option.some (.ok point),
      { iterator with context := iterator.context.after point, rest }) := by
  rw [next, if_neg (by simp [live, some]), h]

/-- A point that is answered leaves fewer bytes. -/
theorem length_rest_lt {iterator later : Iterator} {point : SequencePoint}
    (h : iterator.next = (some (.ok point), later)) : later.rest.length < iterator.rest.length := by
  unfold next at h
  split at h
  · cases h
  · split at h
    · cases h
    · next point' rest read =>
      have consumed := consumes_readPoint _ _ _ _ read
      cases h
      change rest.length < _
      omega

/-- All points that are left, or the first failure. -/
def collect (iterator : Iterator) : Except Error (List SequencePoint) :=
  match h : iterator.next with
  | (none, _) => .ok []
  | (some (.error e), _) => .error e
  | (some (.ok point), later) =>
    have : later.rest.length < iterator.rest.length := length_rest_lt h
    (point :: ·) <$> later.collect
termination_by iterator.rest.length
decreasing_by exact this

end Iterator

/-- All points of a stored line table, or the first failure. -/
def readAll (bytes : List UInt8) (column : Option UInt32) : Except Error (List SequencePoint) := do
  let iterator ← Iterator.ofBytes bytes column
  iterator.collect

end SymbolHistory.LineTable
