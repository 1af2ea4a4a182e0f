import SymbolHistory.Session.Generation

/-!
# Moved methods

Methods that move in a document without getting a new body come along with an update as line deltas.
If all points of a method move alike, its extents move with them; if not, they are worked out anew
from the points.

## Main definitions

* `Move` : what the line deltas of a method come to.
* `Move.sumByMethod` : line deltas by method.
* `Move.plan`, `Move.planAll` : check line deltas and work out what they come to.
* `Move.performAll` : moves the extents.
-/

namespace SymbolHistory

/-- How the extents of a method follow its line deltas. -/
inductive Move.Effect where
  /-- All of them move by the same number of lines. -/
  | shift (delta : Int32)
  /-- They are worked out anew, for a method that generation `version` declared. -/
  | reshape (version : Nat) (spans : List Span)
  deriving DecidableEq, Repr

/-- What the line deltas of a method come to. -/
structure Move where
  /-- The method. -/
  method : MethodId
  /-- All deltas of the method since it got its body. -/
  total : LineDeltas
  /-- How its extents follow. -/
  effect : Move.Effect
  deriving DecidableEq, Repr

namespace Move

/-- Adds the deltas of a method to deltas that are ordered by method. -/
def insertDeltas (method : MethodId) (deltas : LineDeltas) :
    List (MethodId × LineDeltas) → List (MethodId × LineDeltas)
  | [] => [(method, deltas)]
  | (other, known) :: rest =>
    if method = other then (other, known + deltas) :: rest
    else if method.val < other.val then (method, deltas) :: (other, known) :: rest
    else (other, known) :: insertDeltas method deltas rest

/-- Line deltas by ascending method, those of the same method added up. -/
def sumByMethod (deltas : List (MethodId × LineDeltas)) : List (MethodId × LineDeltas) :=
  deltas.foldl (fun sums (method, deltas) => insertDeltas method deltas sums) []

/-- Whether deltas can belong to a method with this number of points: if single points have deltas,
then all of them. -/
def fits (deltas : LineDeltas) (pointCount : Nat) : Bool :=
  deltas.single.isEmpty || deltas.single.length == pointCount

/-- Checks the new deltas of a method against its points, and works out what they come to. The
method was declared by generation `version`, which is `owner`. -/
def planPoints (method : MethodId) (version : Nat) (owner : Generation) (known : Option LineDeltas)
    (deltas : LineDeltas) (points : List SequencePoint) : Except Error Move := do
  let total := known.elim deltas (· + deltas)
  if fits deltas points.length then
    match total.strayLine? points with
    | some line => throw (.deltaRange method line)
    | none =>
      if deltas.isUniform then
        return ⟨method, total, .shift deltas.common⟩
      else
        let spans ← Span.ofPoints owner.documentId? (total.apply points)
        return ⟨method, total, .reshape version spans⟩
  else
    throw (.deltaCount method points.length deltas.single.length)

/-- Checks the new deltas of a method and works out what they come to. -/
def plan (generations : Array Generation) (state : State) (method : MethodId)
    (deltas : LineDeltas) : Except Error Move := do
  match state.methods.place? method with
  | none => throw (.unknownMethod method)
  | some place =>
    let owner ← generationOf generations place.generation
    match owner.metadata.method? place.row with
    | none => throw (.malformed (.missingMethodRow method place.row))
    | some record =>
      planPoints method place.generation owner state.deltas[method]? deltas (← record.points)

/-- Checks line deltas and works out what they come to, method by method. Deltas of a method that
gets a new body in the same update are left out. -/
def planAll (generations : Array Generation) (state : State) (redefined : Std.HashSet MethodId)
    (deltas : List (MethodId × LineDeltas)) : Except Error (List Move) :=
  ((sumByMethod deltas).filter fun (method, _) => !redefined.contains method).mapM
    fun (method, deltas) => plan generations state method deltas

/-- The shifts of extents that a move consists of, if all extents move alike. -/
def shifts (lines : LineIndex) (move : Move) : List (DocumentId × MethodId × Int32) :=
  match move.effect with
  | .shift delta => (lines.documents move.method).map fun document => (document, move.method, delta)
  | .reshape .. => []

/-- The new spans of a method whose extents are worked out anew. -/
def newSpans? (move : Move) : Option MethodSpans :=
  match move.effect with
  | .shift _ => none
  | .reshape version spans => some ⟨move.method, version, spans⟩

/-- Makes moves: extents that move alike first, then those that are worked out anew. -/
def performAll (lines : LineIndex) (moves : List Move) : LineIndex :=
  (lines.shiftAll (moves.flatMap (shifts lines))).replaceAll (moves.filterMap newSpans?)

end Move

end SymbolHistory
