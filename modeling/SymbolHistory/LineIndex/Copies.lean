import SymbolHistory.LineIndex.Change

/-!
# Copies of the line index

An index can be copied, and the copies then change and are asked on their own. A copy takes along
what the index remembers, and whoever asks about a document leaves the runs of it remembered. So
copies that say the same may remember different things.

## Main definitions

* `LineIndex.Question`, `LineIndex.Answer`, `LineIndex.answer` : what an index is asked.
* `LineIndex.Operation` : one thing that happens to copies.
* `LineIndex.operate`, `LineIndex.ofOperations` : the copies after operations.
* `LineIndex.record`, `LineIndex.historiesOf` : the changes that each copy went through.
-/

namespace SymbolHistory.LineIndex

/-- What an index is asked about a document. -/
inductive Question where
  /-- How its extents are divided into runs. -/
  | runs (document : DocumentId)
  /-- Which methods are on a line. -/
  | hits (document : DocumentId) (line : UInt32)
  /-- Which method is the first one on a line. -/
  | firstHit (document : DocumentId) (line : UInt32)
  /-- Which extents of the runs are on a line or next after it. -/
  | nextExtents (document : DocumentId) (line : UInt32)
  deriving DecidableEq, Repr

/-- The document that a question is about. -/
def Question.document : Question → DocumentId
  | .runs document => document
  | .hits document _ => document
  | .firstHit document _ => document
  | .nextExtents document _ => document

/-- What an index answers. -/
inductive Answer where
  /-- Runs. -/
  | runs (runs : List Run)
  /-- Methods with their versions. -/
  | hits (hits : List (MethodId × Nat))
  /-- A method with its version, or none. -/
  | firstHit (hit : Option (MethodId × Nat))
  /-- Extents. -/
  | extents (extents : List Extent)
  deriving DecidableEq, Repr

/-- The answer of an index. -/
def answer (index : LineIndex) : Question → Answer
  | .runs document => .runs (index.runs document)
  | .hits document line => .hits (index.hits document line)
  | .firstHit document line => .firstHit (index.firstHit? document line)
  | .nextExtents document line => .extents (index.nextExtents document line)

/-- One thing that happens to copies of an index, which are numbered in the order in which they were
made. -/
inductive Operation where
  /-- An empty index is made. -/
  | create
  /-- A copy is made of a copy. -/
  | clone (copy : Nat)
  /-- In a copy, methods get new extents, one method after the other. -/
  | replace (copy : Nat) (methods : List MethodSpans)
  /-- In a copy, methods move in documents, one move after the other. -/
  | shift (copy : Nat) (moves : List (DocumentId × MethodId × Int32))
  /-- A copy is asked, and remembers the runs of the document. -/
  | ask (copy : Nat) (question : Question)
  deriving DecidableEq, Repr

/-- The copies after an operation. If it is about a copy that is not there, nothing happens. -/
def operate (copies : List LineIndex) : Operation → List LineIndex
  | .create => copies ++ [empty]
  | .clone copy => copies ++ copies[copy]?.toList
  | .replace copy methods => copies.modify copy (·.replaceAll methods)
  | .shift copy moves => copies.modify copy (·.shiftAll moves)
  | .ask copy question => copies.modify copy (·.remember question.document)

/-- The copies after operations, from none on. -/
def ofOperations (operations : List Operation) : List LineIndex :=
  operations.foldl operate []

/-- The changes that each copy went through after an operation. A copy starts with the changes of
what it is copied from, and questions are not noted. -/
def record (histories : List (List Change)) : Operation → List (List Change)
  | .create => histories ++ [[]]
  | .clone copy => histories ++ histories[copy]?.toList
  | .replace copy methods => histories.modify copy (· ++ [.replace methods])
  | .shift copy moves => histories.modify copy (· ++ [.shift moves])
  | .ask _ _ => histories

/-- The changes that each copy went through after operations. -/
def historiesOf (operations : List Operation) : List (List Change) :=
  operations.foldl record []

/-- Whether an operation changes the extents of a copy. -/
def Operation.Updates (operation : Operation) (copy : Nat) : Prop :=
  (∃ methods, operation = .replace copy methods) ∨ ∃ moves, operation = .shift copy moves

end SymbolHistory.LineIndex
