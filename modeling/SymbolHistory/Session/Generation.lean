import SymbolHistory.DocumentRegistry
import SymbolHistory.MethodRegistry
import SymbolHistory.LineIndex.Basic
import SymbolHistory.LineDeltas

/-!
# Generations

A generation is the metadata of the first symbols or of one update, together with all that is known
once it is applied.

## Main definitions

* `State` : what is known at some point.
* `Generation` : a generation, with the identities of its rows.
* `generationAt?`, `generationOf` : generations by number.
* `historyOf` : the metadata of generations by number.
-/

namespace SymbolHistory

/-- What is known at some point of a session. -/
structure State where
  /-- The documents. -/
  documents : DocumentRegistry
  /-- The methods. -/
  methods : MethodRegistry
  /-- The lines of the methods. -/
  lines : LineIndex
  /-- By how many lines methods moved since they got their current body. -/
  deltas : Std.HashMap MethodId LineDeltas

namespace State

/-- Nothing is known. -/
def empty : State :=
  ⟨.empty, .empty, .empty, ∅⟩

end State

/-- The first symbols or an update, once it is applied. -/
structure Generation where
  /-- The number, from 1. -/
  number : Nat
  /-- What it brought. -/
  metadata : Metadata
  /-- How many documents were known before. -/
  documentsBefore : Nat
  /-- The documents that its rows are. -/
  documentIds : Std.HashMap UInt32 DocumentId
  /-- The methods that its rows belong to. -/
  methodIds : Std.HashMap UInt32 MethodId
  /-- What is known with it. -/
  state : State

namespace Generation

/-- Whether this is the first generation. -/
def isFirst (generation : Generation) : Bool :=
  generation.number == 1

/-- The document that a row is. -/
def documentId? (generation : Generation) (row : UInt32) : Option DocumentId :=
  generation.documentIds[row]?

/-- The method that a row belongs to. -/
def methodId? (generation : Generation) (row : UInt32) : Option MethodId :=
  generation.methodIds[row]?

end Generation

/-- The generation with a number, from 1. -/
def generationAt? (generations : Array Generation) (number : Nat) : Option Generation :=
  if number = 0 then none else generations[number - 1]?

/-- The generation with a number, which has to be there. -/
def generationOf (generations : Array Generation) (number : Nat) : Except Error Generation :=
  match generationAt? generations number with
  | some generation => .ok generation
  | none => .error (.unknownGeneration number)

/-- The metadata of each generation by number. -/
def historyOf (generations : Array Generation) (number : Nat) : Option Metadata :=
  (generationAt? generations number).map (·.metadata)

end SymbolHistory
