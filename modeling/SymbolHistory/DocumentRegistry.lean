import SymbolHistory.Metadata.Basic
import SymbolHistory.Text.Lowercase
import SymbolHistory.Text.Path

/-!
# Document identities

Each path keeps one identity through all generations. A generation that declares a known path again
takes the document over; a new path gets the next number. Documents are grouped by file name without
regard to case, so that a path can be looked up that is spelled differently or stands elsewhere.

The paths themselves are not kept. They are read from the generation that owns the document, for
which the operations are given the `history`: the metadata of each generation by number.

## Main definitions

* `DocumentRegistry` : the identities, and where each document is.
* `DocumentRegistry.update` : takes in the documents of a generation.
* `DocumentRegistry.find?` : the identity of a path.
-/

namespace SymbolHistory

/-- Where the current version of a document is. -/
structure DocumentPlace where
  /-- The document row in the generation that owns the document. -/
  row : UInt32
  /-- The generation that owns the document. -/
  generation : Nat
  /-- The last component of the path. -/
  fileName : String
  deriving DecidableEq, Repr

/-- Document identities. -/
structure DocumentRegistry where
  /-- The place of each document, by number. -/
  places : Array DocumentPlace
  /-- The documents of each file name, which is in lower case, in the order of their numbers. -/
  groups : Std.HashMap String (List DocumentId)

namespace DocumentRegistry

/-- No document is known. -/
def empty : DocumentRegistry :=
  ⟨#[], ∅⟩

/-- The number of documents. -/
def size (registry : DocumentRegistry) : Nat :=
  registry.places.size

/-- All identities, in order. -/
def ids (registry : DocumentRegistry) : List DocumentId :=
  (List.range registry.size).map fun i => ⟨i + 1⟩

/-- Where the current version of a document is. -/
def place? (registry : DocumentRegistry) (id : DocumentId) : Option DocumentPlace :=
  if id.val = 0 then none else registry.places[id.val - 1]?

/-- The current version of a document. -/
def document? (registry : DocumentRegistry) (history : Nat → Option Metadata) (id : DocumentId) :
    Option Document := do
  let place ← registry.place? id
  (← history place.generation).document? place.row

/-- The path of a document. -/
def path? (registry : DocumentRegistry) (history : Nat → Option Metadata) (id : DocumentId) :
    Option String :=
  (registry.document? history id).map (·.name)

/-- The file name of a path in lower case, which is what documents are grouped by. -/
def groupKey (path : String) : String :=
  Text.lowercase (Text.fileName path)

/-- The documents with the file name of a path. -/
def group? (registry : DocumentRegistry) (path : String) : Option (List DocumentId) :=
  registry.groups[groupKey path]?

/-- Adds a document under the next number. -/
def add (registry : DocumentRegistry) (path : String) (place : DocumentPlace) :
    DocumentRegistry × DocumentId :=
  let ⟨places, groups⟩ := registry
  let id : DocumentId := ⟨places.size + 1⟩
  let key := groupKey path
  (⟨places.push place, groups.insert key (groups.getD key [] ++ [id])⟩, id)

/-- Changes where the current version of a document is. -/
def move (registry : DocumentRegistry) (id : DocumentId) (place : DocumentPlace) :
    DocumentRegistry :=
  let ⟨places, groups⟩ := registry
  ⟨places.setIfInBounds (id.val - 1) place, groups⟩

/-- Takes in a document that `generation` declares. -/
def declare (generation : Nat) (history : Nat → Option Metadata) (registry : DocumentRegistry)
    (document : Document) : Except Error (DocumentRegistry × DocumentId) :=
  let place := ⟨document.rid, generation, Text.fileName document.name⟩
  let group := (registry.group? document.name).getD []
  match group.find? fun id => registry.path? history id = some document.name with
  | some id =>
    if (registry.place? id).map (·.generation) = some generation then
      .error (.identityConflict (.documentTwice document.name generation))
    else
      .ok (registry.move id place, id)
  | none => .ok (registry.add document.name place)

/-- The history with one more generation, or with other metadata for a generation. -/
def withGeneration (history : Nat → Option Metadata) (generation : Nat) (metadata : Metadata) :
    Nat → Option Metadata :=
  fun number => if number = generation then some metadata else history number

/-- The identities, and those of the rows that are taken in so far. -/
abbrev Progress := DocumentRegistry × Std.HashMap UInt32 DocumentId

/-- Takes in the next document that `generation` declares. -/
def declareNext (generation : Nat) (history : Nat → Option Metadata) (progress : Progress)
    (document : Document) : Except Error Progress := do
  let (registry, ids) := progress
  let (registry, id) ← declare generation history registry document
  return (registry, ids.insert document.rid id)

/-- Takes in the documents of a generation. Also says which documents its rows are. -/
def update (registry : DocumentRegistry) (metadata : Metadata) (generation : Nat)
    (history : Nat → Option Metadata) : Except Error Progress :=
  metadata.documents.toList.foldlM
    (declareNext generation (withGeneration history generation metadata)) (registry, ∅)

/-- The smallest of some identities. -/
def smallest? (ids : List DocumentId) : Option DocumentId :=
  (ids.map (·.val)).min?.map DocumentId.mk

/-- The identity of a path, among the documents with its file name. If there are several, the first
of these rules that finds one decides: the path is the same; the path is the same but for case; the
file name is the same; the number is the smallest. -/
def find? (registry : DocumentRegistry) (history : Nat → Option Metadata) (path : String) :
    Option DocumentId :=
  match registry.group? path with
  | none => none
  | some [only] => some only
  | some group =>
    let folded := Text.lowercase path
    let name := Text.fileName path
    (group.find? fun id => registry.path? history id = some path)
      <|> (group.find? fun id => (registry.path? history id).any fun other =>
        Text.lowercase other = folded)
      <|> (group.find? fun id => (registry.place? id).any fun place => place.fileName = name)
      <|> smallest? group

/-- Adding a document makes one more. -/
theorem size_add (registry : DocumentRegistry) (path : String) (place : DocumentPlace) :
    (registry.add path place).1.size = registry.size + 1 := by
  simp [add, size]

/-- Moving a document keeps their number. -/
theorem size_move (registry : DocumentRegistry) (id : DocumentId) (place : DocumentPlace) :
    (registry.move id place).size = registry.size := by
  simp [move, size]

end DocumentRegistry

end SymbolHistory
