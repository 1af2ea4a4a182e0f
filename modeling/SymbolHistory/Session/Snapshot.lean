import SymbolHistory.Session.Generation

/-!
# Snapshots

A snapshot shows a session as it was after one of its generations. What is not known, be it a
document, a method or a line, has an empty answer.

## Main definitions

* `Snapshot` : a session as of one version.
* `Snapshot.findDocument?`, `Snapshot.document?`, `Snapshot.path?` : documents.
* `Snapshot.place?`, `Snapshot.record?`, `Snapshot.points?` : methods.
* `Snapshot.methodsOn`, `Snapshot.offsetsOn` : what is on a line.
* `Snapshot.nextCodeLine?` : the first line from a given one on that code belongs to.
-/

namespace SymbolHistory

/-- A session as of one version. -/
structure Snapshot where
  /-- The generations up to the version. -/
  generations : Array Generation
  /-- What is known with the last of them. -/
  state : State

namespace Snapshot

/-- The version that the snapshot shows. -/
def version (snapshot : Snapshot) : Nat :=
  snapshot.generations.size

/-- The generation with a number, from 1. -/
def generation? (snapshot : Snapshot) (number : Nat) : Option Generation :=
  generationAt? snapshot.generations number

/-- The number of documents. -/
def documentCount (snapshot : Snapshot) : Nat :=
  snapshot.state.documents.size

/-- The number of methods with debug information. -/
def methodCount (snapshot : Snapshot) : Nat :=
  snapshot.state.methods.size

/-- All documents, in the order of their numbers. -/
def documents (snapshot : Snapshot) : List DocumentId :=
  snapshot.state.documents.ids

/-- The document that a path stands for. -/
def findDocument? (snapshot : Snapshot) (path : String) : Option DocumentId :=
  snapshot.state.documents.find? (historyOf snapshot.generations) path

/-- The current version of a document. -/
def document? (snapshot : Snapshot) (id : DocumentId) : Option Document :=
  snapshot.state.documents.document? (historyOf snapshot.generations) id

/-- The path of a document. -/
def path? (snapshot : Snapshot) (id : DocumentId) : Option String :=
  snapshot.state.documents.path? (historyOf snapshot.generations) id

/-- Where the current debug information of a method is. -/
def place? (snapshot : Snapshot) (method : MethodId) : Option MethodPlace :=
  snapshot.state.methods.place? method

/-- The current debug information of a method. -/
def record? (snapshot : Snapshot) (method : MethodId) : Option MethodDebug := do
  let place ← snapshot.place? method
  (← snapshot.generation? place.generation).metadata.method? place.row

/-- By how many lines a method moved since it got its current body. -/
def deltas? (snapshot : Snapshot) (method : MethodId) : Option LineDeltas :=
  snapshot.state.deltas[method]?

/-- The documents that a method has visible points in, ascending. -/
def documentsOf (snapshot : Snapshot) (method : MethodId) : List DocumentId :=
  snapshot.state.lines.documents method

/-- The first and last line of a method in a document. -/
def lines? (snapshot : Snapshot) (method : MethodId) (document : DocumentId) :
    Option (UInt32 × UInt32) :=
  snapshot.state.lines.lines? method document

/-- The methods whose lines in a document include a line, by method, each with the generation that
declared its current version. -/
def methodsOn (snapshot : Snapshot) (document : DocumentId) (line : UInt32) :
    List (MethodId × Nat) :=
  snapshot.state.lines.hits document line

/-- The first method whose lines in a document include a line. -/
def firstMethodOn? (snapshot : Snapshot) (document : DocumentId) (line : UInt32) :
    Option (MethodId × Nat) :=
  snapshot.state.lines.firstHit? document line

/-- Points moved by the deltas of their method, if it has any. -/
def moved (deltas : Option LineDeltas) (points : List SequencePoint) : List SequencePoint :=
  match deltas with
  | some deltas => deltas.apply points
  | none => points

/-- The points of a method where they are now, with their documents. There are none if the method is
unknown, has no line table, or has one that cannot be read. -/
def points? (snapshot : Snapshot) (method : MethodId) :
    Option (List (DocumentId × SequencePoint)) := do
  let place ← snapshot.place? method
  let owner ← snapshot.generation? place.generation
  let record ← owner.metadata.method? place.row
  let _ ← record.lineTable
  let points ← record.points.toOption
  (moved (snapshot.deltas? method) points).mapM fun point => do
    return (← owner.documentId? point.document, point)

/-- Whether a point with its document is on a line of a document. -/
def isOn (document : DocumentId) (line : UInt32) (entry : DocumentId × SequencePoint) : Bool :=
  entry.1 = document && entry.2.covers line

/-- For every method on a line the offset of its first point there, by method. -/
def offsetsOn (snapshot : Snapshot) (document : DocumentId) (line : UInt32) :
    List (MethodId × UInt32) :=
  (snapshot.methodsOn document line).filterMap fun (method, _) => do
    let points ← snapshot.points? method
    let (_, point) ← points.find? (isOn document line)
    return (method, point.codeOffset)

/-- The first line from `line` on that a point in a document covers. -/
def coveredLine? (document : DocumentId) (line : UInt32) (entry : DocumentId × SequencePoint) :
    Option UInt32 :=
  if entry.1 = document then
    match entry.2.range with
    | none => none
    | some range =>
      if range.covers line then some line
      else if line ≤ range.startLine then some range.startLine
      else none
  else none

/-- What one round of the search for the next line with code comes to. -/
inductive Search where
  /-- The line. -/
  | found (line : UInt32)
  /-- There is no such line. -/
  | exhausted
  /-- All extents that were looked at are behind us; the search goes on from here. -/
  | resume (cursor : UInt32)
  deriving DecidableEq, Repr

/-- One round of the search for the next line with code from `line` on. The methods that have
extents at or next after the cursor may have no point there, although their extents say so. -/
def searchFrom (snapshot : Snapshot) (document : DocumentId) (line cursor : UInt32) : Search :=
  let candidates := snapshot.state.lines.nextExtents document cursor
  let lines := candidates.flatMap fun extent =>
    ((snapshot.points? extent.method).getD []).filterMap (coveredLine? document line)
  match lines.min? with
  | some closest => .found closest
  | none =>
    match (candidates.map (·.maxLine)).min? with
    | none => .exhausted
    | some last => if last.toNat + 1 < UInt32.size then .resume (last + 1) else .exhausted

/-- At most `rounds` rounds of the search for the next line with code from `line` on. -/
def searchRounds (snapshot : Snapshot) (document : DocumentId) (line : UInt32) :
    (rounds : Nat) → (cursor : UInt32) → Option UInt32
  | 0, _ => none
  | rounds + 1, cursor =>
    match snapshot.searchFrom document line cursor with
    | .found closest => some closest
    | .exhausted => none
    | .resume next => searchRounds snapshot document line rounds next

/-- The first line from `line` on that has a visible point in a document. Each round of the search
leaves an extent of the document behind, which bounds their number. -/
def nextCodeLine? (snapshot : Snapshot) (document : DocumentId) (line : UInt32) : Option UInt32 :=
  snapshot.searchRounds document line ((snapshot.state.lines.extentsIn document).length + 1) line

/-- A snapshot in a few words. -/
def describe (snapshot : Snapshot) : String :=
  s!"Snapshot \x7b version: {snapshot.version}, documents: {snapshot.documentCount}" ++
    s!", methods: {snapshot.methodCount} \x7d"

end Snapshot

end SymbolHistory
