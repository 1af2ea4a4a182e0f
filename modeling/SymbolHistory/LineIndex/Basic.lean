import SymbolHistory.Extent.Run
import SymbolHistory.Metadata.Basic
import SymbolHistory.Parallel
import Std.Data.HashMap

/-!
# The line index

The index knows the extents in every document and the documents of every method. Questions about
lines go to the runs that the extents in a document are divided into. An index remembers the runs of
a document once it is told to, and forgets them when extents in the document change.

## Main definitions

* `LineIndex` : the index, with `LineIndex.extentsIn`, `LineIndex.documents`, `LineIndex.lines?`.
* `LineIndex.replace`, `LineIndex.replaceAll` : give methods new spans.
* `LineIndex.shift`, `LineIndex.shiftAll` : move methods in documents.
* `LineIndex.runs`, `LineIndex.remember` : the runs of a document.
* `LineIndex.hits`, `LineIndex.firstHit?`, `LineIndex.nextExtents` : what is on or after a line.
* `MethodSpans` : the new spans of a method, with `MethodSpans.ofMetadata` for a whole generation.
-/

namespace SymbolHistory

/-- All spans of one version of a method. -/
structure MethodSpans where
  /-- The method. -/
  method : MethodId
  /-- The generation that declared this version of the method. -/
  version : Nat
  /-- The spans. -/
  spans : List Span
  deriving DecidableEq, Repr

namespace MethodSpans

/-- The spans of the method that a record belongs to. -/
def ofRecord (generation : Nat) (documentOf : UInt32 → Option DocumentId)
    (methodOf : UInt32 → Option MethodId) (record : MethodDebug) : Except Error MethodSpans := do
  match methodOf record.rid with
  | none => throw (.malformed (.rowWithoutMethod record.rid))
  | some method =>
    let points ← record.points
    return ⟨method, generation, ← Span.ofPoints documentOf points⟩

/-- The spans of all methods of a generation, by row. A method without points has none, and so loses
the ones that it had. Rows are worked on in parallel, with row `lead` ahead of the others, so the
error can be that of any row that fails. -/
def ofMetadata (lead : Nat) (metadata : Metadata) (generation : Nat)
    (documentOf : UInt32 → Option DocumentId) (methodOf : UInt32 → Option MethodId) :
    Except Error (List MethodSpans) :=
  mapParallel lead (ofRecord generation documentOf methodOf) metadata.methods.toList

end MethodSpans

/-- The extents of methods, by document. -/
structure LineIndex where
  /-- The extents in each document, in the order in which they came. -/
  byDocument : Std.HashMap DocumentId (List Extent)
  /-- The documents of each method, ascending. -/
  byMethod : Std.HashMap MethodId (List DocumentId)
  /-- The runs that are remembered. -/
  remembered : Std.HashMap DocumentId (List Run)

namespace LineIndex

/-- The index without extents. -/
def empty : LineIndex :=
  ⟨∅, ∅, ∅⟩

/-- The extents in a document, in the order in which they came. -/
def extentsIn (index : LineIndex) (document : DocumentId) : List Extent :=
  index.byDocument.getD document []

/-- The documents that a method has extents in, ascending. -/
def documents (index : LineIndex) (method : MethodId) : List DocumentId :=
  index.byMethod.getD method []

/-- The first and last line of a method in a document. -/
def lines? (index : LineIndex) (method : MethodId) (document : DocumentId) :
    Option (UInt32 × UInt32) :=
  ((index.extentsIn document).find? (·.method = method)).map fun extent =>
    (extent.minLine, extent.maxLine)

/-- Gives a document these extents and forgets its runs. -/
def setExtents (index : LineIndex) (document : DocumentId) (extents : List Extent) : LineIndex :=
  let ⟨byDocument, byMethod, remembered⟩ := index
  ⟨if extents.isEmpty then byDocument.erase document else byDocument.insert document extents,
    byMethod, remembered.erase document⟩

/-- Gives a method these documents. -/
def setDocuments (index : LineIndex) (method : MethodId) (documents : List DocumentId) :
    LineIndex :=
  let ⟨byDocument, byMethod, remembered⟩ := index
  ⟨byDocument,
    if documents.isEmpty then byMethod.erase method else byMethod.insert method documents,
    remembered⟩

/-- Removes the extents of a method from a document. -/
def eraseFrom (method : MethodId) (index : LineIndex) (document : DocumentId) : LineIndex :=
  index.setExtents document ((index.extentsIn document).filter (·.method ≠ method))

/-- Adds the extent of a method that a span stands for. -/
def addSpan (method : MethodId) (version : Nat) (index : LineIndex) (span : Span) : LineIndex :=
  index.setExtents span.document
    (index.extentsIn span.document ++ [⟨method, version, span.minLine, span.maxLine⟩])

/-- The documents of spans, each once, ascending. -/
def documentsOfSpans (spans : List Span) : List DocumentId :=
  ((spans.map (·.document)).eraseDups).mergeSort fun a b => a.val ≤ b.val

/-- Gives a method the extents that these spans stand for, in place of the ones that it has. -/
def replace (index : LineIndex) (method : MethodId) (version : Nat) (spans : List Span) :
    LineIndex :=
  let cleared := (index.documents method).foldl (eraseFrom method) index
  (spans.foldl (addSpan method version) cleared).setDocuments method (documentsOfSpans spans)

/-- Gives each of these methods its new extents. -/
def replaceAll (index : LineIndex) (methods : List MethodSpans) : LineIndex :=
  methods.foldl (fun index new => index.replace new.method new.version new.spans) index

/-- Moves the extents of a method in a document. -/
def shift (index : LineIndex) (document : DocumentId) (method : MethodId) (delta : Int32) :
    LineIndex :=
  index.setExtents document <| (index.extentsIn document).map fun extent =>
    if extent.method = method then extent.shift delta else extent

/-- Makes these moves, one after the other. -/
def shiftAll (index : LineIndex) (moves : List (DocumentId × MethodId × Int32)) : LineIndex :=
  moves.foldl (fun index (document, method, delta) => index.shift document method delta) index

/-- The extents in a document, divided into runs. -/
def runs (index : LineIndex) (document : DocumentId) : List Run :=
  match index.remembered[document]? with
  | some runs => runs
  | none => packRuns (index.extentsIn document)

/-- Remembers the runs of a document. -/
def remember (index : LineIndex) (document : DocumentId) : LineIndex :=
  { index with remembered := index.remembered.insert document (index.runs document) }

/-- The order of methods by number, and then by version. -/
def hitLe (a b : MethodId × Nat) : Bool :=
  if a.1 = b.1 then a.2 ≤ b.2 else a.1.val ≤ b.1.val

/-- The methods whose extents in a document cover a line, with their versions, by method. -/
def hits (index : LineIndex) (document : DocumentId) (line : UInt32) : List (MethodId × Nat) :=
  ((index.runs document).filterMap fun run =>
    (run.covering? line).map fun extent => (extent.method, extent.version)).mergeSort hitLe

/-- The first method whose extent in a document covers a line. -/
def firstHit? (index : LineIndex) (document : DocumentId) (line : UInt32) :
    Option (MethodId × Nat) :=
  (index.hits document line).head?

/-- The order of extents by first line, and then by method. -/
def startLe (a b : Extent) : Bool :=
  if a.minLine = b.minLine then a.method.val ≤ b.method.val else a.minLine ≤ b.minLine

/-- From each run of a document the extent that covers a line, or else the next one behind the line,
by first line. -/
def nextExtents (index : LineIndex) (document : DocumentId) (line : UInt32) : List Extent :=
  ((index.runs document).filterMap (·.next? line)).mergeSort startLe

/-- A document has the extents that it was given last. -/
theorem extentsIn_setExtents (index : LineIndex) (document other : DocumentId)
    (extents : List Extent) :
    (index.setExtents document extents).extentsIn other =
      if document = other then extents else index.extentsIn other := by
  rcases extents with _ | ⟨extent, extents⟩
  · simp [setExtents, extentsIn, Std.HashMap.getD_erase]
  · simp [setExtents, extentsIn, Std.HashMap.getD_insert]

/-- A method has the documents that it was given last. -/
theorem documents_setDocuments (index : LineIndex) (method other : MethodId)
    (documents : List DocumentId) :
    (index.setDocuments method documents).documents other =
      if method = other then documents else index.documents other := by
  rcases documents with _ | ⟨document, documents⟩
  · simp [setDocuments, LineIndex.documents, Std.HashMap.getD_erase]
  · simp [setDocuments, LineIndex.documents, Std.HashMap.getD_insert]

@[simp] theorem documents_setExtents (index : LineIndex) (document : DocumentId)
    (extents : List Extent) (method : MethodId) :
    (index.setExtents document extents).documents method = index.documents method := rfl

@[simp] theorem extentsIn_setDocuments (index : LineIndex) (method : MethodId)
    (documents : List DocumentId) (document : DocumentId) :
    (index.setDocuments method documents).extentsIn document = index.extentsIn document := rfl

/-- Remembering changes no runs. -/
@[simp] theorem runs_remember (index : LineIndex) (document other : DocumentId) :
    (index.remember document).runs other = index.runs other := by
  by_cases h : document = other
  · subst h
    simp [remember, runs]
  · simp [remember, runs, extentsIn, Std.HashMap.getElem?_insert, h]

end LineIndex

end SymbolHistory
