import SymbolHistory.LineIndex.Basic

/-!
# Changes of the line index

What happens to an index, as data. Remembering runs happens too, at any time. The runs that an index
remembers are right as long as they are forgotten where extents change, so an index answers as one
that remembers nothing.

## Main definitions

* `LineIndex.Change` : one thing that happens to an index.
* `LineIndex.perform`, `LineIndex.ofChanges` : the index after changes.
* `LineIndex.Faithful` : what an index remembers is right.

## Main results

* `LineIndex.faithful_ofChanges` : whatever happens to an index, what it remembers is right.
* `LineIndex.Faithful.runs_eq` : then its runs are those of its extents.
-/

namespace SymbolHistory.LineIndex

/-- One thing that happens to an index. -/
inductive Change where
  /-- Methods get new extents, one method after the other. -/
  | replace (methods : List MethodSpans)
  /-- Methods move in documents, one move after the other. -/
  | shift (moves : List (DocumentId × MethodId × Int32))
  /-- The runs of a document are remembered. -/
  | remember (document : DocumentId)
  deriving DecidableEq, Repr

/-- The index after a change. -/
def perform (index : LineIndex) : Change → LineIndex
  | .replace methods => index.replaceAll methods
  | .shift moves => index.shiftAll moves
  | .remember document => index.remember document

/-- The index after changes, from the empty one on. -/
def ofChanges (changes : List Change) : LineIndex :=
  changes.foldl perform empty

/-- The runs that an index remembers are those of its extents. -/
def Faithful (index : LineIndex) : Prop :=
  ∀ document runs, index.remembered[document]? = some runs →
    runs = packRuns (index.extentsIn document)

/-- The runs of a faithful index are those of its extents. -/
theorem Faithful.runs_eq {index : LineIndex} (h : index.Faithful) (document : DocumentId) :
    index.runs document = packRuns (index.extentsIn document) := by
  unfold runs
  split
  · exact h _ _ (by assumption)
  · rfl

/-- The empty index remembers nothing. -/
theorem faithful_empty : empty.Faithful := by
  intro document runs h
  simp [empty] at h

/-- Other extents of a document come without the runs that were remembered for it. -/
theorem Faithful.setExtents {index : LineIndex} (h : index.Faithful) (document : DocumentId)
    (extents : List Extent) : (index.setExtents document extents).Faithful := by
  intro other runs eq
  have eq : (index.remembered.erase document)[other]? = some runs := eq
  rw [Std.HashMap.getElem?_erase] at eq
  by_cases same : document = other
  · simp [same] at eq
  · rw [extentsIn_setExtents, if_neg same]
    exact h other runs (by simpa [same] using eq)

/-- The documents of a method do not matter to runs. -/
theorem Faithful.setDocuments {index : LineIndex} (h : index.Faithful) (method : MethodId)
    (documents : List DocumentId) : (index.setDocuments method documents).Faithful := by
  intro document runs eq
  rw [extentsIn_setDocuments]
  exact h document runs eq

/-- What is remembered in addition is right at that time. -/
theorem Faithful.remember {index : LineIndex} (h : index.Faithful) (document : DocumentId) :
    (index.remember document).Faithful := by
  intro other runs eq
  have eq : (index.remembered.insert document (index.runs document))[other]? = some runs := eq
  change runs = packRuns (index.extentsIn other)
  rw [Std.HashMap.getElem?_insert] at eq
  by_cases same : document = other
  · subst same
    simpa [h.runs_eq] using eq.symm
  · exact h other runs (by simpa [same] using eq)

/-- Replacing the spans of a method goes through `setExtents`, document by document. -/
theorem Faithful.replace {index : LineIndex} (h : index.Faithful) (method : MethodId)
    (version : Nat) (spans : List Span) : (index.replace method version spans).Faithful := by
  refine Faithful.setDocuments ?_ _ _
  refine List.foldlRecOn spans _ ?_ fun _ h span _ => h.setExtents _ _
  exact List.foldlRecOn _ _ h fun _ h document _ => h.setExtents _ _

/-- No change makes what is remembered wrong. -/
theorem Faithful.perform {index : LineIndex} (h : index.Faithful) (change : Change) :
    (index.perform change).Faithful := by
  cases change with
  | replace methods => exact List.foldlRecOn methods _ h fun _ h new _ => h.replace _ _ _
  | shift moves => exact List.foldlRecOn moves _ h fun _ h move _ => h.setExtents _ _
  | remember document => exact h.remember document

/-- Whatever happens to an index, what it remembers is right. -/
theorem faithful_ofChanges (changes : List Change) : (ofChanges changes).Faithful :=
  List.foldlRecOn changes perform faithful_empty fun _ h change _ => h.perform change

end SymbolHistory.LineIndex
