import SymbolHistory.Proofs.Extent.Span
import Mathlib.Order.Bounds.Basic

/-!
# Spans are a summary of visible points

What is worked out from points one by one can be said without an order: there is one span for each
document that a visible point is in, and it goes from the least line to the greatest one. Only one
list of spans by ascending document is such a summary, so nothing else about the points matters,
neither their order nor what is hidden between them.

## Main definitions

* `Span.Shows` : points show a range in a document.
* `Span.Summarizes` : spans are a summary of points.

## Main results

* `Span.Summarizes.unique` : points have one summary only.
* `Span.ofPoints_eq_ok_iff_summarizes` : it is what comes out if all visible points have documents.
* `Span.spans_summarize_points` : when spans come out, which ones, and what does not matter to them.
-/

namespace SymbolHistory.Span

variable {documentOf : UInt32 → Option DocumentId} {points others : List SequencePoint}
  {spans : List Span} {document : DocumentId} {range : SourceRange}

/-- A visible point among `points` has this range, in a row that stands for this document. -/
def Shows (documentOf : UInt32 → Option DocumentId) (points : List SequencePoint)
    (document : DocumentId) (range : SourceRange) : Prop :=
  ∃ point ∈ points, point.range = some range ∧ documentOf point.document = some document

/-- Spans that are a summary of points. -/
structure Summarizes (documentOf : UInt32 → Option DocumentId) (points : List SequencePoint)
    (spans : List Span) : Prop where
  /-- They are sorted by document, and no document has two. -/
  ascending : spans.Pairwise (·.document.val < ·.document.val)
  /-- They are in the documents of visible points. -/
  mem_documents_iff : ∀ document, document ∈ spans.map (·.document) ↔
    ∃ range, Shows documentOf points document range
  /-- They start on the least line of the visible points in their document. -/
  minLine : ∀ span ∈ spans,
    IsLeast {line | ∃ range, Shows documentOf points span.document range ∧ range.startLine = line}
      span.minLine
  /-- They end on the greatest one. -/
  maxLine : ∀ span ∈ spans,
    IsGreatest {line | ∃ range, Shows documentOf points span.document range ∧ range.endLine = line}
      span.maxLine

/-! ### One summary only -/

/-- A span of a summary is in any other summary of the same points. -/
theorem Summarizes.mem (h : Summarizes documentOf points spans) {other : List Span}
    (h' : Summarizes documentOf points other) {span : Span} (mem : span ∈ spans) :
    span ∈ other := by
  have shown := (h.mem_documents_iff span.document).1 (List.mem_map_of_mem mem)
  obtain ⟨same, same_mem, eq⟩ := List.mem_map.1 ((h'.mem_documents_iff _).2 shown)
  have least := h'.minLine same same_mem
  have greatest := h'.maxLine same same_mem
  rw [eq] at least greatest
  obtain ⟨document, minLine, maxLine⟩ := span
  obtain ⟨_, first, last⟩ := same
  obtain rfl : _ = document := eq
  obtain rfl : first = minLine := UInt32.le_antisymm (least.2 (h.minLine _ mem).1)
    ((h.minLine _ mem).2 least.1)
  obtain rfl : last = maxLine := UInt32.le_antisymm ((h.maxLine _ mem).2 greatest.1)
    (greatest.2 (h.maxLine _ mem).1)
  exact same_mem

/-- **Points have one summary only.** -/
theorem Summarizes.unique {other : List Span} (h : Summarizes documentOf points spans)
    (h' : Summarizes documentOf points other) : spans = other := by
  have distinct : ∀ {spans : List Span}, Summarizes documentOf points spans → spans.Nodup :=
    fun h => h.ascending.imp fun lt eq => absurd (congrArg (·.document.val) eq) (Nat.ne_of_lt lt)
  have perm : spans.Perm other := (List.perm_ext_iff_of_nodup (distinct h) (distinct h')).2
    fun span => ⟨h.mem h', h'.mem h⟩
  refine perm.eq_of_pairwise ?_ h.ascending h'.ascending
  intro a b _ _ lt gt
  exact absurd (Nat.lt_trans lt gt) (Nat.lt_irrefl _)

/-! ### What comes out -/

/-- Resolved ranges are those that points show. -/
theorem mem_of_resolveRanges_iff {ranges : List (DocumentId × SourceRange)}
    (h : resolveRanges documentOf (SequencePoint.visibleRanges points) = some ranges) :
    (document, range) ∈ ranges ↔ Shows documentOf points document range := by
  rw [mem_resolveRanges_iff h]
  constructor
  · rintro ⟨row, mem, known⟩
    obtain ⟨point, point_mem, eq⟩ := List.mem_filterMap.1 mem
    obtain ⟨_, visible, eq⟩ := Option.map_eq_some_iff.1 eq
    obtain ⟨rfl, rfl⟩ := Prod.mk.inj eq
    exact ⟨point, point_mem, visible, known⟩
  · rintro ⟨point, point_mem, visible, known⟩
    refine ⟨point.document, List.mem_filterMap.2 ⟨point, point_mem, ?_⟩, known⟩
    rw [visible, Option.map_some]

/-- What comes out of points is a summary of them. -/
theorem summarizes_of_ofPoints (h : ofPoints documentOf points = .ok spans) :
    Summarizes documentOf points spans := by
  obtain ⟨ranges, resolved, rfl⟩ := ofPoints_eq_ok_iff.1 h
  have shows : ∀ document range, (document, range) ∈ ranges ↔
      Shows documentOf points document range :=
    fun document range => mem_of_resolveRanges_iff resolved
  have collected := collected_ofRanges ranges
  refine ⟨pairwise_ofRanges ranges, fun document => ?_, fun span mem => ?_, fun span mem => ?_⟩
  · rw [List.mem_map]
    constructor
    · rintro ⟨span, mem, rfl⟩
      obtain ⟨range, inside, -⟩ := (collected.bounds span mem).minLine_mem
      exact ⟨range, (shows _ _).1 inside⟩
    · rintro ⟨range, shown⟩
      exact collected.exists_mem document range ((shows _ _).2 shown)
  · have bounds := collected.bounds span mem
    obtain ⟨first, inside, start⟩ := bounds.minLine_mem
    refine ⟨⟨first, (shows _ _).1 inside, start⟩, ?_⟩
    rintro _ ⟨range, shown, rfl⟩
    exact bounds.minLine_le range ((shows _ _).2 shown)
  · have bounds := collected.bounds span mem
    obtain ⟨last, inside, stop⟩ := bounds.maxLine_mem
    refine ⟨⟨last, (shows _ _).1 inside, stop⟩, ?_⟩
    rintro _ ⟨range, shown, rfl⟩
    exact bounds.le_maxLine range ((shows _ _).2 shown)

/-- **What comes out of points is their summary**, and something comes out exactly if all visible
points have documents. -/
theorem ofPoints_eq_ok_iff_summarizes :
    ofPoints documentOf points = .ok spans ↔
      RowsKnown documentOf points ∧ Summarizes documentOf points spans := by
  rcases ofPoints_cases documentOf points with ⟨known, found, eq⟩ | ⟨point, mem, shown, unknown, eq⟩
  · rw [eq]
    have summary := summarizes_of_ofPoints eq
    constructor
    · intro h
      obtain rfl := Except.ok.inj h
      exact ⟨known, summary⟩
    · rintro ⟨-, other⟩
      rw [summary.unique other]
  · refine iff_of_false (fun h => by cases eq.symm.trans h) ?_
    rintro ⟨known, -⟩
    have some := known point mem shown
    rw [unknown] at some
    cases some

/-- What is wrong with points that have no spans is one of them: it is visible, and its row stands
for no document. -/
theorem exists_of_ofPoints_eq_error {e : Error} (h : ofPoints documentOf points = .error e) :
    ∃ point ∈ points, point.range.isSome ∧ documentOf point.document = none ∧
      e = .malformed (.unknownDocumentRow point.document) := by
  rcases ofPoints_cases documentOf points with ⟨-, found, eq⟩ | ⟨point, mem, shown, unknown, eq⟩
  · cases h.symm.trans eq
  · exact ⟨point, mem, shown, unknown, Except.error.inj (h.symm.trans eq)⟩

/-- Such a point is enough for there to be no spans. -/
theorem exists_ofPoints_eq_error {point : SequencePoint} (mem : point ∈ points)
    (shown : point.range.isSome) (unknown : documentOf point.document = none) :
    ∃ e, ofPoints documentOf points = .error e := by
  cases result : ofPoints documentOf points with
  | error e => exact ⟨e, rfl⟩
  | ok spans =>
      have known := (ofPoints_eq_ok_iff_summarizes.1 result).1 point mem shown
      rw [unknown] at known
      cases known

/-! ### What does not matter -/

/-- Hidden points do not matter, not even to what is wrong. -/
theorem ofPoints_filter (documentOf : UInt32 → Option DocumentId) (points : List SequencePoint) :
    ofPoints documentOf (points.filter (!·.isHidden)) = ofPoints documentOf points := by
  have ranges : SequencePoint.visibleRanges (points.filter (!·.isHidden)) =
      SequencePoint.visibleRanges points := by
    rw [SequencePoint.visibleRanges, List.filterMap_filter]
    refine List.filterMap_congr fun point _ => ?_
    cases visible : point.range <;> simp [SequencePoint.isHidden, visible]
  rw [ofPoints, ranges, ← ofPoints]

/-- Points in another order show the same. -/
theorem shows_eq_of_perm (documentOf : UInt32 → Option DocumentId) (perm : points.Perm others) :
    Shows documentOf points = Shows documentOf others := by
  funext document range
  exact propext ⟨fun ⟨point, mem, shown⟩ => ⟨point, perm.mem_iff.1 mem, shown⟩,
    fun ⟨point, mem, shown⟩ => ⟨point, perm.mem_iff.2 mem, shown⟩⟩

/-- So they have the same summary. -/
theorem Summarizes.of_perm (h : Summarizes documentOf points spans) (perm : points.Perm others) :
    Summarizes documentOf others spans := by
  have same := shows_eq_of_perm documentOf perm
  obtain ⟨ascending, documents, minLine, maxLine⟩ := h
  rw [same] at documents
  simp only [same] at minLine maxLine
  exact ⟨ascending, documents, minLine, maxLine⟩

/-- The order of points does not matter to the spans. -/
theorem ofPoints_eq_ok_of_perm (h : ofPoints documentOf points = .ok spans)
    (perm : points.Perm others) : ofPoints documentOf others = .ok spans := by
  obtain ⟨known, summary⟩ := ofPoints_eq_ok_iff_summarizes.1 h
  refine ofPoints_eq_ok_iff_summarizes.2 ⟨fun point mem => ?_, summary.of_perm perm⟩
  exact known point (perm.mem_iff.2 mem)

/-- **Spans are a summary of visible points.** There are none exactly if a visible point is in a row
that stands for no document, and then such a row is named. Else they are the summary of the points,
which is the only one. Points with the same visible ones have the same spans, and what is wrong
with them is the same; if the visible ones are the same in another order, the spans are still the
same. -/
theorem spans_summarize_points (documentOf : UInt32 → Option DocumentId)
    (points : List SequencePoint) :
    ((∃ e, ofPoints documentOf points = .error e) ↔
      ∃ point ∈ points, ¬point.isHidden ∧ documentOf point.document = none) ∧
    (∀ e, ofPoints documentOf points = .error e →
      ∃ point ∈ points, ¬point.isHidden ∧ documentOf point.document = none ∧
        e = .malformed (.unknownDocumentRow point.document)) ∧
    (∀ spans, ofPoints documentOf points = .ok spans ↔
      (∀ point ∈ points, ¬point.isHidden → (documentOf point.document).isSome) ∧
        Summarizes documentOf points spans) ∧
    (∀ others, others.filter (!·.isHidden) = points.filter (!·.isHidden) →
      ofPoints documentOf others = ofPoints documentOf points) ∧
    (∀ others, (others.filter (!·.isHidden)).Perm (points.filter (!·.isHidden)) →
      ∀ spans, ofPoints documentOf others = .ok spans ↔
        ofPoints documentOf points = .ok spans) := by
  have shown_iff : ∀ point : SequencePoint, point.range.isSome ↔ ¬point.isHidden := by
    intro point
    rw [SequencePoint.isHidden, Bool.not_eq_true, Option.isNone_eq_false_iff]
  refine ⟨?_, ?_, ?_, ?_, ?_⟩
  · simp only [← shown_iff]
    constructor
    · rintro ⟨e, h⟩
      obtain ⟨point, mem, shown, unknown, -⟩ := exists_of_ofPoints_eq_error h
      exact ⟨point, mem, shown, unknown⟩
    · rintro ⟨point, mem, shown, unknown⟩
      exact exists_ofPoints_eq_error mem shown unknown
  · simp only [← shown_iff]
    exact fun e h => exists_of_ofPoints_eq_error h
  · intro spans
    rw [ofPoints_eq_ok_iff_summarizes, RowsKnown]
    simp only [shown_iff]
  · intro others same
    rw [← ofPoints_filter, same, ofPoints_filter]
  · intro others perm spans
    rw [← ofPoints_filter documentOf others, ← ofPoints_filter documentOf points]
    exact ⟨fun h => ofPoints_eq_ok_of_perm h perm, fun h => ofPoints_eq_ok_of_perm h perm.symm⟩

/-- Points of two documents, one of which two rows stand for, in two orders, and on one side with a
hidden point in a row that stands for nothing. -/
theorem spans_summarize_points_twoRows :
    let documentOf : UInt32 → Option DocumentId := fun row =>
      if row = 1 then some ⟨11⟩ else if row = 2 ∨ row = 3 then some ⟨12⟩ else none
    let points : List SequencePoint := [⟨0, 1, some ⟨10, 1, 10, 2⟩⟩, ⟨4, 2, some ⟨3, 1, 4, 2⟩⟩,
      ⟨8, 9, none⟩, ⟨9, 1, some ⟨5, 1, 6, 2⟩⟩, ⟨12, 3, some ⟨20, 1, 22, 2⟩⟩]
    let others : List SequencePoint := [⟨12, 3, some ⟨20, 1, 22, 2⟩⟩, ⟨9, 1, some ⟨5, 1, 6, 2⟩⟩,
      ⟨0, 1, some ⟨10, 1, 10, 2⟩⟩, ⟨4, 2, some ⟨3, 1, 4, 2⟩⟩]
    (others.filter (!·.isHidden)).Perm (points.filter (!·.isHidden)) ∧
      ofPoints documentOf points = .ok [⟨⟨11⟩, 5, 10⟩, ⟨⟨12⟩, 3, 22⟩] ∧
      ofPoints documentOf others = .ok [⟨⟨11⟩, 5, 10⟩, ⟨⟨12⟩, 3, 22⟩] := by
  intro documentOf points others
  have perm : (others.filter (!·.isHidden)).Perm (points.filter (!·.isHidden)) := by decide +kernel
  have collected : (SequencePoint.visibleRanges points).foldlM (insertPoint documentOf) [] =
      .ok [⟨⟨11⟩, 5, 10⟩, ⟨⟨12⟩, 3, 22⟩] := by decide +kernel
  have spans : ofPoints documentOf points = .ok [⟨⟨11⟩, 5, 10⟩, ⟨⟨12⟩, 3, 22⟩] := by
    rw [ofPoints, Outcome.bind_of_ok collected, List.mergeSort_of_pairwise (by decide)]
    rfl
  exact ⟨perm, spans,
    ((spans_summarize_points documentOf points).2.2.2.2 others perm _).2 spans⟩

end SymbolHistory.Span
