import SymbolHistory.Extent.Basic
import SymbolHistory.Proofs.Outcome
import Mathlib.Data.List.Induction
import Mathlib.Data.List.Nodup

/-!
# Spans of points

The spans of a method are worked out from its points one by one. What comes out does not depend on
that: there is one span for each document that visible points lie in, and it goes from the first to
the last line of these points. If all points move by the same number of lines, the spans move along.

## Main definitions

* `resolveRanges` : visible points with their documents in place of document rows.
* `Span.RowsKnown` : all visible points are in documents that are known.
* `Span.ofRanges` : the spans of ranges whose documents are known.
* `Span.Bounds` : a span goes from the first to the last line of the ranges in its document.
* `Span.shift` : a span moved by a delta.

## Main results

* `Span.ofPoints_eq_ok_iff` : spans of points are those of their ranges, if all rows are known.
* `Span.ofPoints_cases` : what comes out if a row is not.
* `Span.pairwise_ofRanges`, `Span.find?_ofRanges_eq_some_iff` : what the spans of ranges are.
* `Span.ofRanges_shift` : spans move along with their ranges.
-/

namespace SymbolHistory

/-- Visible points with their documents in place of document rows; none if a row is unknown. -/
def resolveRanges (documentOf : UInt32 → Option DocumentId)
    (ranges : List (UInt32 × SourceRange)) : Option (List (DocumentId × SourceRange)) :=
  ranges.mapM fun (row, range) => (documentOf row).map (·, range)

/-- Ranges are resolved one by one, and each of them has to be. -/
theorem resolveRanges_cons (documentOf : UInt32 → Option DocumentId) (row : UInt32)
    (range : SourceRange) (ranges : List (UInt32 × SourceRange)) :
    resolveRanges documentOf ((row, range) :: ranges) =
      (documentOf row).bind fun document =>
        (resolveRanges documentOf ranges).map ((document, range) :: ·) := by
  rw [resolveRanges, List.mapM_cons]
  simp only
  cases documentOf row with
  | none => rfl
  | some document => exact Option.map_eq_bind.symm

/-- What ranges are resolved to are these ranges, each with the document that its row stands for. -/
theorem mem_resolveRanges_iff {documentOf : UInt32 → Option DocumentId}
    {ranges : List (UInt32 × SourceRange)} {resolved : List (DocumentId × SourceRange)}
    (h : resolveRanges documentOf ranges = some resolved) {document : DocumentId}
    {range : SourceRange} :
    (document, range) ∈ resolved ↔
      ∃ row, (row, range) ∈ ranges ∧ documentOf row = some document := by
  induction ranges generalizing resolved with
  | nil =>
      obtain rfl := Option.some.inj h
      simp
  | cons entry ranges ih =>
      rcases entry with ⟨row, first⟩
      rw [resolveRanges_cons, Option.bind_eq_some_iff] at h
      obtain ⟨own, known, h⟩ := h
      obtain ⟨rest, others, rfl⟩ := Option.map_eq_some_iff.1 h
      rw [List.mem_cons, ih others]
      constructor
      · rintro (eq | ⟨row, mem, known⟩)
        · obtain ⟨rfl, rfl⟩ := Prod.mk.inj eq
          exact ⟨row, List.mem_cons_self, known⟩
        · exact ⟨row, List.mem_cons_of_mem _ mem, known⟩
      · rintro ⟨row', mem, known'⟩
        rcases List.mem_cons.1 mem with eq | mem
        · obtain ⟨rfl, rfl⟩ := Prod.mk.inj eq
          obtain rfl := Option.some.inj (known.symm.trans known')
          exact .inl rfl
        · exact .inr ⟨row', mem, known'⟩

/-! ### Moving lines -/

/-- A line that moves stays between 0 and the largest one. -/
theorem toNat_shiftLine (line : UInt32) (delta : Int32) :
    (shiftLine line delta).toNat = min (line.toNat + delta.toInt).toNat 0xFFFFFFFF := by
  rw [shiftLine, UInt32.toNat_ofNat']
  omega

/-- Moving keeps lines in order. -/
theorem shiftLine_le_shiftLine {line other : UInt32} (h : line ≤ other) (delta : Int32) :
    shiftLine line delta ≤ shiftLine other delta := by
  rw [UInt32.le_iff_toNat_le] at h ⊢
  rw [toNat_shiftLine, toNat_shiftLine]
  omega

/-- The lesser of two words is that of their numbers. -/
theorem toNat_min (a b : UInt32) : (min a b).toNat = min a.toNat b.toNat := by
  change (if a ≤ b then a else b).toNat = _
  split <;> simp only [UInt32.le_iff_toNat_le] at * <;> omega

/-- So is the greater. -/
theorem toNat_max (a b : UInt32) : (max a b).toNat = max a.toNat b.toNat := by
  change (if a ≤ b then b else a).toNat = _
  split <;> simp only [UInt32.le_iff_toNat_le] at * <;> omega

/-- Moving keeps the order of lines, so the first of two stays the first. -/
theorem shiftLine_min (first second : UInt32) (delta : Int32) :
    shiftLine (min first second) delta = min (shiftLine first delta) (shiftLine second delta) := by
  rw [← UInt32.toNat_inj, toNat_min, toNat_shiftLine, toNat_shiftLine, toNat_shiftLine, toNat_min]
  omega

/-- So the last of two stays the last. -/
theorem shiftLine_max (first second : UInt32) (delta : Int32) :
    shiftLine (max first second) delta = max (shiftLine first delta) (shiftLine second delta) := by
  rw [← UInt32.toNat_inj, toNat_max, toNat_shiftLine, toNat_shiftLine, toNat_shiftLine, toNat_max]
  omega

namespace Span

/-- A span moved by a delta. -/
def shift (span : Span) (delta : Int32) : Span :=
  { span with
    minLine := shiftLine span.minLine delta
    maxLine := shiftLine span.maxLine delta }

/-- A span that moves stays in its document. -/
@[simp] theorem document_shift (span : Span) (delta : Int32) :
    (span.shift delta).document = span.document := rfl

/-- So does one that is widened. -/
@[simp] theorem document_widen (span : Span) (range : SourceRange) :
    (span.widen range).document = span.document := rfl

/-- Widening and moving can change places. -/
theorem shift_widen (span : Span) (range : SourceRange) (delta : Int32) :
    (span.widen range).shift delta = (span.shift delta).widen (range.shift delta) := by
  simp only [shift, widen, SourceRange.shift, shiftLine_min, shiftLine_max]

/-- The order of spans. -/
def documentLe (a b : Span) : Bool := a.document.val ≤ b.document.val

/-- The spans of ranges in documents, by ascending document. -/
def ofRanges (ranges : List (DocumentId × SourceRange)) : List Span :=
  (ranges.foldl (fun spans (document, range) => insert document range spans) []).mergeSort
    documentLe

/-! ### Points and ranges -/

/-- Adding points to spans succeeds exactly if all rows are known, and then adds their ranges. -/
theorem foldlM_insertPoint_eq_ok_iff {documentOf : UInt32 → Option DocumentId}
    {points : List (UInt32 × SourceRange)} {spans result : List Span} :
    points.foldlM (insertPoint documentOf) spans = .ok result ↔
      ∃ ranges, resolveRanges documentOf points = some ranges ∧
        result =
          ranges.foldl (fun spans (document, range) => insert document range spans) spans := by
  induction points generalizing spans with
  | nil => simp [resolveRanges, pure, Except.pure, eq_comm]
  | cons point points ih =>
      rcases point with ⟨row, range⟩
      cases known : documentOf row with
      | none => simp [resolveRanges_cons, insertPoint, known, bind, Except.bind]
      | some document =>
          have step : insertPoint documentOf spans (row, range) =
              .ok (insert document range spans) := by simp [insertPoint, known]
          rw [List.foldlM_cons, step, resolveRanges_cons, known, Option.bind_some]
          refine Iff.trans (@ih (insert document range spans)) ?_
          constructor
          · rintro ⟨ranges, resolved, rfl⟩
            exact ⟨_, by rw [resolved, Option.map_some], rfl⟩
          · rintro ⟨_, resolved, rfl⟩
            obtain ⟨ranges, known, rfl⟩ := Option.map_eq_some_iff.1 resolved
            exact ⟨ranges, known, rfl⟩

/-- **Spans of points are those of their ranges**, and there are none exactly if a visible point is
in an unknown document row. -/
theorem ofPoints_eq_ok_iff {documentOf : UInt32 → Option DocumentId} {points : List SequencePoint}
    {spans : List Span} :
    ofPoints documentOf points = .ok spans ↔
      ∃ ranges, resolveRanges documentOf (SequencePoint.visibleRanges points) = some ranges ∧
        spans = ofRanges ranges := by
  have bind_iff : ofPoints documentOf points = .ok spans ↔
      ∃ unsorted, (SequencePoint.visibleRanges points).foldlM (insertPoint documentOf) [] =
        .ok unsorted ∧ spans = unsorted.mergeSort documentLe := by
    rw [ofPoints]
    cases (SequencePoint.visibleRanges points).foldlM (insertPoint documentOf) [] with
    | error e => simp [bind, Except.bind]
    | ok unsorted =>
        simp only [bind, Except.bind, pure, Except.pure, Except.ok.injEq, exists_eq_left']
        exact eq_comm
  simp only [bind_iff, foldlM_insertPoint_eq_ok_iff]
  constructor
  · rintro ⟨unsorted, ⟨ranges, resolved, rfl⟩, rfl⟩
    exact ⟨ranges, resolved, rfl⟩
  · rintro ⟨ranges, resolved, rfl⟩
    exact ⟨_, ⟨ranges, resolved, rfl⟩, rfl⟩

/-- All visible points are in documents whose rows are known. -/
def RowsKnown (documentOf : UInt32 → Option DocumentId) (points : List SequencePoint) : Prop :=
  ∀ point ∈ points, point.range.isSome → (documentOf point.document).isSome

/-- Adding points to spans fails at the first one whose row is unknown. -/
theorem foldlM_insertPoint_cases (documentOf : UInt32 → Option DocumentId)
    (points : List (UInt32 × SourceRange)) (spans : List Span) :
    ((∀ point ∈ points, (documentOf point.1).isSome) ∧
      ∃ result, points.foldlM (insertPoint documentOf) spans = .ok result) ∨
    ∃ point ∈ points, documentOf point.1 = none ∧
      points.foldlM (insertPoint documentOf) spans =
        .error (.malformed (.unknownDocumentRow point.1)) := by
  induction points generalizing spans with
  | nil => exact .inl ⟨by simp, spans, rfl⟩
  | cons point points ih =>
      rw [List.foldlM_cons, insertPoint]
      cases known : documentOf point.1 with
      | none => exact .inr ⟨point, List.mem_cons_self, known, rfl⟩
      | some document =>
          rcases ih (insert document point.2 spans) with ⟨all, result⟩ | ⟨other, mem, rest⟩
          · refine .inl ⟨List.forall_mem_cons.2 ⟨?_, all⟩, result⟩
            rw [known]
            rfl
          · exact .inr ⟨other, List.mem_cons_of_mem _ mem, rest⟩

/-- **Points have spans if their rows are known**, and one of them is to blame if they have none. -/
theorem ofPoints_cases (documentOf : UInt32 → Option DocumentId) (points : List SequencePoint) :
    (RowsKnown documentOf points ∧ ∃ spans, ofPoints documentOf points = .ok spans) ∨
    ∃ point ∈ points, point.range.isSome ∧ documentOf point.document = none ∧
      ofPoints documentOf points = .error (.malformed (.unknownDocumentRow point.document)) := by
  rcases foldlM_insertPoint_cases documentOf (SequencePoint.visibleRanges points) [] with
    ⟨known, result, eq⟩ | ⟨entry, mem, unknown, eq⟩
  · refine .inl ⟨fun point mem visible => ?_, _, Outcome.bind_of_ok eq⟩
    obtain ⟨range, range_eq⟩ := Option.isSome_iff_exists.1 visible
    refine known (point.document, range) (List.mem_filterMap.2 ⟨point, mem, ?_⟩)
    rw [range_eq, Option.map_some]
  · obtain ⟨point, point_mem, found⟩ := List.mem_filterMap.1 mem
    obtain ⟨range, range_eq, rfl⟩ := Option.map_eq_some_iff.1 found
    refine .inr ⟨point, point_mem, ?_, unknown, Outcome.bind_of_error eq⟩
    rw [range_eq]
    rfl

/-! ### What the spans are -/

/-- A span that goes from the first to the last line of the ranges in its document. -/
structure Bounds (span : Span) (ranges : List (DocumentId × SourceRange)) : Prop where
  /-- A range starts on the first line. -/
  minLine_mem : ∃ range, (span.document, range) ∈ ranges ∧ range.startLine = span.minLine
  /-- No range starts earlier. -/
  minLine_le : ∀ range, (span.document, range) ∈ ranges → span.minLine ≤ range.startLine
  /-- A range ends on the last line. -/
  maxLine_mem : ∃ range, (span.document, range) ∈ ranges ∧ range.endLine = span.maxLine
  /-- No range ends later. -/
  le_maxLine : ∀ range, (span.document, range) ∈ ranges → range.endLine ≤ span.maxLine

/-- Ranges in other documents do not matter to a span. -/
theorem Bounds.append_other {span : Span} {ranges : List (DocumentId × SourceRange)}
    (h : span.Bounds ranges) {document : DocumentId} (other : span.document ≠ document)
    (range : SourceRange) : span.Bounds (ranges ++ [(document, range)]) := by
  have same : ∀ inside, (span.document, inside) ∈ ranges ++ [(document, range)] ↔
      (span.document, inside) ∈ ranges := by
    intro inside
    simp [other]
  constructor
  · simpa only [same] using h.minLine_mem
  · simpa only [same] using h.minLine_le
  · simpa only [same] using h.maxLine_mem
  · simpa only [same] using h.le_maxLine

/-- A widened span goes around one more range. -/
theorem Bounds.widen {span : Span} {ranges : List (DocumentId × SourceRange)}
    (h : span.Bounds ranges) (range : SourceRange) :
    (span.widen range).Bounds (ranges ++ [(span.document, range)]) := by
  have mem_iff : ∀ inside, (span.document, inside) ∈ ranges ++ [(span.document, range)] ↔
      (span.document, inside) ∈ ranges ∨ inside = range := by
    intro inside
    simp
  constructor
  · obtain ⟨first, mem, eq⟩ := h.minLine_mem
    rcases UInt32.le_total span.minLine range.startLine with le | le
    · refine ⟨first, (mem_iff _).2 (.inl mem), ?_⟩
      rw [eq, Span.widen, ← UInt32.toNat_inj, toNat_min]
      rw [UInt32.le_iff_toNat_le] at le
      omega
    · refine ⟨range, (mem_iff _).2 (.inr rfl), ?_⟩
      rw [Span.widen, ← UInt32.toNat_inj, toNat_min]
      rw [UInt32.le_iff_toNat_le] at le
      omega
  · intro inside mem
    rw [Span.widen, UInt32.le_iff_toNat_le, toNat_min]
    rcases (mem_iff _).1 mem with mem | rfl
    · have := UInt32.le_iff_toNat_le.1 (h.minLine_le inside mem)
      omega
    · omega
  · obtain ⟨last, mem, eq⟩ := h.maxLine_mem
    rcases UInt32.le_total span.maxLine range.endLine with le | le
    · refine ⟨range, (mem_iff _).2 (.inr rfl), ?_⟩
      rw [Span.widen, ← UInt32.toNat_inj, toNat_max]
      rw [UInt32.le_iff_toNat_le] at le
      omega
    · refine ⟨last, (mem_iff _).2 (.inl mem), ?_⟩
      rw [eq, Span.widen, ← UInt32.toNat_inj, toNat_max]
      rw [UInt32.le_iff_toNat_le] at le
      omega
  · intro inside mem
    rw [Span.widen, UInt32.le_iff_toNat_le, toNat_max]
    rcases (mem_iff _).1 mem with mem | rfl
    · have := UInt32.le_iff_toNat_le.1 (h.le_maxLine inside mem)
      omega
    · omega

/-- A span of a single range. -/
theorem bounds_singleton {document : DocumentId} {range : SourceRange}
    {ranges : List (DocumentId × SourceRange)}
    (h : ∀ inside, (document, inside) ∉ ranges) :
    (Span.mk document range.startLine range.endLine).Bounds (ranges ++ [(document, range)]) := by
  have mem_iff : ∀ inside, (document, inside) ∈ ranges ++ [(document, range)] ↔
      inside = range := by
    intro inside
    simp [h inside]
  constructor
  · exact ⟨range, (mem_iff _).2 rfl, rfl⟩
  · intro inside mem
    exact (mem_iff _).1 mem ▸ UInt32.le_refl _
  · exact ⟨range, (mem_iff _).2 rfl, rfl⟩
  · intro inside mem
    exact (mem_iff _).1 mem ▸ UInt32.le_refl _

/-- Spans that are those of some ranges, in any order. -/
structure Collected (ranges : List (DocumentId × SourceRange)) (spans : List Span) : Prop where
  /-- No document has two spans. -/
  nodup : (spans.map (·.document)).Nodup
  /-- Every span goes from the first to the last line of the ranges in its document. -/
  bounds : ∀ span ∈ spans, span.Bounds ranges
  /-- Every document with a range has a span. -/
  exists_mem : ∀ document range, (document, range) ∈ ranges →
    ∃ span ∈ spans, span.document = document

/-- The documents after a range is added: one more, if its document had no span. -/
theorem map_document_insert (document : DocumentId) (range : SourceRange) (spans : List Span) :
    (insert document range spans).map (·.document) =
      if document ∈ spans.map (·.document) then spans.map (·.document)
      else spans.map (·.document) ++ [document] := by
  induction spans with
  | nil => rfl
  | cons span spans ih =>
      rw [insert]
      by_cases same : span.document = document
      · simp [same]
      · rw [if_neg same, List.map_cons, ih, List.map_cons]
        by_cases known : document ∈ spans.map (·.document)
        · rw [if_pos known, if_pos (List.mem_cons_of_mem _ known)]
        · rw [if_neg known, if_neg (by simpa [Ne.symm same] using known), List.cons_append]

/-- A span after a range is added: one of before in another document, or the one of the range's
document widened, or a new one. -/
theorem mem_insert {document : DocumentId} {range : SourceRange} {spans : List Span} {span : Span}
    (nodup : (spans.map (·.document)).Nodup) (h : span ∈ insert document range spans) :
    (span ∈ spans ∧ span.document ≠ document) ∨
      (∃ old ∈ spans, old.document = document ∧ span = old.widen range) ∨
      ((∀ old ∈ spans, old.document ≠ document) ∧
        span = ⟨document, range.startLine, range.endLine⟩) := by
  induction spans with
  | nil => exact .inr (.inr ⟨by simp, List.mem_singleton.1 h⟩)
  | cons first spans ih =>
      rw [List.map_cons, List.nodup_cons] at nodup
      rw [insert] at h
      by_cases same : first.document = document
      · rw [if_pos same] at h
        rcases List.mem_cons.1 h with rfl | mem
        · exact .inr (.inl ⟨first, List.mem_cons_self, same, rfl⟩)
        · refine .inl ⟨List.mem_cons_of_mem _ mem, fun eq => nodup.1 ?_⟩
          exact same.trans eq.symm ▸ List.mem_map_of_mem mem
      · rw [if_neg same] at h
        rcases List.mem_cons.1 h with rfl | mem
        · exact .inl ⟨List.mem_cons_self, same⟩
        · rcases ih nodup.2 mem with ⟨mem, ne⟩ | ⟨old, mem, eq⟩ | ⟨new, eq⟩
          · exact .inl ⟨List.mem_cons_of_mem _ mem, ne⟩
          · exact .inr (.inl ⟨old, List.mem_cons_of_mem _ mem, eq⟩)
          · exact .inr (.inr ⟨List.forall_mem_cons.2 ⟨same, new⟩, eq⟩)

/-- A range more is collected by inserting it. -/
theorem Collected.insert {ranges : List (DocumentId × SourceRange)} {spans : List Span}
    (h : Collected ranges spans) (document : DocumentId) (range : SourceRange) :
    Collected (ranges ++ [(document, range)]) (insert document range spans) where
  nodup := by
    rw [map_document_insert]
    split
    · exact h.nodup
    · next unknown =>
      exact List.nodup_append.2 ⟨h.nodup, List.nodup_singleton _, fun other mem last last_mem =>
        fun eq => unknown (List.mem_singleton.1 last_mem ▸ eq ▸ mem)⟩
  bounds span mem := by
    rcases mem_insert h.nodup mem with ⟨kept, ne⟩ | ⟨old, known, rfl, rfl⟩ | ⟨new, rfl⟩
    · exact (h.bounds span kept).append_other ne range
    · exact (h.bounds old known).widen range
    · refine bounds_singleton fun inside inside_mem => ?_
      obtain ⟨old, mem, eq⟩ := h.exists_mem _ _ inside_mem
      exact new old mem eq
  exists_mem other inside mem := by
    have known : other ∈ (Span.insert document range spans).map (·.document) := by
      rw [map_document_insert]
      rcases List.mem_append.1 mem with mem | mem
      · obtain ⟨span, span_mem, rfl⟩ := h.exists_mem _ _ mem
        have old : span.document ∈ spans.map (·.document) := List.mem_map_of_mem span_mem
        split
        · exact old
        · exact List.mem_append_left _ old
      · have new : other = document := congrArg Prod.fst (List.mem_singleton.1 mem)
        subst new
        split
        · assumption
        · exact List.mem_append_right _ (List.mem_singleton.2 rfl)
    obtain ⟨span, span_mem, eq⟩ := List.mem_map.1 known
    exact ⟨span, span_mem, eq⟩

/-- Adding ranges one by one collects their spans. -/
theorem collected_foldl_insert (ranges : List (DocumentId × SourceRange)) :
    Collected ranges
      (ranges.foldl (fun spans (document, range) => Span.insert document range spans) []) := by
  induction ranges using List.reverseRecOn with
  | nil => exact ⟨List.nodup_nil, by simp, by simp⟩
  | append_singleton ranges entry ih =>
      rw [List.foldl_append]
      exact ih.insert entry.1 entry.2

/-- Documents are in order by their numbers. -/
theorem documentLe_trans (a b c : Span) (h₁ : documentLe a b) (h₂ : documentLe b c) :
    documentLe a c := by
  simp only [documentLe, decide_eq_true_eq] at *
  omega

/-- Any two of them can be compared. -/
theorem documentLe_total (a b : Span) : documentLe a b || documentLe b a := by
  simp only [documentLe, Bool.or_eq_true, decide_eq_true_eq]
  omega

/-- The spans of ranges are collected from all of them. -/
theorem collected_ofRanges (ranges : List (DocumentId × SourceRange)) :
    Collected ranges (ofRanges ranges) := by
  have perm : (ofRanges ranges).Perm
      (ranges.foldl (fun spans (document, range) => Span.insert document range spans) []) :=
    List.mergeSort_perm _ _
  have unsorted := collected_foldl_insert ranges
  refine ⟨(perm.map _).nodup_iff.2 unsorted.nodup, ?_, ?_⟩
  · intro span mem
    exact unsorted.bounds span (perm.mem_iff.1 mem)
  · intro document range mem
    obtain ⟨span, span_mem, eq⟩ := unsorted.exists_mem document range mem
    exact ⟨span, perm.mem_iff.2 span_mem, eq⟩

/-- **Spans are ordered by document**, and no document has two. -/
theorem pairwise_ofRanges (ranges : List (DocumentId × SourceRange)) :
    (ofRanges ranges).Pairwise (·.document.val < ·.document.val) := by
  have sorted : (ofRanges ranges).Pairwise (fun a b => documentLe a b) :=
    List.pairwise_mergeSort documentLe_trans documentLe_total _
  have distinct : (ofRanges ranges).Pairwise (·.document ≠ ·.document) :=
    List.pairwise_map.1 (collected_ofRanges ranges).nodup
  refine (sorted.and distinct).imp ?_
  rintro ⟨⟨a⟩, _, _⟩ ⟨⟨b⟩, _, _⟩ ⟨le, ne⟩
  simp only [documentLe, decide_eq_true_eq, ne_eq, DocumentId.mk.injEq] at le ne ⊢
  omega

/-- A document has one span at most, so its ranges bound no other. -/
theorem Bounds.unique {span other : Span} {ranges : List (DocumentId × SourceRange)}
    (h : span.Bounds ranges) (h' : other.Bounds ranges) (same : span.document = other.document) :
    span = other := by
  rcases span with ⟨document, first, last⟩
  rcases other with ⟨_, first', last'⟩
  obtain rfl : document = _ := same
  obtain ⟨range, mem, rfl⟩ := h.minLine_mem
  obtain ⟨range', mem', rfl⟩ := h'.minLine_mem
  obtain ⟨upper, upper_mem, rfl⟩ := h.maxLine_mem
  obtain ⟨upper', upper_mem', rfl⟩ := h'.maxLine_mem
  rw [Span.mk.injEq]
  exact ⟨rfl, UInt32.le_antisymm (h.minLine_le _ mem') (h'.minLine_le _ mem),
    UInt32.le_antisymm (h'.le_maxLine _ upper_mem) (h.le_maxLine _ upper_mem')⟩

/-- **The span of a document goes from the first to the last line of its ranges.** -/
theorem find?_ofRanges_eq_some_iff {ranges : List (DocumentId × SourceRange)}
    {document : DocumentId} {span : Span} :
    (ofRanges ranges).find? (·.document = document) = some span ↔
      span.document = document ∧ span.Bounds ranges := by
  have collected := collected_ofRanges ranges
  constructor
  · intro found
    exact ⟨by simpa using List.find?_some found,
      collected.bounds span (List.mem_of_find?_eq_some found)⟩
  · rintro ⟨rfl, bounds⟩
    obtain ⟨range, mem, -⟩ := bounds.minLine_mem
    obtain ⟨known, known_mem, same⟩ := collected.exists_mem _ range mem
    cases found : (ofRanges ranges).find? (·.document = span.document) with
    | none =>
        rw [List.find?_eq_none] at found
        exact absurd (decide_eq_true same) (found known known_mem)
    | some other =>
        have there : other.document = span.document := by simpa using List.find?_some found
        have other_bounds := collected.bounds other (List.mem_of_find?_eq_some found)
        rw [other_bounds.unique bounds there]

/-- A document without ranges has no span. -/
theorem find?_ofRanges_eq_none_iff {ranges : List (DocumentId × SourceRange)}
    {document : DocumentId} :
    (ofRanges ranges).find? (·.document = document) = none ↔
      ∀ range, (document, range) ∉ ranges := by
  have collected := collected_ofRanges ranges
  rw [List.find?_eq_none]
  constructor
  · intro absent range mem
    obtain ⟨span, span_mem, same⟩ := collected.exists_mem document range mem
    exact absent span span_mem (decide_eq_true same)
  · intro absent span mem same
    obtain ⟨range, range_mem, -⟩ := (collected.bounds span mem).minLine_mem
    exact absent range (of_decide_eq_true same ▸ range_mem)

/-! ### Moved ranges -/

/-- It does not matter whether a range is moved before it is inserted or afterwards. -/
theorem map_shift_insert (document : DocumentId) (range : SourceRange) (spans : List Span)
    (delta : Int32) :
    (insert document range spans).map (·.shift delta) =
      insert document (range.shift delta) (spans.map (·.shift delta)) := by
  induction spans with
  | nil => rfl
  | cons span spans ih =>
      by_cases same : span.document = document
      · simp [insert, same, shift_widen]
      · simp [insert, same, ih]

/-- **Spans move along with their ranges.** -/
theorem ofRanges_shift (ranges : List (DocumentId × SourceRange)) (delta : Int32) :
    ofRanges (ranges.map fun (document, range) => (document, range.shift delta)) =
      (ofRanges ranges).map (·.shift delta) := by
  have unsorted : ∀ spans : List Span,
      (ranges.map fun (document, range) => (document, range.shift delta)).foldl
          (fun spans (document, range) => insert document range spans)
          (spans.map (·.shift delta)) =
        (ranges.foldl (fun spans (document, range) => insert document range spans) spans).map
          (·.shift delta) := by
    induction ranges with
    | nil => exact fun _ => rfl
    | cons entry ranges ih =>
        intro spans
        rw [List.map_cons, List.foldl_cons, List.foldl_cons, ← ih, map_shift_insert]
  have unsorted := unsorted []
  rw [List.map_nil] at unsorted
  rw [ofRanges, unsorted, ofRanges]
  refine (List.map_mergeSort ?_).symm
  intro a _ b _
  rfl

end Span

end SymbolHistory
