import SymbolHistory.Proofs.LineTable.Record
import Mathlib.Data.List.Chain

/-!
# Points that follow one another

What a record can be about depends on the points before it. Taken over all points of a line table,
that comes to the rules for well-formed line tables, which speak about neighbours in the list.

## Main definitions

* `LineTable.Admitted` : every point is admitted after the ones before it.
* `LineTable.Context.Fits` : points that fit to a context, by rules about neighbours.

## Main results

* `LineTable.admitted_iff_fits` : these are the same.
* `LineTable.wellFormed_iff_admitted` : the points of a well-formed line table are admitted in turn.
-/

namespace SymbolHistory.LineTable

open Bytes

/-- Every point is admitted after the ones before it. -/
def Admitted (context : Context) : List SequencePoint → Prop
  | [] => True
  | point :: points => context.Admits point ∧ Admitted (context.after point) points

/-- A visible point starts on a line that is not too far from the start of the one before. -/
def LineFollows (first second : UInt32) : Prop :=
  Width.four.Holds (second.toNat - first.toNat)

/-- Points that fit to a context, by rules about neighbours. The rules for the first point count the
context as what comes before it. -/
structure Context.Fits (context : Context) (points : List SequencePoint) : Prop where
  /-- Code offsets are below 2^29. -/
  codeOffset_lt : ∀ point ∈ points, point.codeOffset.toNat < SequencePoint.valueBound
  /-- Each code offset is larger than the one before. -/
  ascending : (context.offset.toList ++ points.map (·.codeOffset)).IsChain (· < ·)
  /-- The first point is in the document of the context, or can announce another one. -/
  first : ∀ point ∈ points.head?, point.document = context.document ∨
    context.offset.isSome ∧ point.document ≠ 0 ∧ point.document.toNat < SequencePoint.valueBound
  /-- Documents that are changed to have rows that can be written. -/
  documents : points.IsChain DocumentFollows
  /-- Visible points have well-formed ranges. -/
  ranges : ∀ point ∈ points, ∀ range ∈ point.range, range.WellFormed
  /-- The starts of visible points are not too far from one another. -/
  starts : ((context.anchor.map (·.1)).toList ++
    (points.filterMap (·.range)).map (·.startLine)).IsChain LineFollows

theorem fits_nil (context : Context) : context.Fits [] := by
  refine ⟨by simp, ?_, by simp, by simp, by simp, ?_⟩
  · cases context.offset <;> simp
  · cases context.anchor <;> simp

/-- The line where the last visible point starts, after one more point. -/
theorem anchor_after (context : Context) (point : SequencePoint) :
    (context.after point).anchor.map (·.1) =
      (point.range.map (·.startLine)).or (context.anchor.map (·.1)) := by
  rw [Context.after]
  cases point.range <;> rfl

/-- The chain of starts, with one more point at the front. -/
theorem isChain_starts_cons_iff {context : Context} {point : SequencePoint}
    {points : List SequencePoint} :
    ((context.anchor.map (·.1)).toList ++
        ((point :: points).filterMap (·.range)).map (·.startLine)).IsChain LineFollows ↔
      (∀ range ∈ point.range, ∀ anchor ∈ context.anchor,
        Width.four.Holds (range.startLine.toNat - anchor.1.toNat)) ∧
      (((context.after point).anchor.map (·.1)).toList ++
        (points.filterMap (·.range)).map (·.startLine)).IsChain LineFollows := by
  rw [anchor_after]
  cases visible : point.range with
  | none =>
      rw [List.filterMap_cons_none visible]
      simp
  | some range =>
      rw [List.filterMap_cons_some visible]
      cases context.anchor with
      | none => simp
      | some anchor => simp [LineFollows]

/-- Points fit to a context if the first one is admitted and the others fit behind it. -/
theorem fits_cons_iff {context : Context} {point : SequencePoint} {points : List SequencePoint} :
    context.Fits (point :: points) ↔
      context.Admits point ∧ (context.after point).Fits points := by
  have offsets : (context.offset.toList ++ (point :: points).map (·.codeOffset)).IsChain (· < ·) ↔
      (∀ previous ∈ context.offset, previous < point.codeOffset) ∧
        ((context.after point).offset.toList ++ points.map (·.codeOffset)).IsChain (· < ·) := by
    rw [Context.after]
    cases context.offset with
    | none => simp
    | some previous => simp
  constructor
  · rintro ⟨codeOffset_lt, ascending, first, documents, ranges, starts⟩
    obtain ⟨behind, ascending⟩ := offsets.1 ascending
    obtain ⟨near, starts⟩ := isChain_starts_cons_iff.1 starts
    obtain ⟨neighbour, documents⟩ := List.isChain_cons.1 documents
    refine ⟨⟨codeOffset_lt point List.mem_cons_self, behind, first point rfl,
      ranges point List.mem_cons_self, near⟩, ?_, ascending, ?_, documents, ?_, starts⟩
    · exact fun other mem => codeOffset_lt other (List.mem_cons_of_mem _ mem)
    · intro next mem
      rcases neighbour next mem with same | other
      · exact .inl same
      · exact .inr ⟨rfl, other⟩
    · exact fun other mem => ranges other (List.mem_cons_of_mem _ mem)
  · rintro ⟨admitted, fits⟩
    refine ⟨?_, offsets.2 ⟨admitted.behind, fits.ascending⟩, ?_, ?_, ?_,
      isChain_starts_cons_iff.2 ⟨admitted.start, fits.starts⟩⟩
    · exact List.forall_mem_cons.2 ⟨admitted.codeOffset_lt, fits.codeOffset_lt⟩
    · rintro _ ⟨⟩
      exact admitted.document
    · refine List.isChain_cons.2 ⟨fun next mem => ?_, fits.documents⟩
      rcases fits.first next mem with same | ⟨-, other⟩
      · exact .inl same
      · exact .inr other
    · exact List.forall_mem_cons.2 ⟨admitted.range, fits.ranges⟩

/-- **Points are admitted in turn exactly if they fit.** -/
theorem admitted_iff_fits {context : Context} {points : List SequencePoint} :
    Admitted context points ↔ context.Fits points := by
  induction points generalizing context with
  | nil => exact ⟨fun _ => fits_nil context, fun _ => trivial⟩
  | cons point points ih => rw [Admitted, ih, fits_cons_iff]

/-- **The points of a well-formed line table are admitted in turn**, and that is all there is to it
besides its header. -/
theorem wellFormed_iff_admitted {table : LineTable} :
    table.WellFormed ↔ table.toHeader.WellFormed ∧
      Admitted (.initial table.initialDocument) table.points := by
  rw [admitted_iff_fits]
  have ascending : ((Context.initial table.initialDocument).offset.toList ++
      table.points.map (·.codeOffset)).IsChain (· < ·) ↔
      table.points.Pairwise (·.codeOffset < ·.codeOffset) := by
    have : @Trans UInt32 UInt32 UInt32 (· < ·) (· < ·) (· < ·) := ⟨UInt32.lt_trans⟩
    rw [Context.initial, Option.toList_none, List.nil_append, List.isChain_iff_pairwise,
      List.pairwise_map]
  have starts : (((Context.initial table.initialDocument).anchor.map (·.1)).toList ++
      (table.points.filterMap (·.range)).map (·.startLine)).IsChain LineFollows ↔
      (table.points.filterMap (·.range)).IsChain StartFollows := by
    rw [Context.initial, Option.map_none, Option.toList_none, List.nil_append, List.isChain_map]
    rfl
  constructor
  · rintro ⟨header, codeOffset_lt, ordered, first, documents, ranges, near⟩
    exact ⟨header, codeOffset_lt, ascending.2 ordered, fun point mem => .inl (first point mem),
      documents, ranges, starts.2 near⟩
  · rintro ⟨header, fits⟩
    refine ⟨header, fits.codeOffset_lt, ascending.1 fits.ascending, ?_, fits.documents,
      fits.ranges, starts.1 fits.starts⟩
    intro point mem
    rcases fits.first point mem with same | ⟨later, -⟩
    · exact same
    · cases later

end SymbolHistory.LineTable
