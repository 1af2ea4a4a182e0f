import SymbolHistory.Proofs.LineIndex.Following
import SymbolHistory.Proofs.LineIndex.Refinement

/-!
# What lies ahead in a document

How the extents of a document are divided into runs does not matter to what an index gives as the
extents at or after a line: whatever it leaves out is further away than something that it gives.
This needs that no extent ends before it starts, which holds of an index whose methods were only
ever given spans of that kind, for moving keeps the bounds of extents in order.

## Main definitions

* `LineIndex.Proper`, `LineIndex.Operation.Proper` : no extent, no span ends before it starts.
* `LineIndex.LiesAhead` : what the extents at or after a line have to be.

## Main results

* `LineIndex.proper_of_mem_ofOperations` : proper spans make proper copies.
* `LineIndex.pairwise_nextExtents` : what is given is sorted by first line and method.
* `LineIndex.nextExtents_lie_ahead` : what copies give lies ahead.
-/

namespace SymbolHistory

namespace LineIndex

/-! ### Proper extents -/

/-- No extent ends before it starts. -/
def Proper (index : LineIndex) : Prop :=
  ∀ document, ∀ extent ∈ index.extentsIn document, extent.minLine ≤ extent.maxLine

/-- No span that an operation gives to a method ends before it starts. -/
def Operation.Proper : Operation → Prop
  | .replace _ methods => ∀ new ∈ methods, ∀ span ∈ new.spans, span.minLine ≤ span.maxLine
  | _ => True

/-- The empty index has no extents. -/
theorem proper_empty : empty.Proper := by
  intro document extent mem
  simp [empty, extentsIn] at mem

namespace Proper

variable {index : LineIndex}

/-- Extents that are given to a document have to go forward. -/
theorem setExtents (h : index.Proper) {document : DocumentId} {extents : List Extent}
    (proper : ∀ extent ∈ extents, extent.minLine ≤ extent.maxLine) :
    (index.setExtents document extents).Proper := by
  intro other extent mem
  rw [extentsIn_setExtents] at mem
  split at mem
  · exact proper extent mem
  · exact h other extent mem

/-- Extents that are removed leave proper ones behind. -/
theorem eraseFrom (h : index.Proper) (method : MethodId) (document : DocumentId) :
    (index.eraseFrom method document).Proper :=
  h.setExtents fun extent mem => h document extent (List.mem_filter.1 mem).1

/-- So has a span that is added. -/
theorem addSpan (h : index.Proper) {span : Span} (proper : span.minLine ≤ span.maxLine)
    (method : MethodId) (version : Nat) : (index.addSpan method version span).Proper := by
  refine h.setExtents (List.forall_mem_append.2 ⟨h span.document, ?_⟩)
  exact List.forall_mem_singleton.2 proper

/-- The documents of a method do not matter. -/
theorem setDocuments (h : index.Proper) (method : MethodId) (documents : List DocumentId) :
    (index.setDocuments method documents).Proper := by
  intro document extent mem
  rw [extentsIn_setDocuments] at mem
  exact h document extent mem

/-- Spans that are put in place of others have to go forward, all of them. -/
theorem replace (h : index.Proper) (method : MethodId) (version : Nat) {spans : List Span}
    (proper : ∀ span ∈ spans, span.minLine ≤ span.maxLine) :
    (index.replace method version spans).Proper := by
  refine setDocuments ?_ _ _
  refine List.foldlRecOn spans _ ?_ fun _ h span mem => h.addSpan (proper span mem) method version
  exact List.foldlRecOn _ _ h fun _ h document _ => h.eraseFrom method document

/-- Moving keeps the bounds of extents in order. -/
theorem shift (h : index.Proper) (document : DocumentId) (method : MethodId) (delta : Int32) :
    (index.shift document method delta).Proper := by
  refine h.setExtents (List.forall_mem_map.2 fun extent mem => ?_)
  split
  · exact shiftLine_le_shiftLine (h document extent mem) delta
  · exact h document extent mem

/-- **Operations that give proper spans keep copies proper.** -/
theorem operate {copies : List LineIndex} (h : ∀ index ∈ copies, index.Proper)
    {operation : Operation} (proper : operation.Proper) :
    ∀ index ∈ operate copies operation, index.Proper := by
  have modify : ∀ (copy : Nat) (change : LineIndex → LineIndex),
      (∀ index : LineIndex, index.Proper → (change index).Proper) →
      ∀ index ∈ copies.modify copy change, index.Proper := by
    intro copy change keeps index mem
    obtain ⟨other, found⟩ := List.mem_iff_getElem?.1 mem
    rw [List.getElem?_modify] at found
    obtain ⟨before, at_other, rfl⟩ := Option.map_eq_some_iff.1 found
    have known := h before (List.mem_of_getElem? at_other)
    split
    · exact keeps before known
    · exact known
  cases operation with
  | create => exact List.forall_mem_append.2 ⟨h, List.forall_mem_singleton.2 proper_empty⟩
  | clone copy =>
      refine List.forall_mem_append.2 ⟨h, fun index mem => ?_⟩
      exact h index (List.mem_of_getElem? (Option.mem_toList.1 mem))
  | replace copy methods =>
      exact modify copy _ fun index known =>
        List.foldlRecOn methods _ known fun _ h new mem => h.replace _ _ (proper new mem)
  | shift copy moves =>
      exact modify copy _ fun index known =>
        List.foldlRecOn moves _ known fun _ h move _ => h.shift _ _ _
  | ask copy question => exact modify copy _ fun index known => known

end Proper

/-- **Copies are proper** if methods were only given proper spans. -/
theorem proper_of_mem_ofOperations {operations : List Operation}
    (proper : ∀ operation ∈ operations, operation.Proper) :
    ∀ index ∈ ofOperations operations, index.Proper := by
  induction operations using List.reverseRecOn with
  | nil => exact fun index mem => absurd mem List.not_mem_nil
  | append_singleton operations operation ih =>
      obtain ⟨earlier, last⟩ := List.forall_mem_append.1 proper
      rw [ofOperations, List.foldl_append]
      exact Proper.operate (ih earlier) (last operation List.mem_cons_self)

/-! ### The order of what is given -/

/-- Extents are in order by their first lines, and then by their methods. -/
theorem startLe_trans (a b c : Extent) (h₁ : startLe a b) (h₂ : startLe b c) : startLe a c := by
  rcases a with ⟨⟨method⟩, _, minLine, _⟩
  rcases b with ⟨⟨method'⟩, _, minLine', _⟩
  rcases c with ⟨⟨method''⟩, _, minLine'', _⟩
  simp only [startLe, UInt32.le_iff_toNat_le, ← UInt32.toNat_inj] at h₁ h₂ ⊢
  grind

/-- Any two of them can be compared. -/
theorem startLe_total (a b : Extent) : startLe a b || startLe b a := by
  rcases a with ⟨⟨method⟩, _, minLine, _⟩
  rcases b with ⟨⟨method'⟩, _, minLine', _⟩
  simp only [startLe, UInt32.le_iff_toNat_le, ← UInt32.toNat_inj, Bool.or_eq_true]
  grind

/-- What is given is sorted by first line, and then by method. -/
theorem pairwise_nextExtents (index : LineIndex) (document : DocumentId) (line : UInt32) :
    (index.nextExtents document line).Pairwise fun a b =>
      a.minLine < b.minLine ∨ a.minLine = b.minLine ∧ a.method.val ≤ b.method.val := by
  refine (List.pairwise_mergeSort startLe_trans startLe_total _).imp fun {a b} le => ?_
  simp only [startLe] at le
  split at le
  · next same => exact .inr ⟨same, of_decide_eq_true le⟩
  · next differ => exact .inl (UInt32.lt_of_le_of_ne (of_decide_eq_true le) differ)

/-! ### What copies give -/

/-- What the extents at or after a line have to be, out of the extents of a document. -/
structure LiesAhead (extents : List Extent) (line : UInt32) (given : List Extent) : Prop where
  /-- They are sorted by first line, and then by method. -/
  sorted : given.Pairwise fun a b =>
    a.minLine < b.minLine ∨ a.minLine = b.minLine ∧ a.method.val ≤ b.method.val
  /-- Every extent that contains the line is among them. -/
  covering : ∀ extent ∈ extents, extent.covers line → extent ∈ given
  /-- They are extents of the document, and none ends before the line. -/
  ahead : ∀ extent ∈ given, extent ∈ extents ∧ line ≤ extent.maxLine
  /-- There are none exactly if all extents end before the line. -/
  eq_nil_iff : given = [] ↔ ∀ extent ∈ extents, extent.maxLine < line
  /-- An extent that does not end before the line is among them, or behind one of them. -/
  nearest : ∀ extent ∈ extents, line ≤ extent.maxLine →
    extent ∈ given ∨ ∃ candidate ∈ given, candidate.maxLine < extent.minLine
  /-- That holds also of extents that are there more than once: what does not end before the line
  is given or left out as often as it is there, and what is left out is behind what is given. -/
  accounted : ∃ skipped, (extents.filter (line ≤ ·.maxLine)).Perm (given ++ skipped) ∧
    ∀ extent ∈ skipped, ∃ candidate ∈ given, candidate.maxLine < extent.minLine

/-- **What a proper index gives lies ahead.** -/
theorem Faithful.liesAhead {index : LineIndex} (h : index.Faithful) (proper : index.Proper)
    (document : DocumentId) (line : UInt32) :
    LiesAhead (index.extentsIn document) line (index.nextExtents document line) where
  sorted := index.pairwise_nextExtents document line
  covering extent mem covers := by
    obtain ⟨reached, ahead⟩ := Extent.covers_iff.1 covers
    rcases h.mem_or_exists_before (proper document) mem ahead with given | ⟨candidate, given, ends⟩
    · exact given
    -- What is left out starts behind an extent that does not end before the line.
    · have candidate_ahead := (h.of_mem_nextExtents (proper document) given).2
      have passed := UInt32.lt_of_le_of_lt candidate_ahead (UInt32.lt_of_lt_of_le ends reached)
      exact absurd passed (UInt32.lt_irrefl line)
  ahead extent mem := h.of_mem_nextExtents (proper document) mem
  eq_nil_iff := by
    constructor
    · intro nothing extent mem
      refine UInt32.not_le.1 fun ahead => ?_
      rcases h.mem_or_exists_before (proper document) mem ahead with given | ⟨candidate, given, -⟩
      · exact absurd (nothing ▸ given) List.not_mem_nil
      · exact absurd (nothing ▸ given) List.not_mem_nil
    · intro ended
      refine List.eq_nil_iff_forall_not_mem.2 fun extent given => ?_
      obtain ⟨own, ahead⟩ := h.of_mem_nextExtents (proper document) given
      exact UInt32.not_le.2 (ended extent own) ahead
  nearest extent mem ahead := h.mem_or_exists_before (proper document) mem ahead
  accounted := h.exists_skipped (proper document) line

/-- **What copies give lies ahead**, whatever happened to any of them, if methods were only given
spans that do not end before they start: the extents at or after a line are sorted, all extents on
the line are among them, none ends before the line, and nothing is left out that could be nearer. -/
theorem nextExtents_lie_ahead {operations : List Operation}
    (proper : ∀ operation ∈ operations, operation.Proper) {copy : Nat} {index : LineIndex}
    (found : (ofOperations operations)[copy]? = some index) (document : DocumentId)
    (line : UInt32) :
    LiesAhead (index.extentsIn document) line (index.nextExtents document line) := by
  obtain ⟨history, -, follows⟩ := (following_ofOperations operations).exists_history found
  exact follows.faithful.liesAhead
    (proper_of_mem_ofOperations proper index (List.mem_of_getElem? found)) document line

/-- An index with a method inside another one is copied. The copy is asked, and then gets a method
behind the two, which moves up. -/
def nestedAndBehind : List Operation :=
  [.create, .replace 0 [⟨⟨1⟩, 1, [⟨⟨1⟩, 1, 50⟩]⟩, ⟨⟨2⟩, 1, [⟨⟨1⟩, 10, 12⟩]⟩], .clone 0,
    .ask 1 (.nextExtents ⟨1⟩ 13), .replace 1 [⟨⟨3⟩, 2, [⟨⟨1⟩, 60, 70⟩]⟩],
    .shift 1 [(⟨1⟩, ⟨3⟩, -5)]]

/-- Line 13 is in the outer method and behind the inner one, so the copy gives the outer one and
leaves the inner one out. -/
theorem nextExtents_lie_ahead_nestedAndBehind :
    (∀ operation ∈ nestedAndBehind, operation.Proper) ∧
      ∃ index, (ofOperations nestedAndBehind)[1]? = some index ∧
        LiesAhead (index.extentsIn ⟨1⟩) 13 (index.nextExtents ⟨1⟩ 13) ∧
        ⟨⟨1⟩, 1, 1, 50⟩ ∈ index.nextExtents ⟨1⟩ 13 ∧
        ⟨⟨2⟩, 1, 10, 12⟩ ∈ index.extentsIn ⟨1⟩ ∧ ⟨⟨2⟩, 1, 10, 12⟩ ∉ index.nextExtents ⟨1⟩ 13 := by
  have proper : ∀ operation ∈ nestedAndBehind, operation.Proper := by
    simp [nestedAndBehind, Operation.Proper]
  have found : ∃ index, (ofOperations nestedAndBehind)[1]? = some index := ⟨_, rfl⟩
  obtain ⟨index, found⟩ := found
  have ahead := nextExtents_lie_ahead proper found ⟨1⟩ 13
  obtain ⟨history, known, follows⟩ :=
    (following_ofOperations nestedAndBehind).exists_history found
  obtain rfl := Option.some.inj known
  have represents := follows.same.represents (mirrors_ofChanges _).represents
  have outer : ⟨⟨1⟩, 1, 1, 50⟩ ∈ index.extentsIn ⟨1⟩ :=
    represents.mem_extentsIn_iff.2 (by decide +kernel)
  have inner : ⟨⟨2⟩, 1, 10, 12⟩ ∈ index.extentsIn ⟨1⟩ :=
    represents.mem_extentsIn_iff.2 (by decide +kernel)
  exact ⟨proper, index, found, ahead, ahead.covering _ outer (by decide), inner,
    fun given => absurd (ahead.ahead _ given).2 (by decide)⟩

end LineIndex

end SymbolHistory
