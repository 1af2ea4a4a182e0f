import SymbolHistory.LineIndex.Change
import SymbolHistory.Proofs.Extent.Run
import SymbolHistory.Proofs.Extent.Span
import Mathlib.Logic.Function.Basic

/-!
# What a line index says

A line index keeps the same facts twice: extents by document and documents by method. What it says
is a plain map from methods to their version and spans. Each operation changes that map in the
obvious way, and only the entries of the methods that it is about.

## Main definitions

* `LineIndex.Content` : versions and spans by method.
* `LineIndex.Represents` : an index says what a map says.
* `LineIndex.Content.replaceAll`, `LineIndex.Content.shiftAll` : the operations on maps.

## Main results

* `LineIndex.Represents.replaceAll`, `LineIndex.Represents.shiftAll` : the operations of the index
  are those of the map.
* `LineIndex.Content.replaceAll_of_mem`, `LineIndex.Content.shiftAll_of_filter_eq` : what becomes of
  one method.
* `LineIndex.pairwise_documentsOfSpans` : the documents of a method ascend.
-/

namespace SymbolHistory

namespace LineIndex

/-- The version and the spans of every method; a method without extents has no spans. -/
abbrev Content := MethodId → Nat × List Span

/-- The extents in a document that the version and spans of a method stand for. -/
def extentsOf (method : MethodId) (entry : Nat × List Span) (document : DocumentId) : List Extent :=
  (entry.2.filter (·.document = document)).map fun span =>
    ⟨method, entry.1, span.minLine, span.maxLine⟩

/-- An index says what a map says. -/
structure Represents (index : LineIndex) (content : Content) : Prop where
  /-- The extents of a method stand for its spans. -/
  extents : ∀ method document,
    (index.extentsIn document).filter (·.method = method) =
      extentsOf method (content method) document
  /-- The documents of a method are those of its spans. -/
  documents : ∀ method, index.documents method = documentsOfSpans (content method).2

namespace Content

/-- Nothing has spans. -/
def empty : Content := fun _ => (0, [])

/-- The map after methods got new spans. -/
def replaceAll (content : Content) (methods : List MethodSpans) : Content :=
  methods.foldl (fun content new => Function.update content new.method (new.version, new.spans))
    content

/-- A span after its method moved in a document. -/
def shiftSpan (document : DocumentId) (delta : Int32) (span : Span) : Span :=
  if span.document = document then span.shift delta else span

/-- The map after a method moved in a document. -/
def shift (content : Content) (document : DocumentId) (method : MethodId) (delta : Int32) :
    Content :=
  Function.update content method
    ((content method).1, (content method).2.map (shiftSpan document delta))

/-- The map after methods moved in documents. -/
def shiftAll (content : Content) (moves : List (DocumentId × MethodId × Int32)) : Content :=
  moves.foldl (fun content (document, method, delta) => content.shift document method delta)
    content

end Content

/-! ### Documents of spans -/

/-- Documents without duplicates are there once each. -/
theorem nodup_eraseDups (documents : List DocumentId) : documents.eraseDups.Nodup := by
  induction hn : documents.length using Nat.strongRecOn generalizing documents with
  | ind n ih =>
      cases documents with
      | nil => exact List.nodup_nil
      | cons document documents =>
          have shorter := List.length_filter_le (fun other => !other == document) documents
          rw [List.length_cons] at hn
          rw [List.eraseDups_cons, List.nodup_cons]
          refine ⟨?_, ih _ (by omega) _ rfl⟩
          rw [List.mem_eraseDups, List.mem_filter]
          simp

/-- The documents of spans are the ones that spans are in. -/
theorem mem_documentsOfSpans {spans : List Span} {document : DocumentId} :
    document ∈ documentsOfSpans spans ↔ ∃ span ∈ spans, span.document = document := by
  rw [documentsOfSpans, (List.mergeSort_perm _ _).mem_iff, List.mem_eraseDups, List.mem_map]

/-- The documents of spans ascend. -/
theorem pairwise_documentsOfSpans (spans : List Span) :
    (documentsOfSpans spans).Pairwise (·.val < ·.val) := by
  have sorted : (documentsOfSpans spans).Pairwise (·.val ≤ ·.val) := by
    refine (List.pairwise_mergeSort ?_ ?_ _).imp (by simp)
    · intro a b c h₁ h₂
      simp only [decide_eq_true_eq] at *
      omega
    · intro a b
      simp only [Bool.or_eq_true, decide_eq_true_eq]
      omega
  have distinct : (documentsOfSpans spans).Nodup :=
    (List.mergeSort_perm _ _).nodup_iff.2 (nodup_eraseDups _)
  refine (sorted.and distinct).imp ?_
  rintro ⟨a⟩ ⟨b⟩ ⟨le, ne⟩
  simp only [ne_eq, DocumentId.mk.injEq] at ne
  exact Nat.lt_of_le_of_ne le ne

/-- Spans that move stay in their documents. -/
theorem documentsOfSpans_map_shiftSpan (document : DocumentId) (delta : Int32)
    (spans : List Span) :
    documentsOfSpans (spans.map (Content.shiftSpan document delta)) = documentsOfSpans spans := by
  have same : ∀ span, (Content.shiftSpan document delta span).document = span.document := by
    intro span
    rw [Content.shiftSpan]
    split <;> rfl
  rw [documentsOfSpans, documentsOfSpans, List.map_map]
  simp only [Function.comp_def, same]

/-! ### Replacing spans -/

/-- The empty index has no spans. -/
theorem represents_empty : empty.Represents Content.empty := by
  constructor
  · intro method document
    simp [empty, extentsIn, extentsOf, Content.empty]
  · intro method
    simp [empty, LineIndex.documents, Content.empty, documentsOfSpans]

/-- Remembering runs changes nothing of what an index says. -/
theorem Represents.remember {index : LineIndex} {content : Content} (h : index.Represents content)
    (document : DocumentId) : (index.remember document).Represents content :=
  ⟨h.extents, h.documents⟩

/-- Erasing a method takes its extents from one document. -/
theorem extentsIn_eraseFrom (method : MethodId) (index : LineIndex)
    (document other : DocumentId) :
    (eraseFrom method index document).extentsIn other =
      if document = other then (index.extentsIn other).filter (·.method ≠ method)
      else index.extentsIn other := by
  rw [eraseFrom, extentsIn_setExtents]
  by_cases same : document = other
  · subst same
    rfl
  · rw [if_neg same, if_neg same]

/-- It leaves the lists of documents alone. -/
theorem documents_foldl_eraseFrom (method other : MethodId) (index : LineIndex)
    (documents : List DocumentId) :
    (documents.foldl (eraseFrom method) index).documents other = index.documents other :=
  List.foldlRecOn documents _
    (motive := fun (new : LineIndex) => new.documents other = index.documents other)
    rfl fun _ h _ _ => h

/-- Erasing a method from several documents takes its extents from these. -/
theorem extentsIn_foldl_eraseFrom (method : MethodId) (index : LineIndex)
    (documents : List DocumentId) (other : DocumentId) :
    (documents.foldl (eraseFrom method) index).extentsIn other =
      if other ∈ documents then (index.extentsIn other).filter (·.method ≠ method)
      else index.extentsIn other := by
  induction documents generalizing index with
  | nil => rfl
  | cons document documents ih =>
      rw [List.foldl_cons, ih, extentsIn_eraseFrom]
      by_cases same : document = other
      · subst same
        simp
      · simp [same, Ne.symm same]

/-- Erasing a method from its documents erases it everywhere, for it has no extents elsewhere. -/
theorem Represents.extentsIn_erase {index : LineIndex} {content : Content}
    (h : index.Represents content) (method : MethodId) (document : DocumentId) :
    ((index.documents method).foldl (eraseFrom method) index).extentsIn document =
      (index.extentsIn document).filter (·.method ≠ method) := by
  rw [extentsIn_foldl_eraseFrom]
  split
  · rfl
  · next absent =>
    have none : (index.extentsIn document).filter (·.method = method) = [] := by
      rw [h.extents, extentsOf, List.map_eq_nil_iff, List.filter_eq_nil_iff]
      intro span mem same
      rw [h.documents, mem_documentsOfSpans] at absent
      exact absent ⟨span, mem, of_decide_eq_true same⟩
    rw [List.filter_eq_nil_iff] at none
    rw [List.filter_eq_self.2]
    intro extent mem
    simpa using none extent mem

/-- Spans that are added make extents behind the ones that are there. -/
theorem extentsIn_foldl_addSpan (method : MethodId) (version : Nat) (index : LineIndex)
    (spans : List Span) (document : DocumentId) :
    (spans.foldl (addSpan method version) index).extentsIn document =
      index.extentsIn document ++ extentsOf method (version, spans) document := by
  induction spans generalizing index with
  | nil => simp [extentsOf]
  | cons span spans ih =>
      rw [List.foldl_cons, ih, addSpan, extentsIn_setExtents]
      by_cases same : span.document = document
      · subst same
        simp [extentsOf]
      · simp [extentsOf, same]

/-- They leave the lists of documents alone as well. -/
theorem documents_foldl_addSpan (method other : MethodId) (version : Nat) (index : LineIndex)
    (spans : List Span) :
    (spans.foldl (addSpan method version) index).documents other = index.documents other :=
  List.foldlRecOn spans _
    (motive := fun (new : LineIndex) => new.documents other = index.documents other)
    rfl fun _ h _ _ => h

/-- The extents of a method are its own. -/
theorem extentsOf_filter_method (method other : MethodId) (entry : Nat × List Span)
    (document : DocumentId) :
    (extentsOf method entry document).filter (·.method = other) =
      if method = other then extentsOf method entry document else [] := by
  split
  · next same =>
    rw [List.filter_eq_self]
    intro extent mem
    obtain ⟨span, -, rfl⟩ := List.mem_map.1 mem
    simpa using same
  · next different =>
    rw [List.filter_eq_nil_iff]
    intro extent mem
    obtain ⟨span, -, rfl⟩ := List.mem_map.1 mem
    simpa using different

/-- Giving a method new spans changes its entry in the map and no other. -/
theorem Represents.replace {index : LineIndex} {content : Content} (h : index.Represents content)
    (method : MethodId) (version : Nat) (spans : List Span) :
    (index.replace method version spans).Represents
      (Function.update content method (version, spans)) where
  extents other document := by
    rw [LineIndex.replace, extentsIn_setDocuments, extentsIn_foldl_addSpan, h.extentsIn_erase,
      List.filter_append, List.filter_filter, extentsOf_filter_method]
    by_cases same : method = other
    · subst same
      rw [if_pos rfl, Function.update_self]
      have erased : (index.extentsIn document).filter
          (fun extent => decide (extent.method = method) && decide (extent.method ≠ method)) =
          [] := by
        rw [List.filter_eq_nil_iff]
        simp
      rw [erased, List.nil_append]
    · rw [if_neg same, List.append_nil, Function.update_of_ne (Ne.symm same), ← h.extents]
      congr 1
      funext extent
      by_cases here : extent.method = other
      · simp [here, Ne.symm same]
      · simp [here]
  documents other := by
    rw [LineIndex.replace, documents_setDocuments, documents_foldl_addSpan,
      documents_foldl_eraseFrom, Function.update_apply]
    by_cases same : method = other
    · rw [if_pos same, if_pos same.symm]
    · rw [if_neg same, if_neg (Ne.symm same), h.documents]

/-- Giving methods new spans changes their entries in the map. -/
theorem Represents.replaceAll {index : LineIndex} {content : Content}
    (h : index.Represents content) (methods : List MethodSpans) :
    (index.replaceAll methods).Represents (content.replaceAll methods) := by
  rw [LineIndex.replaceAll, Content.replaceAll]
  induction methods generalizing index content with
  | nil => exact h
  | cons new methods ih => exact ih (h.replace new.method new.version new.spans)

/-! ### Moving methods -/

/-- The extents of moved spans are the moved extents. -/
theorem extentsOf_map_shiftSpan (method : MethodId) (version : Nat) (spans : List Span)
    (document : DocumentId) (delta : Int32) (place : DocumentId) :
    extentsOf method (version, spans.map (Content.shiftSpan document delta)) place =
      if document = place then (extentsOf method (version, spans) place).map (·.shift delta)
      else extentsOf method (version, spans) place := by
  have inside : ((fun span : Span => decide (span.document = place)) ∘
      Content.shiftSpan document delta) = fun span => decide (span.document = place) := by
    funext span
    rw [Function.comp_apply, Content.shiftSpan]
    split <;> rfl
  rw [extentsOf, extentsOf, List.filter_map, inside, List.map_map, List.map_map]
  by_cases here : document = place
  · rw [if_pos here]
    refine List.map_congr_left fun span mem => ?_
    have there : span.document = document :=
      here ▸ of_decide_eq_true (List.mem_filter.1 mem).2
    simp [Content.shiftSpan, there, Extent.shift, Span.shift]
  · rw [if_neg here]
    refine List.map_congr_left fun span mem => ?_
    have there : span.document = place := of_decide_eq_true (List.mem_filter.1 mem).2
    simp [Content.shiftSpan, there, Ne.symm here]

/-- The extents of one method, after some method moved: they have moved if they are its own. -/
theorem filter_map_shift (extents : List Extent) (method other : MethodId) (delta : Int32) :
    (extents.map fun extent => if extent.method = method then extent.shift delta else extent).filter
        (·.method = other) =
      if other = method then (extents.filter (·.method = other)).map (·.shift delta)
      else extents.filter (·.method = other) := by
  have kept : ((fun extent : Extent => decide (extent.method = other)) ∘ fun extent =>
      if extent.method = method then extent.shift delta else extent) =
      fun extent => decide (extent.method = other) := by
    funext extent
    rw [Function.comp_apply]
    split <;> rfl
  rw [List.filter_map, kept]
  split
  · next same =>
    refine List.map_congr_left fun extent mem => ?_
    have own : extent.method = other := of_decide_eq_true (List.mem_filter.1 mem).2
    rw [if_pos (own.trans same)]
  · next different =>
    refine (List.map_congr_left fun extent mem => ?_).trans (List.map_id _)
    have own : extent.method = other := of_decide_eq_true (List.mem_filter.1 mem).2
    rw [if_neg (own ▸ different), id]

/-- Moving a method in a document changes its spans there. -/
theorem Represents.shift {index : LineIndex} {content : Content} (h : index.Represents content)
    (document : DocumentId) (method : MethodId) (delta : Int32) :
    (index.shift document method delta).Represents (content.shift document method delta) where
  extents other place := by
    rw [LineIndex.shift, extentsIn_setExtents, Content.shift, Function.update_apply]
    by_cases here : document = place
    · subst here
      rw [if_pos rfl, filter_map_shift, h.extents]
      by_cases same : other = method
      · subst same
        rw [if_pos rfl, if_pos rfl, extentsOf_map_shiftSpan, if_pos rfl]
      · rw [if_neg same, if_neg same]
    · rw [if_neg here, h.extents]
      by_cases same : other = method
      · subst same
        rw [if_pos rfl, extentsOf_map_shiftSpan, if_neg here]
      · rw [if_neg same]
  documents other := by
    rw [LineIndex.shift, documents_setExtents, h.documents, Content.shift, Function.update_apply]
    by_cases same : other = method
    · subst same
      rw [if_pos rfl, documentsOfSpans_map_shiftSpan]
    · rw [if_neg same]

/-- Moving methods in documents changes their spans there. -/
theorem Represents.shiftAll {index : LineIndex} {content : Content}
    (h : index.Represents content) (moves : List (DocumentId × MethodId × Int32)) :
    (index.shiftAll moves).Represents (content.shiftAll moves) := by
  rw [LineIndex.shiftAll, Content.shiftAll]
  induction moves generalizing index content with
  | nil => exact h
  | cons move moves ih => exact ih (h.shift move.1 move.2.1 move.2.2)

/-! ### One method -/

namespace Content

/-- A method without new spans keeps the ones that it has. -/
theorem replaceAll_of_forall_ne {content : Content} {methods : List MethodSpans}
    {method : MethodId} (h : ∀ new ∈ methods, new.method ≠ method) :
    content.replaceAll methods method = content method := by
  refine List.foldlRecOn methods _
    (motive := fun (after : Content) => after method = content method) rfl ?_
  intro after ih new mem
  rw [Function.update_of_ne (h new mem).symm, ih]

/-- A method with new spans has these, if they are the only ones. -/
theorem replaceAll_of_mem {content : Content} {methods : List MethodSpans} {new : MethodSpans}
    (mem : new ∈ methods)
    (single : ∀ other ∈ methods, other.method = new.method → other = new) :
    content.replaceAll methods new.method = (new.version, new.spans) := by
  -- Only the last of the new spans count, so the list is taken from its end.
  induction methods using List.reverseRecOn with
  | nil => exact absurd mem List.not_mem_nil
  | append_singleton methods last ih =>
      rw [replaceAll, List.foldl_append, List.foldl_cons, List.foldl_nil]
      by_cases same : last.method = new.method
      · obtain rfl := single last (List.mem_append_right _ (List.mem_singleton.2 rfl)) same
        rw [Function.update_self]
      · rw [Function.update_of_ne (Ne.symm same)]
        refine ih ?_ fun other other_mem => single other (List.mem_append_left _ other_mem)
        rcases List.mem_append.1 mem with mem | mem
        · exact mem
        · exact absurd (congrArg MethodSpans.method (List.mem_singleton.1 mem)).symm same

/-- What moves do to the spans of a method: only its own ones matter. -/
theorem shiftAll_apply (content : Content) (moves : List (DocumentId × MethodId × Int32))
    (method : MethodId) :
    content.shiftAll moves method =
      ((content method).1, (moves.filter (·.2.1 = method)).foldl
        (fun spans move => spans.map (shiftSpan move.1 move.2.2)) (content method).2) := by
  rw [shiftAll]
  induction moves generalizing content with
  | nil => rfl
  | cons move moves ih =>
      rcases move with ⟨document, other, delta⟩
      have entry : content.shift document other delta method =
          if method = other then
            ((content other).1, (content other).2.map (shiftSpan document delta))
          else content method := by
        rw [shift, Function.update_apply]
      rw [List.foldl_cons, ih]
      dsimp only
      rw [entry]
      by_cases same : method = other
      · subst same
        rw [if_pos rfl, List.filter_cons_of_pos (by simp), List.foldl_cons]
      · rw [if_neg same, List.filter_cons_of_neg (by simpa using Ne.symm same)]

/-- Moving spans in each of their documents once moves all of them once. -/
theorem foldl_map_shiftSpan {documents : List DocumentId} (nodup : documents.Nodup)
    (spans : List Span) (delta : Int32) :
    documents.foldl (fun spans document => spans.map (shiftSpan document delta)) spans =
      spans.map fun span => if span.document ∈ documents then span.shift delta else span := by
  induction documents generalizing spans with
  | nil => simp
  | cons document documents ih =>
      obtain ⟨fresh, nodup⟩ := List.nodup_cons.1 nodup
      rw [List.foldl_cons, ih nodup, List.map_map]
      refine List.map_congr_left fun span _ => ?_
      rw [Function.comp_apply, shiftSpan]
      by_cases here : span.document = document
      · rw [if_pos here, Span.document_shift, here, if_neg fresh, if_pos List.mem_cons_self]
      · rw [if_neg here]
        simp only [List.mem_cons, here, false_or]

/-- **A method that moves in all its documents moves as a whole.** -/
theorem shiftAll_of_filter_eq {content : Content}
    {moves : List (DocumentId × MethodId × Int32)} {method : MethodId} {delta : Int32}
    (own : moves.filter (·.2.1 = method) =
      (documentsOfSpans (content method).2).map fun document => (document, method, delta)) :
    content.shiftAll moves method =
      ((content method).1, (content method).2.map (·.shift delta)) := by
  have nodup : (documentsOfSpans (content method).2).Nodup :=
    (pairwise_documentsOfSpans _).imp fun lt eq => absurd (eq ▸ lt) (Nat.lt_irrefl _)
  rw [shiftAll_apply, own, List.foldl_map, foldl_map_shiftSpan nodup]
  refine congrArg _ (List.map_congr_left fun span mem => ?_)
  rw [if_pos (mem_documentsOfSpans.2 ⟨span, mem, rfl⟩)]

/-- A method that does not move keeps its spans. -/
theorem shiftAll_of_forall_ne {content : Content}
    {moves : List (DocumentId × MethodId × Int32)} {method : MethodId}
    (h : ∀ move ∈ moves, move.2.1 ≠ method) : content.shiftAll moves method = content method := by
  have none : moves.filter (·.2.1 = method) = [] := by
    rw [List.filter_eq_nil_iff]
    simpa using h
  rw [shiftAll_apply, none, List.foldl_nil]

end Content

end LineIndex

end SymbolHistory
