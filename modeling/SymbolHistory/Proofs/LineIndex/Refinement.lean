import SymbolHistory.Proofs.LineIndex.Copies

/-!
# A line index is a plain map

All that an index knows is, for every method that has spans, one version and a list of spans. New
spans overwrite the entry of their method, and moves change the spans in it. The index spreads the
entries over its documents, so only the order of the extents there depends on what happened when.

## Main definitions

* `LineIndex.SpanMap` : such a map, with `LineIndex.SpanMap.perform` for what happens to it.
* `LineIndex.Change.methods` : the methods that a change is about.
* `LineIndex.Holds` : an index says what a map says.
* `LineIndex.AgreesUpToOrder` : indices that differ at most in the order of extents.
* `LineIndex.ChangesByMethod` : changes are about their own methods and nothing else.

## Main results

* `LineIndex.mirrors_ofChanges` : an index says what its changes make of the map.
* `LineIndex.copies_hold_maps` : that is so for all copies, and changes of them are by method.
-/

namespace SymbolHistory

namespace LineIndex

/-- The version and the spans of every method that has spans. -/
abbrev SpanMap := MethodId → Option (Nat × List Span)

/-- The methods that a change is about. -/
def Change.methods : Change → List MethodId
  | .replace methods => methods.map (·.method)
  | .shift moves => moves.map (·.2.1)
  | .remember _ => []

namespace SpanMap

/-- No method has spans. -/
def empty : SpanMap := fun _ => none

/-- What the map says of each method; a method without an entry has no spans. -/
def content (map : SpanMap) : Content := fun method => (map method).getD (0, [])

/-- The spans of a method. -/
def spans (map : SpanMap) (method : MethodId) : List Span := (map.content method).2

/-- The map after a method got new spans, which are all that it has then. Without new ones it has no
entry. -/
def overwrite (map : SpanMap) (new : MethodSpans) : SpanMap :=
  Function.update map new.method (if new.spans = [] then none else some (new.version, new.spans))

/-- The deltas that moves list for a method in a document, in order. -/
def deltasFor (moves : List (DocumentId × MethodId × Int32)) (method : MethodId)
    (document : DocumentId) : List Int32 :=
  (moves.filter fun move => move.1 = document ∧ move.2.1 = method).map (·.2.2)

/-- The map after moves: every span moves by the deltas that are listed for its method and its
document, one after the other. -/
def move (map : SpanMap) (moves : List (DocumentId × MethodId × Int32)) : SpanMap := fun method =>
  (map method).map fun entry =>
    (entry.1, entry.2.map fun span => (deltasFor moves method span.document).foldl Span.shift span)

/-- The map after a change. -/
def perform (map : SpanMap) : Change → SpanMap
  | .replace methods => methods.foldl overwrite map
  | .shift moves => map.move moves
  | .remember _ => map

/-- The map after changes, from the empty one on. -/
def ofChanges (changes : List Change) : SpanMap :=
  changes.foldl perform empty

/-! ### Changes of a map -/

/-- A change is about no other methods than its own. -/
theorem perform_of_notMem {map : SpanMap} {change : Change} {method : MethodId}
    (h : method ∉ change.methods) : map.perform change method = map method := by
  cases change with
  | replace methods =>
      refine List.foldlRecOn methods _
        (motive := fun (after : SpanMap) => after method = map method) rfl ?_
      intro after ih new mem
      have ne : method ≠ new.method := fun eq => h (eq ▸ List.mem_map_of_mem mem)
      rw [overwrite, Function.update_of_ne ne, ih]
  | shift moves =>
      have none : ∀ document, deltasFor moves method document = [] := by
        intro document
        rw [deltasFor, List.map_eq_nil_iff, List.filter_eq_nil_iff]
        intro move mem listed
        exact h (List.mem_map.2 ⟨move, mem, (of_decide_eq_true listed).2⟩)
      simp only [perform, move, none, List.foldl_nil, List.map_id', Prod.eta, Option.map_id']
  | remember document => rfl

/-- What becomes of a method depends on its own entry only. -/
theorem perform_congr {map other : SpanMap} {method : MethodId} (h : map method = other method)
    (change : Change) : map.perform change method = other.perform change method := by
  cases change with
  | replace methods =>
      rw [perform, perform]
      induction methods generalizing map other with
      | nil => exact h
      | cons new methods ih =>
          refine ih ?_
          rw [overwrite, overwrite, Function.update_apply, Function.update_apply, h]
  | shift moves => rw [perform, perform, move, move, h]
  | remember document => exact h

/-- A method with new spans has these, whatever it had before. -/
theorem foldl_overwrite_of_mem {methods : List MethodSpans} {method : MethodId}
    (mem : method ∈ methods.map (·.method)) (map other : SpanMap) :
    methods.foldl overwrite map method = methods.foldl overwrite other method := by
  induction methods generalizing map other with
  | nil => exact absurd mem List.not_mem_nil
  | cons new methods ih =>
      rw [List.foldl_cons, List.foldl_cons]
      by_cases again : method ∈ methods.map (·.method)
      · exact ih again _ _
      · -- The first of the new spans are the last ones of their method.
        have own : method = new.method := (List.mem_cons.1 mem).resolve_right again
        refine perform_congr ?_ (.replace methods)
        rw [overwrite, overwrite, own, Function.update_self, Function.update_self]

/-- The same new spans once more change nothing. -/
theorem perform_replace_twice (map : SpanMap) (methods : List MethodSpans) :
    (map.perform (.replace methods)).perform (.replace methods) =
      map.perform (.replace methods) := by
  funext method
  by_cases mem : method ∈ methods.map (·.method)
  · exact foldl_overwrite_of_mem mem _ _
  · refine perform_of_notMem ?_
    exact mem

/-- **Changes of different methods can change places.** -/
theorem perform_comm (map : SpanMap) {change other : Change}
    (h : change.methods.Disjoint other.methods) :
    (map.perform change).perform other = (map.perform other).perform change := by
  funext method
  by_cases mem : method ∈ change.methods
  · have absent : method ∉ other.methods := fun also => h mem also
    rw [perform_of_notMem absent]
    exact perform_congr (perform_of_notMem absent).symm change
  · rw [perform_of_notMem mem]
    exact perform_congr (perform_of_notMem mem) other

/-- Moving the spans of a method one document after the other moves each span by its own deltas. -/
theorem foldl_filter_shiftSpan (moves : List (DocumentId × MethodId × Int32)) (method : MethodId)
    (spans : List Span) :
    (moves.filter (·.2.1 = method)).foldl
        (fun spans move => spans.map (Content.shiftSpan move.1 move.2.2)) spans =
      spans.map fun span =>
        (deltasFor moves method span.document).foldl Span.shift span := by
  induction moves generalizing spans with
  | nil => exact (List.map_id _).symm
  | cons move moves ih =>
      rcases move with ⟨document, named, delta⟩
      by_cases own : named = method
      · rw [List.filter_cons_of_pos (by simpa using own), List.foldl_cons, ih, List.map_map]
        refine List.map_congr_left fun span _ => ?_
        rw [Function.comp_apply, Content.shiftSpan]
        by_cases here : span.document = document
        · rw [if_pos here, Span.document_shift, deltasFor, deltasFor,
            List.filter_cons_of_pos (by simp [here, own]), List.map_cons, List.foldl_cons]
        · rw [if_neg here, deltasFor, deltasFor,
            List.filter_cons_of_neg (by simp [Ne.symm here])]
      · rw [List.filter_cons_of_neg (by simpa using own), ih]
        refine List.map_congr_left fun span _ => ?_
        rw [deltasFor, deltasFor, List.filter_cons_of_neg (by simp [own])]

end SpanMap

/-! ### What an index says -/

/-- What an index says of a method without spans does not depend on the version. -/
theorem Represents.congr {index : LineIndex} {content other : Content}
    (h : index.Represents content)
    (same : ∀ method, other method = content method ∨
      (content method).2 = [] ∧ (other method).2 = []) : index.Represents other where
  extents method document := by
    rw [h.extents]
    rcases same method with eq | ⟨none, none'⟩
    · rw [eq]
    · rw [extentsOf, extentsOf, none, none']
      rfl
  documents method := by
    rw [h.documents]
    rcases same method with eq | ⟨none, none'⟩
    · rw [eq]
    · rw [none, none']

/-- Indices with the same content say the same. -/
theorem SameContent.represents {index other : LineIndex} {content : Content}
    (h : SameContent index other) (represents : other.Represents content) :
    index.Represents content where
  extents method document := by rw [h.extentsIn, represents.extents]
  documents method := by rw [h.documents, represents.documents]

/-- An index says what a map says, in which every entry has spans. -/
structure Mirrors (index : LineIndex) (map : SpanMap) : Prop where
  /-- They say the same. -/
  represents : index.Represents map.content
  /-- An entry has spans. -/
  ne_nil : ∀ method entry, map method = some entry → entry.2 ≠ []

namespace Mirrors

variable {index : LineIndex} {map : SpanMap}

theorem overwrite (h : index.Mirrors map) (new : MethodSpans) :
    (index.replace new.method new.version new.spans).Mirrors (map.overwrite new) where
  represents := by
    refine (h.represents.replace new.method new.version new.spans).congr fun method => ?_
    rw [SpanMap.content, SpanMap.overwrite]
    by_cases own : method = new.method
    · subst own
      rw [Function.update_self, Function.update_self]
      by_cases none : new.spans = []
      · exact .inr ⟨none, by rw [if_pos none, Option.getD_none]⟩
      · exact .inl (by rw [if_neg none, Option.getD_some])
    · rw [Function.update_of_ne own, Function.update_of_ne own]
      exact .inl rfl
  ne_nil method entry found := by
    rw [SpanMap.overwrite] at found
    by_cases own : method = new.method
    · subst own
      rw [Function.update_self] at found
      obtain ⟨some, eq⟩ := Option.ite_none_left_eq_some.1 found
      obtain rfl := Option.some.inj eq
      exact some
    · rw [Function.update_of_ne own] at found
      exact h.ne_nil method entry found

theorem move (h : index.Mirrors map) (moves : List (DocumentId × MethodId × Int32)) :
    (index.shiftAll moves).Mirrors (map.move moves) where
  represents := by
    refine (h.represents.shiftAll moves).congr fun method => .inl ?_
    rw [Content.shiftAll_apply, SpanMap.foldl_filter_shiftSpan, SpanMap.content, SpanMap.content,
      SpanMap.move]
    cases map method with
    | none => rfl
    | some entry => rfl
  ne_nil method entry found := by
    rw [SpanMap.move, Option.map_eq_some_iff] at found
    obtain ⟨before, known, rfl⟩ := found
    rw [ne_eq, List.map_eq_nil_iff]
    exact h.ne_nil method before known

/-- **A change of the index changes the map alike.** -/
theorem perform (h : index.Mirrors map) (change : Change) :
    (index.perform change).Mirrors (map.perform change) := by
  cases change with
  | replace methods =>
      rw [LineIndex.perform, SpanMap.perform, replaceAll]
      induction methods generalizing index map with
      | nil => exact h
      | cons new methods ih => exact ih (h.overwrite new)
  | shift moves => exact h.move moves
  | remember document => exact ⟨h.represents.remember document, h.ne_nil⟩

end Mirrors

/-- **An index says what its changes make of the empty map.** -/
theorem mirrors_ofChanges (changes : List Change) :
    (ofChanges changes).Mirrors (SpanMap.ofChanges changes) := by
  induction changes using List.reverseRecOn with
  | nil => exact ⟨represents_empty, fun method entry found => by cases found⟩
  | append_singleton changes change ih =>
      rw [ofChanges, SpanMap.ofChanges, List.foldl_append, List.foldl_append]
      exact ih.perform change

/-! ### Extents up to order -/

/-- Extents are the same up to order if those of every method are. -/
theorem perm_of_filter_method {extents others : List Extent}
    (h : ∀ method, (extents.filter (·.method = method)).Perm
      (others.filter (·.method = method))) : extents.Perm others := by
  rw [List.perm_iff_count]
  intro extent
  have own := (h extent.method).count_eq extent
  rwa [List.count_filter (by simp), List.count_filter (by simp)] at own

/-- Among what methods stand for, the extents of one of them are what it stands for. -/
theorem filter_flatMap_extentsOf {methods : List MethodId} (nodup : methods.Nodup)
    (content : Content) (document : DocumentId) (method : MethodId) :
    (methods.flatMap fun other => extentsOf other (content other) document).filter
        (·.method = method) =
      if method ∈ methods then extentsOf method (content method) document else [] := by
  induction methods with
  | nil => rfl
  | cons first methods ih =>
      obtain ⟨fresh, nodup⟩ := List.nodup_cons.1 nodup
      rw [List.flatMap_cons, List.filter_append, extentsOf_filter_method, ih nodup]
      by_cases same : first = method
      · subst same
        rw [if_pos rfl, if_neg fresh, List.append_nil, if_pos List.mem_cons_self]
      · rw [if_neg same, List.nil_append]
        simp only [List.mem_cons, Ne.symm same, false_or]

/-- An index says what a map says. -/
structure Holds (index : LineIndex) (map : SpanMap) : Prop where
  /-- The extents in a document are, up to order, those that the entries of the map stand for. -/
  extents_perm : ∃ methods : List MethodId, methods.Nodup ∧
    (∀ method, method ∈ methods ↔ (map method).isSome) ∧
    ∀ document, (index.extentsIn document).Perm
      (methods.flatMap fun method => extentsOf method (map.content method) document)
  /-- The documents of a method ascend. -/
  documents_ascend : ∀ method, (index.documents method).Pairwise (·.val < ·.val)
  /-- They are those of its spans. -/
  mem_documents_iff : ∀ method document,
    document ∈ index.documents method ↔ ∃ span ∈ map.spans method, span.document = document
  /-- The lines of a method in a document are those of its first span there. -/
  lines?_eq : ∀ method document, index.lines? method document =
    ((map.spans method).find? (·.document = document)).map fun span => (span.minLine, span.maxLine)

theorem Mirrors.holds {index : LineIndex} {map : SpanMap} (h : index.Mirrors map) :
    index.Holds map where
  extents_perm := by
    -- A method with an entry has documents, so it is among the methods that the index lists.
    have listed : ∀ method, (map method).isSome → method ∈ index.byMethod.keys := by
      intro method some
      obtain ⟨entry, found⟩ := Option.isSome_iff_exists.1 some
      obtain ⟨span, mem⟩ := List.exists_mem_of_ne_nil _ (h.ne_nil method entry found)
      have documents := h.represents.documents method
      rw [SpanMap.content, found, Option.getD_some] at documents
      have there : span.document ∈ index.documents method :=
        documents ▸ mem_documentsOfSpans.2 ⟨span, mem, rfl⟩
      by_contra absent
      rw [LineIndex.documents, Std.HashMap.getD_eq_fallback (Std.HashMap.mem_keys.not.1 absent)]
        at there
      exact List.not_mem_nil there
    have nodup : (index.byMethod.keys.filter fun method => (map method).isSome).Nodup :=
      Std.HashMap.nodup_keys.sublist List.filter_sublist
    refine ⟨_, nodup, fun method => ?_, fun document => perm_of_filter_method fun method => ?_⟩
    · rw [List.mem_filter]
      exact ⟨fun mem => mem.2, fun some => ⟨listed method some, some⟩⟩
    · rw [h.represents.extents, filter_flatMap_extentsOf nodup]
      by_cases some : (map method).isSome
      · rw [if_pos (List.mem_filter.2 ⟨listed method some, some⟩)]
      · have absent : method ∉ index.byMethod.keys.filter fun method => (map method).isSome :=
          fun mem => some (List.mem_filter.1 mem).2
        rw [if_neg absent, SpanMap.content, Option.not_isSome_iff_eq_none.1 some]
        rfl
  documents_ascend method := by
    rw [h.represents.documents]
    exact pairwise_documentsOfSpans _
  mem_documents_iff method document := by
    rw [h.represents.documents, mem_documentsOfSpans, SpanMap.spans]
  lines?_eq := h.represents.lines?_eq

/-- Indices that differ at most in the order of the extents in a document. -/
structure AgreesUpToOrder (index other : LineIndex) : Prop where
  /-- They have the same extents up to order. -/
  extents_perm : ∀ document, (index.extentsIn document).Perm (other.extentsIn document)
  /-- Methods have the same documents. -/
  documents_eq : ∀ method, index.documents method = other.documents method
  /-- Methods have the same lines. -/
  lines?_eq : ∀ method document, index.lines? method document = other.lines? method document

/-- Indices that say the same agree up to order. -/
theorem Represents.agreesUpToOrder {index other : LineIndex} {content : Content}
    (h : index.Represents content) (h' : other.Represents content) :
    index.AgreesUpToOrder other where
  extents_perm document := perm_of_filter_method fun method => by rw [h.extents, h'.extents]
  documents_eq method := by rw [h.documents, h'.documents]
  lines?_eq method document := by rw [h.lines?_eq, h'.lines?_eq]

/-! ### Changes by method -/

/-- The extents in a document after a method got new spans. -/
theorem Represents.extentsIn_replace {index : LineIndex} {content : Content}
    (h : index.Represents content) (method : MethodId) (version : Nat) (spans : List Span)
    (document : DocumentId) :
    (index.replace method version spans).extentsIn document =
      (index.extentsIn document).filter (·.method ≠ method) ++
        extentsOf method (version, spans) document := by
  rw [LineIndex.replace, extentsIn_setDocuments, extentsIn_foldl_addSpan, h.extentsIn_erase]

/-- New spans of a method leave the extents of others where they are. -/
theorem Represents.filter_extentsIn_replace {index : LineIndex} {content : Content}
    (h : index.Represents content) {methods : List MethodId} {method : MethodId}
    (mem : method ∈ methods) (version : Nat) (spans : List Span) (document : DocumentId) :
    ((index.replace method version spans).extentsIn document).filter (·.method ∉ methods) =
      (index.extentsIn document).filter (·.method ∉ methods) := by
  have own : (extentsOf method (version, spans) document).filter (·.method ∉ methods) = [] := by
    rw [List.filter_eq_nil_iff]
    intro extent extent_mem
    obtain ⟨span, -, rfl⟩ := List.mem_map.1 extent_mem
    simpa using mem
  rw [h.extentsIn_replace, List.filter_append, own, List.append_nil, List.filter_filter]
  refine List.filter_congr fun extent _ => ?_
  by_cases other : extent.method ∈ methods
  · simp [other]
  · simp [other, ne_of_mem_of_not_mem mem other |>.symm]

/-- Moving a method leaves the extents of others where they are. -/
theorem filter_extentsIn_shift (index : LineIndex) {methods : List MethodId} {method : MethodId}
    (mem : method ∈ methods) (document : DocumentId) (delta : Int32) (place : DocumentId) :
    ((index.shift document method delta).extentsIn place).filter (·.method ∉ methods) =
      (index.extentsIn place).filter (·.method ∉ methods) := by
  rw [LineIndex.shift, extentsIn_setExtents]
  by_cases here : document = place
  · subst here
    have still : ((fun extent : Extent => decide (extent.method ∉ methods)) ∘ fun extent =>
        if extent.method = method then extent.shift delta else extent) =
        fun extent => decide (extent.method ∉ methods) := by
      funext extent
      rw [Function.comp_apply]
      split <;> rfl
    rw [if_pos rfl, List.filter_map, still]
    refine (List.map_congr_left fun extent extent_mem => ?_).trans (List.map_id _)
    have other : extent.method ≠ method := by
      rintro rfl
      exact of_decide_eq_true (List.mem_filter.1 extent_mem).2 mem
    rw [if_neg other, id]
  · rw [if_neg here]

/-- **A change leaves the extents of other methods where they are**, in the same order. -/
theorem Represents.filter_extentsIn_perform {index : LineIndex} {content : Content}
    (h : index.Represents content) (change : Change) (document : DocumentId) :
    ((index.perform change).extentsIn document).filter (·.method ∉ change.methods) =
      (index.extentsIn document).filter (·.method ∉ change.methods) := by
  cases change with
  | replace methods =>
      refine (List.foldlRecOn methods _
        (motive := fun (after : LineIndex) => (∃ content, after.Represents content) ∧
          (after.extentsIn document).filter (·.method ∉ methods.map (·.method)) =
            (index.extentsIn document).filter (·.method ∉ methods.map (·.method)))
        ⟨⟨content, h⟩, rfl⟩ ?_).2
      rintro after ⟨⟨said, represents⟩, ih⟩ new mem
      refine ⟨⟨_, represents.replace new.method new.version new.spans⟩, ?_⟩
      rw [represents.filter_extentsIn_replace (List.mem_map_of_mem mem), ih]
  | shift moves =>
      refine List.foldlRecOn moves _
        (motive := fun (after : LineIndex) =>
          (after.extentsIn document).filter (·.method ∉ moves.map (·.2.1)) =
            (index.extentsIn document).filter (·.method ∉ moves.map (·.2.1)))
        rfl ?_
      intro after ih move mem
      have moved : move.2.1 ∈ moves.map (·.2.1) := List.mem_map_of_mem mem
      rw [filter_extentsIn_shift after moved, ih]
  | remember place => rfl

/-- Changes of an index are about their own methods and nothing else. -/
structure ChangesByMethod (index : LineIndex) : Prop where
  /-- Other methods keep their extents, in the same order. -/
  others_kept : ∀ (change : Change) (document : DocumentId),
    ((index.perform change).extentsIn document).filter (·.method ∉ change.methods) =
      (index.extentsIn document).filter (·.method ∉ change.methods)
  /-- New spans of a method leave nothing of older ones behind, in any document. -/
  own_replaced : ∀ method version spans document,
    ((index.replace method version spans).extentsIn document).filter (·.method = method) =
      extentsOf method (version, spans) document
  /-- The same new spans once more change at most the order of extents. -/
  replace_twice : ∀ methods, AgreesUpToOrder
    ((index.replaceAll methods).replaceAll methods) (index.replaceAll methods)
  /-- Changes of different methods can change places. -/
  perform_comm : ∀ change other : Change, change.methods.Disjoint other.methods →
    AgreesUpToOrder ((index.perform change).perform other) ((index.perform other).perform change)

theorem Mirrors.changesByMethod {index : LineIndex} {map : SpanMap} (h : index.Mirrors map) :
    index.ChangesByMethod where
  others_kept := h.represents.filter_extentsIn_perform
  own_replaced method version spans document := by
    rw [(h.represents.replace method version spans).extents, Function.update_self]
  replace_twice methods := by
    have once := h.perform (.replace methods)
    have twice := once.perform (.replace methods)
    rw [map.perform_replace_twice] at twice
    exact twice.represents.agreesUpToOrder once.represents
  perform_comm change other disjoint := by
    have first := (h.perform change).perform other
    rw [map.perform_comm disjoint] at first
    exact first.represents.agreesUpToOrder ((h.perform other).perform change).represents

/-- **Copies hold plain maps**, after any operations on any of them. What a copy says is what its
own changes make of the empty map, and further changes of it are about their own methods only. -/
theorem copies_hold_maps {operations : List Operation} {copy : Nat} {index : LineIndex}
    (found : (ofOperations operations)[copy]? = some index) :
    (∃ history, (historiesOf operations)[copy]? = some history ∧
      index.Holds (SpanMap.ofChanges history)) ∧ index.ChangesByMethod := by
  obtain ⟨history, known, follows⟩ := (following_ofOperations operations).exists_history found
  have said := mirrors_ofChanges history
  have mirrors : index.Mirrors (SpanMap.ofChanges history) :=
    ⟨follows.same.represents said.represents, said.ne_nil⟩
  exact ⟨⟨history, known, mirrors.holds⟩, mirrors.changesByMethod⟩

/-- A method with two spans in one document moves there, and its copy gets a shorter body. -/
def moveAndShorten : List Operation :=
  [.create,
    .replace 0 [⟨⟨1⟩, 1, [⟨⟨2⟩, 10, 20⟩, ⟨⟨1⟩, 3, 4⟩, ⟨⟨2⟩, 30, 31⟩]⟩, ⟨⟨2⟩, 1, [⟨⟨2⟩, 12, 14⟩]⟩],
    .shift 0 [(⟨2⟩, ⟨1⟩, 5), (⟨1⟩, ⟨2⟩, 7), (⟨2⟩, ⟨1⟩, -40)], .clone 0,
    .replace 1 [⟨⟨1⟩, 2, [⟨⟨1⟩, 6, 6⟩]⟩]]

/-- The spans stop at line 0, and the copy has left the second document. -/
theorem copies_hold_maps_moveAndShorten :
    ∃ index other, (ofOperations moveAndShorten)[0]? = some index ∧
      (ofOperations moveAndShorten)[1]? = some other ∧ index.ChangesByMethod ∧
      other.ChangesByMethod ∧ index.lines? ⟨1⟩ ⟨2⟩ = some (0, 0) ∧ other.lines? ⟨1⟩ ⟨2⟩ = none ∧
      other.lines? ⟨1⟩ ⟨1⟩ = some (6, 6) := by
  have found : ∃ index, (ofOperations moveAndShorten)[0]? = some index := ⟨_, rfl⟩
  have found' : ∃ index, (ofOperations moveAndShorten)[1]? = some index := ⟨_, rfl⟩
  obtain ⟨index, found⟩ := found
  obtain ⟨other, found'⟩ := found'
  obtain ⟨⟨history, known, holds⟩, changes⟩ := copies_hold_maps found
  obtain ⟨⟨history', known', holds'⟩, changes'⟩ := copies_hold_maps found'
  obtain rfl := Option.some.inj known
  obtain rfl := Option.some.inj known'
  refine ⟨index, other, found, found', changes, changes', ?_, ?_, ?_⟩
  · rw [holds.lines?_eq]
    decide +kernel
  · rw [holds'.lines?_eq]
    decide +kernel
  · rw [holds'.lines?_eq]
    decide +kernel

end LineIndex

end SymbolHistory
