import SymbolHistory.Proofs.Session.DocumentAnswers
import SymbolHistory.Proofs.Session.NextLine

/-!
# Whose points can be had

An update is only taken in if the visible points of its bodies are in documents that it has. Hidden
points have no part in that, for extents do not contain them. But a question about the points of a
method is about all of them, and each has to have a document. So a method can be on a line and have
a line table that can be read, and its points can still not be had: if a hidden one is in a document
row that the generation does not have.

## Main definitions

* `Snapshot.PointsAnswered` : what a question about the points of a method is answered from.

## Main results

* `Snapshot.points?_eq_mapM` : the points of a method with a line table, by its debug information.
* `Session.points?_of_lineTable` : which answers there are, in every version of every session.
* `Session.exists_on_line_without_points` : a method on a line whose points cannot be had.
-/

namespace SymbolHistory

/-! ### Rows -/

/-- A generation knows the documents of its own rows, and of no others. -/
theorem Snapshot.IdentifiesDocuments.isSome_documentId?_iff {snapshot : Snapshot}
    (h : snapshot.IdentifiesDocuments) {number : Nat} {owner : Generation}
    (owned : snapshot.generation? number = some owner) (row : UInt32) :
    (owner.documentId? row).isSome ↔ (owner.metadata.document? row).isSome := by
  have rows := h.documentId?_iff number owner owned row
  rw [Option.isSome_iff_exists, Option.isSome_iff_exists]
  constructor
  · rintro ⟨id, found⟩
    obtain ⟨document, declared, -⟩ := (rows id).1 found
    exact ⟨document, declared⟩
  · rintro ⟨document, declared⟩
    have known : document ∈ owner.metadata.documents :=
      Array.mem_of_getElem? (Option.ite_none_left_eq_some.1 declared).2
    have place : owner ∈ snapshot.generations :=
      Array.mem_of_getElem? (Option.ite_none_left_eq_some.1 owned).2
    have name_mem : document.name ∈ snapshot.declaredNames :=
      List.mem_eraseDups.2 (List.mem_flatMap.2 ⟨owner, Array.mem_toList_iff.2 place,
        List.mem_map_of_mem (Array.mem_toList_iff.2 known)⟩)
    obtain ⟨i, at_index⟩ := List.mem_iff_getElem?.1 name_mem
    refine ⟨⟨i + 1⟩, (rows _).2 ⟨document, declared, ?_⟩⟩
    rw [h.path?_eq, if_neg (Nat.succ_ne_zero i)]
    exact at_index

namespace Snapshot

/-- Moving points leaves them in their rows. -/
theorem map_document_moved (deltas : Option LineDeltas) (points : List SequencePoint) :
    (moved deltas points).map (·.document) = points.map (·.document) := by
  cases deltas with
  | none => rfl
  | some deltas =>
      apply List.ext_getElem?
      intro index
      rw [moved, List.getElem?_map, LineDeltas.getElem?_apply, Option.map_map, List.getElem?_map]
      rfl

theorem forall_mem_moved_iff {deltas : Option LineDeltas} {points : List SequencePoint}
    {p : UInt32 → Prop} :
    (∀ point ∈ moved deltas points, p point.document) ↔ ∀ point ∈ points, p point.document := by
  have rows : ∀ points : List SequencePoint,
      (∀ point ∈ points, p point.document) ↔ ∀ row ∈ points.map (·.document), p row :=
    fun points => List.forall_mem_map.symm
  rw [rows, rows, map_document_moved]

section Documents

variable {documentOf : UInt32 → Option DocumentId} {points : List SequencePoint}

/-- Points with their documents are the points, in the same order, each with the document that its
row is. -/
theorem mapM_documentOf_eq_some_iff {entries : List (DocumentId × SequencePoint)} :
    (points.mapM fun point => do return (← documentOf point.document, point)) = some entries ↔
      entries.map (·.2) = points ∧
        ∀ entry ∈ entries, documentOf entry.2.document = some entry.1 := by
  induction points generalizing entries with
  | nil =>
      rw [List.mapM_nil, List.map_eq_nil_iff]
      constructor
      · rintro ⟨⟩
        exact ⟨rfl, by simp⟩
      · rintro ⟨rfl, -⟩
        rfl
  | cons point points ih =>
      rw [List.mapM_cons, Option.bind_eq_bind, Option.bind_eq_some_iff]
      constructor
      · rintro ⟨entry, own, rest⟩
        obtain ⟨document, known, eq⟩ := Option.bind_eq_some_iff.1 own
        obtain rfl := Option.some.inj eq
        obtain ⟨others, resolved, eq⟩ := Option.bind_eq_some_iff.1 rest
        obtain rfl := Option.some.inj eq
        obtain ⟨same, each⟩ := ih.1 resolved
        exact ⟨congrArg _ same, List.forall_mem_cons.2 ⟨known, each⟩⟩
      · rintro ⟨same, each⟩
        rcases entries with _ | ⟨⟨document, _⟩, others⟩
        · cases same
        · rw [List.map_cons] at same
          obtain ⟨rfl, tail⟩ := List.cons.inj same
          obtain ⟨known, each⟩ := List.forall_mem_cons.1 each
          refine ⟨(document, _), Option.bind_eq_some_iff.2 ⟨document, known, rfl⟩, ?_⟩
          exact Option.bind_eq_some_iff.2 ⟨others, ih.2 ⟨tail, each⟩, rfl⟩

/-- All points have documents exactly if their rows are known. -/
theorem isSome_mapM_documentOf_iff :
    (points.mapM fun (point : SequencePoint) => do
      return (← documentOf point.document, point)).isSome ↔
      ∀ point ∈ points, (documentOf point.document).isSome := by
  rw [Option.isSome_iff_exists]
  simp only [mapM_documentOf_eq_some_iff]
  constructor
  · rintro ⟨entries, rfl, each⟩ point mem
    obtain ⟨entry, entry_mem, rfl⟩ := List.mem_map.1 mem
    exact Option.isSome_of_mem (each entry entry_mem)
  · intro known
    refine ⟨points.attach.map fun point =>
      ((documentOf point.1.document).get (known point.1 point.2), point.1), ?_, ?_⟩
    · rw [List.map_map]
      exact List.attach_map_subtype_val points
    · intro entry mem
      obtain ⟨point, -, rfl⟩ := List.mem_map.1 mem
      exact (Option.some_get _).symm

end Documents

/-! ### Points of one method -/

/-- What a question about the points of a method is answered from: the points that the debug
information says which `owner` has of it. -/
structure PointsAnswered (snapshot : Snapshot) (method : MethodId) (owner : Generation)
    (points : List SequencePoint) : Prop where
  /-- The visible points are in documents of the owner. -/
  visible : ∀ point ∈ points, ¬point.isHidden → (owner.metadata.document? point.document).isSome
  /-- An answer has all points, in the same order, where they are now, and each with the document
  that its row is. -/
  answer_iff : ∀ entries, snapshot.points? method = some entries ↔
    entries.map (·.2) = moved (snapshot.deltas? method) points ∧
      ∀ entry ∈ entries, owner.documentId? entry.2.document = some entry.1
  /-- There is an answer exactly if the hidden points are in documents of the owner too. -/
  isSome_iff : (snapshot.points? method).isSome ↔
    ∀ point ∈ points, point.isHidden → (owner.metadata.document? point.document).isSome

variable {snapshot : Snapshot} {method : MethodId} {place : MethodPlace} {owner : Generation}
  {record : MethodDebug} {points : List SequencePoint}

/-- The points of a method with a line table, by its debug information. -/
theorem points?_eq_mapM (placed : snapshot.place? method = some place)
    (owned : snapshot.generation? place.generation = some owner)
    (found : owner.metadata.method? place.row = some record) (stored : record.lineTable.isSome)
    (decoded : record.points = .ok points) :
    snapshot.points? method = (moved (snapshot.deltas? method) points).mapM fun point => do
      return (← owner.documentId? point.document, point) := by
  obtain ⟨bytes, stored⟩ := Option.isSome_iff_exists.1 stored
  rw [points?, placed, Option.bind_eq_bind, Option.bind_some, owned, Option.bind_eq_bind,
    Option.bind_some, found, Option.bind_eq_bind, Option.bind_some, stored, Option.bind_eq_bind,
    Option.bind_some, decoded]
  rfl

/-- A sound version answers a question about points from the debug information, if its generations
know their documents. -/
theorem Sound.pointsAnswered (h : snapshot.Sound) (identifies : snapshot.IdentifiesDocuments)
    (placed : snapshot.place? method = some place)
    (owned : snapshot.generation? place.generation = some owner)
    (found : owner.metadata.method? place.row = some record) (stored : record.lineTable.isSome) :
    ∃ points, record.points = .ok points ∧ snapshot.PointsAnswered method owner points := by
  obtain ⟨-, content, -, tracks⟩ := h
  obtain ⟨same, points, lines⟩ := tracks.known method place placed
  obtain rfl := Option.some.inj (lines.at_place.owner_at.symm.trans owned)
  obtain ⟨other, found', decoded⟩ := lines.at_place.decoded
  obtain rfl := Option.some.inj (found'.symm.trans found)
  have rows := identifies.isSome_documentId?_iff owned
  have visible : ∀ point ∈ points, ¬point.isHidden →
      (same.metadata.document? point.document).isSome := by
    intro point mem shown
    refine (rows _).1 (lines.rowsKnown point mem ?_)
    rwa [SequencePoint.isHidden, Bool.not_eq_true, Option.isNone_eq_false_iff] at shown
  have eq := points?_eq_mapM placed owned found stored decoded
  refine ⟨points, decoded, visible, fun entries => ?_, ?_⟩
  · rw [eq, mapM_documentOf_eq_some_iff]
  · rw [eq, isSome_mapM_documentOf_iff,
      forall_mem_moved_iff (p := fun row => (same.documentId? row).isSome)]
    constructor
    · exact fun known point mem _ => (rows _).1 (known point mem)
    · intro known point mem
      by_cases hidden : point.isHidden
      · exact (rows _).2 (known point mem hidden)
      · exact (rows _).2 (visible point mem hidden)

/-- A method on a line has a line table. -/
theorem LinesAnswered.exists_lineTable (h : snapshot.LinesAnswered) {document : DocumentId}
    {line : UInt32} {generation : Nat}
    (hit : (method, generation) ∈ snapshot.methodsOn document line) :
    ∃ place owner record, snapshot.place? method = some place ∧
      snapshot.generation? place.generation = some owner ∧
      owner.metadata.method? place.row = some record ∧ record.lineTable.isSome := by
  obtain ⟨place, ranges, first, last, placed, -, visible, bounds, -⟩ :=
    (h.mem_hits_iff document line method generation).1 hit
  obtain ⟨_, placed', rest⟩ := Option.bind_eq_some_iff.1 visible
  obtain rfl := Option.some.inj (placed'.symm.trans placed)
  obtain ⟨owner, owned, rest⟩ := Option.bind_eq_some_iff.1 rest
  obtain ⟨record, found, rest⟩ := Option.bind_eq_some_iff.1 rest
  obtain ⟨points, decoded, resolved⟩ := Option.bind_eq_some_iff.1 rest
  refine ⟨_, owner, record, placed, owned, found, ?_⟩
  by_contra absent
  -- Without a line table there are no points, and so no ranges.
  rw [Bool.not_eq_true, Option.isSome_eq_false_iff, Option.isNone_iff_eq_none] at absent
  obtain rfl : [] = points := by
    rw [MethodDebug.points, absent] at decoded
    exact Option.some.inj decoded
  have none_visible : moved (snapshot.deltas? method) [] = [] := by
    cases snapshot.deltas? method <;> rfl
  rw [none_visible] at resolved
  obtain rfl := Option.some.inj resolved
  obtain ⟨range, mem, -⟩ := bounds.minLine_mem
  exact List.not_mem_nil mem

end Snapshot

namespace Session

/-- **Which answers there are to questions about points**, in every version of every session and
whatever happened to it, as long as the rows of updates are numbered. The debug information of a
method with a line table can be read, and its points can be had exactly if its hidden points, too,
are in documents of the generation that owns it. Then they are all there, in order, where they are
now. Every method on a line is such a method. -/
theorem points?_of_lineTable {events : List Event}
    (numbered : ∀ update, .offer update ∈ events → update.metadata.Numbered) {version : Nat}
    {snapshot : Snapshot} (known : (ofEvents events).at? version = some snapshot) :
    (∀ method place owner record, snapshot.place? method = some place →
      snapshot.generation? place.generation = some owner →
      owner.metadata.method? place.row = some record → record.lineTable.isSome →
      ∃ points, record.points = .ok points ∧ snapshot.PointsAnswered method owner points) ∧
    ∀ document line method generation, (method, generation) ∈ snapshot.methodsOn document line →
      ∃ place owner record, snapshot.place? method = some place ∧
        snapshot.generation? place.generation = some owner ∧
        owner.metadata.method? place.row = some record ∧ record.lineTable.isSome := by
  have sound := sound_ofEvents numbered version snapshot known
  have identifies := (documented_ofEvents numbered).identifiesDocuments known
  exact ⟨fun method place owner record => sound.pointsAnswered identifies,
    fun document line method generation => sound.linesAnswered.exists_lineTable⟩

/-! ### Programs with one method -/

/-- The visible ranges of the method are those of its points, which have not moved. -/
theorem visibleRanges?_ofLineTable {stored : List UInt8} {points : List SequencePoint}
    {range : SourceRange} {owner : Generation}
    (decoded : (MethodDebug.ofLineTable 1 1 (some stored)).points = .ok points)
    (ranges : SequencePoint.visibleRanges points = [(1, range)])
    (metadata : owner.metadata = (ofLineTable stored).metadata)
    (identifies : Snapshot.IdentifiesDocuments ⟨#[owner], owner.state⟩)
    (placed : Snapshot.place? ⟨#[owner], owner.state⟩ ⟨1⟩ = some ⟨1, 1⟩)
    (still : Snapshot.deltas? ⟨#[owner], owner.state⟩ ⟨1⟩ = none) :
    Snapshot.visibleRanges? ⟨#[owner], owner.state⟩ ⟨1⟩ = some [(⟨1⟩, range)] := by
  have found : owner.metadata.method? 1 = some (.ofLineTable 1 1 (some stored)) := by
    rw [metadata]
    rfl
  have owned : Snapshot.generation? ⟨#[owner], owner.state⟩ 1 = some owner := rfl
  rw [Snapshot.visibleRanges?, placed, Option.bind_eq_bind, Option.bind_some, owned,
    Option.bind_eq_bind, Option.bind_some, found, Option.bind_eq_bind, Option.bind_some, decoded,
    still]
  change resolveRanges owner.documentId? (SequencePoint.visibleRanges points) = _
  rw [ranges, resolveRanges_cons, documentId?_ofLineTable metadata identifies]
  rfl

/-- What is known of a program with one method once its symbols are taken in: its debug information,
which has not moved, and that it is on the line of its only visible point. -/
theorem exists_at?_ofLineTable {stored : List UInt8} {points : List SequencePoint}
    {range : SourceRange}
    (decoded : (MethodDebug.ofLineTable 1 1 (some stored)).points = .ok points)
    (visible : ∀ point ∈ points, point.range.isSome → point.document = 1)
    (ranges : SequencePoint.visibleRanges points = [(1, range)])
    (forward : range.startLine ≤ range.endLine) :
    ∃ snapshot owner, (ofEvents [.offer (ofLineTable stored)]).at? 1 = some snapshot ∧
      snapshot.place? ⟨1⟩ = some ⟨1, 1⟩ ∧ snapshot.generation? 1 = some owner ∧
      owner.metadata = (ofLineTable stored).metadata ∧
      (⟨1⟩, 1) ∈ snapshot.methodsOn ⟨1⟩ range.startLine := by
  have own := numbered_ofLineTable stored
  have numbered := numbered_singleton own
  obtain ⟨owner, session, metadata, placed, still, -⟩ := exists_known_ofLineTable decoded visible
  have known := at?_of_ofEvents_eq session
  have sound := sound_ofEvents numbered 1 _ known
  have identifies := (documented_ofEvents numbered).identifiesDocuments known
  refine ⟨_, owner, known, placed, rfl, metadata, ?_⟩
  have resolved := visibleRanges?_ofLineTable decoded ranges metadata identifies placed still
  have bounds : Span.Bounds ⟨⟨1⟩, range.startLine, range.endLine⟩ [(⟨1⟩, range)] :=
    Span.bounds_singleton fun _ => List.not_mem_nil
  exact (sound.linesAnswered.mem_hits_iff _ _ _ _).2 ⟨_, _, _, _, placed, rfl, resolved, bounds,
    UInt32.le_refl _, forward⟩

/-- A program with one method and one point, which can be had. -/
theorem points?_of_lineTable_oneMethod :
    (∀ update, .offer update ∈ [Event.offer oneMethod] → update.metadata.Numbered) ∧
      ∃ snapshot, (ofEvents [.offer oneMethod]).at? 1 = some snapshot ∧
        (⟨1⟩, 1) ∈ snapshot.methodsOn ⟨1⟩ 10 ∧ (snapshot.points? ⟨1⟩).isSome := by
  have numbered := numbered_singleton numbered_oneMethod
  obtain ⟨snapshot, owner, known, placed, owned, metadata, hit⟩ :=
    exists_at?_ofLineTable points_oneMethod (by decide) rfl (by decide)
  have found : owner.metadata.method? 1 =
      some (.ofLineTable 1 1 (some [0, 0, 0, 4, 10, 1])) := by
    rw [metadata]
    rfl
  obtain ⟨points, decoded', answered⟩ :=
    (points?_of_lineTable numbered known).1 ⟨1⟩ ⟨1, 1⟩ owner _ placed owned found rfl
  obtain rfl := Except.ok.inj (decoded'.symm.trans points_oneMethod)
  refine ⟨numbered, snapshot, known, hit, answered.isSome_iff.2 fun point mem hidden => ?_⟩
  obtain rfl := List.mem_singleton.1 mem
  cases hidden

/-- The symbols of a program with one method, which has a visible point in its document and a hidden
one in document row 2, which is not there. -/
def hiddenElsewhere : Update :=
  ofLineTable [0, 0, 0, 4, 10, 1, 0, 2, 1, 0, 0]

/-- **A method on a line whose points cannot be had**, although its line table can be read. -/
theorem exists_on_line_without_points :
    (∀ update, .offer update ∈ [Event.offer hiddenElsewhere] → update.metadata.Numbered) ∧
      ∃ snapshot record, (ofEvents [.offer hiddenElsewhere]).at? 1 = some snapshot ∧
        snapshot.record? ⟨1⟩ = some record ∧ record.lineTable.isSome ∧
        (⟨1⟩, 1) ∈ snapshot.methodsOn ⟨1⟩ 10 ∧ snapshot.points? ⟨1⟩ = none := by
  have own : hiddenElsewhere.metadata.Numbered := numbered_ofLineTable _
  have numbered := numbered_singleton own
  have decoded : (MethodDebug.ofLineTable 1 1 (some [0, 0, 0, 4, 10, 1, 0, 2, 1, 0, 0])).points =
      .ok [⟨0, 1, some ⟨10, 1, 10, 5⟩⟩, ⟨1, 2, none⟩] := by decide +kernel
  obtain ⟨snapshot, owner, known, placed, owned, metadata, hit⟩ :=
    exists_at?_ofLineTable decoded (by decide) rfl (by decide)
  have found : owner.metadata.method? 1 =
      some (.ofLineTable 1 1 (some [0, 0, 0, 4, 10, 1, 0, 2, 1, 0, 0])) := by
    rw [metadata]
    rfl
  have record : snapshot.record? ⟨1⟩ =
      some (.ofLineTable 1 1 (some [0, 0, 0, 4, 10, 1, 0, 2, 1, 0, 0])) := by
    rw [Snapshot.record?, placed, Option.bind_eq_bind, Option.bind_some, owned,
      Option.bind_eq_bind, Option.bind_some, found]
  have sound := sound_ofEvents numbered 1 snapshot known
  have identifies := (documented_ofEvents numbered).identifiesDocuments known
  obtain ⟨points, decoded', answered⟩ :=
    sound.pointsAnswered identifies placed owned found rfl
  obtain rfl := Except.ok.inj (decoded'.symm.trans decoded)
  refine ⟨numbered, snapshot, _, known, record, rfl, hit, ?_⟩
  rw [← Option.not_isSome_iff_eq_none, answered.isSome_iff, metadata]
  intro declared
  exact absurd (declared ⟨1, 2, none⟩ (by decide) rfl) (by decide)

end Session

end SymbolHistory
