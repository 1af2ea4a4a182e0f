import SymbolHistory.Proofs.Session.DocumentAnswers
import SymbolHistory.Proofs.Session.Fate

/-!
# What a version answers about lines

Whatever happened to a session, a question about lines is answered as if it were answered from the
points: from those of the current debug information, moved by the deltas since then. No answer shows
how extents came about.

## Main definitions

* `Snapshot.visibleRanges?` : the ranges of the visible points of a method where they are now.
* `Snapshot.LinesAnswered` : questions about lines are answered from these ranges.

## Main results

* `Session.lines_follow_points` : that is so in every version of every session.
-/

namespace SymbolHistory

namespace Snapshot

/-- The ranges of the visible points of a method where they are now, with their documents. There are
none to be had if the method is unknown, or if its debug information cannot be read. -/
def visibleRanges? (snapshot : Snapshot) (method : MethodId) :
    Option (List (DocumentId × SourceRange)) := do
  let place ← snapshot.place? method
  let owner ← snapshot.generation? place.generation
  let record ← owner.metadata.method? place.row
  let points ← record.points.toOption
  resolveRanges owner.documentId?
    (SequencePoint.visibleRanges (moved (snapshot.deltas? method) points))

/-- Points with their documents have the ranges that resolving theirs gives. -/
theorem resolveRanges_of_mapM {documentOf : UInt32 → Option DocumentId}
    {points : List SequencePoint} {entries : List (DocumentId × SequencePoint)}
    (h : (points.mapM fun point => do return (← documentOf point.document, point)) =
      some entries) :
    resolveRanges documentOf (SequencePoint.visibleRanges points) =
      some (entries.filterMap fun entry => entry.2.range.map (entry.1, ·)) := by
  induction points generalizing entries with
  | nil =>
      obtain rfl := Option.some.inj h
      rfl
  | cons point points ih =>
      rw [List.mapM_cons, Option.bind_eq_bind, Option.bind_eq_some_iff] at h
      obtain ⟨entry, first, h⟩ := h
      rw [Option.bind_eq_bind, Option.bind_eq_some_iff] at h
      obtain ⟨rest, others, eq⟩ := h
      obtain rfl := Option.some.inj eq
      obtain ⟨document, known, eq⟩ := Option.bind_eq_some_iff.1 first
      obtain rfl := Option.some.inj eq
      cases visible : point.range with
      | none =>
          rw [SequencePoint.visibleRanges, List.filterMap_cons_none (by rw [visible]; rfl),
            List.filterMap_cons_none (by rw [visible]; rfl)]
          exact ih others
      | some range =>
          rw [SequencePoint.visibleRanges,
            List.filterMap_cons_some (b := (point.document, range)) (by rw [visible]; rfl),
            List.filterMap_cons_some (b := (document, range)) (by rw [visible]; rfl),
            resolveRanges_cons, known, Option.bind_some, ← SequencePoint.visibleRanges, ih others,
            Option.map_some]

/-- The visible ranges of a method are those of its points, if these can all be had. -/
theorem visibleRanges?_of_points? {snapshot : Snapshot} {method : MethodId}
    {entries : List (DocumentId × SequencePoint)} (h : snapshot.points? method = some entries) :
    snapshot.visibleRanges? method =
      some (entries.filterMap fun entry => entry.2.range.map (entry.1, ·)) := by
  obtain ⟨place, placed, h⟩ := Option.bind_eq_some_iff.1 h
  obtain ⟨owner, owned, h⟩ := Option.bind_eq_some_iff.1 h
  obtain ⟨record, found, h⟩ := Option.bind_eq_some_iff.1 h
  obtain ⟨bytes, -, h⟩ := Option.bind_eq_some_iff.1 h
  obtain ⟨points, decoded, h⟩ := Option.bind_eq_some_iff.1 h
  rw [visibleRanges?, placed, Option.bind_eq_bind, Option.bind_some, owned, Option.bind_eq_bind,
    Option.bind_some, found, Option.bind_eq_bind, Option.bind_some, decoded]
  exact resolveRanges_of_mapM h

/-- The documents and lines of a method are those of some ranges. -/
structure HasLinesOf (snapshot : Snapshot) (method : MethodId)
    (ranges : List (DocumentId × SourceRange)) : Prop where
  /-- Documents ascend. -/
  documents_ascend : (snapshot.documentsOf method).Pairwise (·.val < ·.val)
  /-- They are the ones that ranges are in. -/
  mem_documents_iff : ∀ document,
    document ∈ snapshot.documentsOf method ↔ ∃ range, (document, range) ∈ ranges
  /-- In a document with ranges, lines go from the first to the last one of these. -/
  lines_eq_some_iff : ∀ document first last,
    snapshot.lines? method document = some (first, last) ↔
      Span.Bounds ⟨document, first, last⟩ ranges
  /-- In other documents there are none. -/
  lines_eq_none_iff : ∀ document,
    snapshot.lines? method document = none ↔ ∀ range, (document, range) ∉ ranges

/-- Questions about lines are answered from the points of methods. -/
structure LinesAnswered (snapshot : Snapshot) : Prop where
  /-- Every known method has visible points, and their documents and lines. -/
  methods : ∀ method place, snapshot.place? method = some place →
    ∃ ranges, snapshot.visibleRanges? method = some ranges ∧ snapshot.HasLinesOf method ranges
  /-- Methods on a line ascend. -/
  hits_ascend : ∀ document line,
    (snapshot.methodsOn document line).Pairwise (·.1.val < ·.1.val)
  /-- They are the ones whose lines in the document include the line, each with the generation of
  its current debug information. -/
  mem_hits_iff : ∀ document line method generation,
    (method, generation) ∈ snapshot.methodsOn document line ↔
      ∃ place ranges first last, snapshot.place? method = some place ∧
        place.generation = generation ∧ snapshot.visibleRanges? method = some ranges ∧
        Span.Bounds ⟨document, first, last⟩ ranges ∧ first ≤ line ∧ line ≤ last
  /-- The first of them is what is found first. -/
  first_hit : ∀ document line,
    snapshot.firstMethodOn? document line = (snapshot.methodsOn document line).head?

/-- The entry of a known method is that of its ranges. -/
theorem Tracks.exists_ranges {snapshot : Snapshot} {content : LineIndex.Content}
    (h : snapshot.Tracks content) {method : MethodId} {place : MethodPlace}
    (placed : snapshot.place? method = some place) :
    ∃ ranges, snapshot.visibleRanges? method = some ranges ∧
      content method = (place.generation, Span.ofRanges ranges) := by
  obtain ⟨owner, points, lines⟩ := h.known method place placed
  obtain ⟨record, found, decoded⟩ := lines.at_place.decoded
  obtain ⟨ranges, resolved, spans⟩ := Span.ofPoints_eq_ok_iff.1 lines.spans
  refine ⟨ranges, ?_, Prod.ext lines.version spans⟩
  have owned : snapshot.generation? place.generation = some owner := lines.at_place.owner_at
  rw [visibleRanges?, placed, Option.bind_eq_bind, Option.bind_some, owned, Option.bind_eq_bind,
    Option.bind_some, found, Option.bind_eq_bind, Option.bind_some, decoded]
  exact resolved

/-- An index that says where points are answers from them what it is asked about a method. -/
theorem hasLinesOf_of_represents {snapshot : Snapshot} {content : LineIndex.Content}
    (represents : snapshot.state.lines.Represents content) {method : MethodId} {version : Nat}
    {ranges : List (DocumentId × SourceRange)}
    (entry : content method = (version, Span.ofRanges ranges)) :
    snapshot.HasLinesOf method ranges := by
  have documents : snapshot.documentsOf method =
      LineIndex.documentsOfSpans (Span.ofRanges ranges) := by
    rw [documentsOf, represents.documents, entry]
  have lines : ∀ document, snapshot.lines? method document =
      ((Span.ofRanges ranges).find? (·.document = document)).map fun span =>
        (span.minLine, span.maxLine) := by
    intro document
    rw [lines?, represents.lines?_eq, entry]
  constructor
  · rw [documents]
    exact LineIndex.pairwise_documentsOfSpans _
  · intro document
    rw [documents, LineIndex.mem_documentsOfSpans]
    constructor
    · rintro ⟨span, mem, rfl⟩
      obtain ⟨range, range_mem, -⟩ :=
        ((Span.collected_ofRanges ranges).bounds span mem).minLine_mem
      exact ⟨range, range_mem⟩
    · rintro ⟨range, mem⟩
      exact (Span.collected_ofRanges ranges).exists_mem document range mem
  · intro document first last
    rw [lines, Option.map_eq_some_iff]
    constructor
    · rintro ⟨⟨_, _, _⟩, found, eq⟩
      obtain ⟨rfl, bounds⟩ := Span.find?_ofRanges_eq_some_iff.1 found
      obtain ⟨rfl, rfl⟩ := Prod.mk.inj eq
      exact bounds
    · intro bounds
      exact ⟨⟨document, first, last⟩, Span.find?_ofRanges_eq_some_iff.2 ⟨rfl, bounds⟩, rfl⟩
  · intro document
    rw [lines, Option.map_eq_none_iff]
    exact Span.find?_ofRanges_eq_none_iff

/-- A sound version answers from points what it is asked about lines. -/
theorem Sound.linesAnswered {snapshot : Snapshot} (h : snapshot.Sound) :
    snapshot.LinesAnswered := by
  obtain ⟨faithful, content, represents, tracks⟩ := h
  have single : ∀ method, ((content method).2.map (·.document)).Nodup := by
    intro method
    cases placed : snapshot.place? method with
    | none =>
        rw [tracks.unknown method placed]
        exact List.nodup_nil
    | some place =>
        obtain ⟨ranges, -, entry⟩ := tracks.exists_ranges placed
        rw [entry]
        exact (Span.collected_ofRanges ranges).nodup
  refine ⟨?_, ?_, ?_, fun _ _ => rfl⟩
  · intro method place placed
    obtain ⟨ranges, visible, entry⟩ := tracks.exists_ranges placed
    exact ⟨ranges, visible, hasLinesOf_of_represents represents entry⟩
  · intro document line
    exact faithful.pairwise_hits (represents.nodup_methods single document) line
  · intro document line method generation
    rw [methodsOn, represents.mem_hits_iff faithful]
    constructor
    · rintro ⟨rfl, span, mem, rfl, contains⟩
      cases placed : snapshot.place? method with
      | none =>
          rw [tracks.unknown method placed] at mem
          exact absurd mem List.not_mem_nil
      | some place =>
          obtain ⟨ranges, visible, entry⟩ := tracks.exists_ranges placed
          rw [entry] at mem ⊢
          exact ⟨place, ranges, span.minLine, span.maxLine, rfl, rfl, visible,
            (Span.collected_ofRanges ranges).bounds span mem, contains⟩
    · rintro ⟨place, ranges, first, last, placed, rfl, visible, bounds, contains⟩
      obtain ⟨ranges', visible', entry⟩ := tracks.exists_ranges placed
      obtain rfl := Option.some.inj (visible'.symm.trans visible)
      have found := Span.find?_ofRanges_eq_some_iff.2 ⟨rfl, bounds⟩
      rw [entry]
      exact ⟨rfl, _, List.mem_of_find?_eq_some found, rfl, contains⟩

end Snapshot

namespace Session

/-- **Questions about lines are answered from the points of methods**, in every version of a session
and whatever happened to it, as long as the rows of updates are numbered. -/
theorem lines_follow_points {events : List Event}
    (numbered : ∀ update, .offer update ∈ events → update.metadata.Numbered) {version : Nat}
    {snapshot : Snapshot} (known : (ofEvents events).at? version = some snapshot) :
    snapshot.LinesAnswered :=
  (sound_ofEvents numbered version snapshot known).linesAnswered

/-- The points of a program with one method, which has moved from line 10 by three lines. No other
method is known. -/
theorem exists_points?_moveDown : ∃ snapshot,
    (ofEvents [.offer oneMethod, .offer moveDown]).at? 2 = some snapshot ∧
      snapshot.place? ⟨1⟩ = some ⟨1, 1⟩ ∧
      snapshot.points? ⟨1⟩ = some [(⟨1⟩, ⟨0, 1, some ⟨13, 1, 13, 5⟩⟩)] ∧
      ∀ method, (snapshot.place? method).isSome → method = ⟨1⟩ := by
  obtain ⟨-, snapshot, known, placed, ⟨owner, session, owned, metadata⟩, deltas, only⟩ :=
    exists_at?_moveDown
  refine ⟨snapshot, known, placed, ?_, only⟩
  have documented := documented_ofEvents (numbered_singleton numbered_oneMethod)
  have identifies := documented.identifiesDocuments (at?_of_ofEvents_eq session)
  have row := documentId?_ofLineTable metadata identifies
  have found : owner.metadata.method? 1 =
      some (.ofLineTable 1 1 (some [0, 0, 0, 4, 10, 1])) := by
    rw [metadata]
    rfl
  have moved : Snapshot.moved (some (.uniform 3)) [⟨0, 1, some ⟨10, 1, 10, 5⟩⟩] =
      [⟨0, 1, some ⟨13, 1, 13, 5⟩⟩] := by decide
  rw [Snapshot.points?, placed, Option.bind_eq_bind, Option.bind_some, owned, Option.bind_eq_bind,
    Option.bind_some, found, deltas]
  simp only [Option.bind_eq_bind, Option.bind_some, points_oneMethod]
  simp [MethodDebug.ofLineTable, Except.toOption, moved, row]

/-- A program with one method, which has moved by three lines: it is found where it is now. -/
theorem lines_follow_points_moveDown :
    (∀ update, .offer update ∈ [Event.offer oneMethod, .offer moveDown] →
      update.metadata.Numbered) ∧
      ∃ snapshot, (ofEvents [.offer oneMethod, .offer moveDown]).at? 2 = some snapshot ∧
        snapshot.LinesAnswered ∧ snapshot.lines? ⟨1⟩ ⟨1⟩ = some (13, 13) ∧
        (⟨1⟩, 1) ∈ snapshot.methodsOn ⟨1⟩ 13 := by
  obtain ⟨snapshot, known, placed, points, -⟩ := exists_points?_moveDown
  have answered := lines_follow_points numbered_oneMethod_moveDown known
  have visible : snapshot.visibleRanges? ⟨1⟩ = some [(⟨1⟩, ⟨13, 1, 13, 5⟩)] :=
    Snapshot.visibleRanges?_of_points? points
  obtain ⟨ranges, visible', lines⟩ := answered.methods ⟨1⟩ _ placed
  obtain rfl := Option.some.inj (visible.symm.trans visible')
  have bounds : Span.Bounds ⟨⟨1⟩, 13, 13⟩ [(⟨1⟩, ⟨13, 1, 13, 5⟩)] :=
    @Span.bounds_singleton ⟨1⟩ ⟨13, 1, 13, 5⟩ [] fun _ => List.not_mem_nil
  exact ⟨numbered_oneMethod_moveDown, snapshot, known, answered,
    (lines.lines_eq_some_iff _ _ _).2 bounds,
    (answered.mem_hits_iff _ _ _ _).2 ⟨_, _, _, _, placed, rfl, visible, bounds, by decide⟩⟩

end Session

end SymbolHistory
