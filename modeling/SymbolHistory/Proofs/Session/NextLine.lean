import SymbolHistory.Proofs.LineIndex.Following
import SymbolHistory.Proofs.LineTable.RoundTrip
import SymbolHistory.Proofs.Session.LineAnswers

/-!
# The next line with code

Asked for the next line with code, a version looks at one extent of each run only. That is enough:
the bounds of an extent are those of points, so an extent that is looked at has a point on or behind
the line, and the extents of the same run that are left out are behind that point as a whole.

## Main definitions

* `SourceRange.nextLine?` : the first line from a given one on that a range stands for.
* `Snapshot.IsCodeLine` : a line that a visible point of a method stands for.
* `Snapshot.Readable` : all methods with lines in a document have points.
* `Snapshot.linesAhead` : the lines that the first round of the search finds.

## Main results

* `Snapshot.Sound.mem_extentsIn` : extents are the bounds of visible points.
* `Snapshot.Sound.exists_mem_linesAhead_le_of_isCodeLine` : no such line is in front of all that the
  first round finds.
* `Snapshot.Sound.nextCodeLine?_eq_min?` : the least of them is what a version answers.
* `Session.nextCodeLine?_least` : that is the least line with code, in every session.
-/

namespace SymbolHistory

/-- The first line from `line` on that a range stands for: the line itself if the range covers it,
and the first line of the range if that is not in front of it. -/
def SourceRange.nextLine? (range : SourceRange) (line : UInt32) : Option UInt32 :=
  if range.covers line then some line
  else if line ≤ range.startLine then some range.startLine
  else none

namespace SourceRange

variable {range : SourceRange} {line value : UInt32}

/-- A range does not stand for lines in front of it. -/
theorem startLine_le_of_nextLine? (h : range.nextLine? line = some value) :
    range.startLine ≤ value := by
  rw [nextLine?] at h
  split at h
  · next covered =>
      obtain rfl := Option.some.inj h
      exact of_decide_eq_true (Bool.and_eq_true_iff.1 covered).1
  · obtain ⟨-, eq⟩ := Option.ite_none_right_eq_some.1 h
    obtain rfl := Option.some.inj eq
    exact UInt32.le_refl _

/-- A range that is over by the line stands for nothing. -/
theorem le_endLine_of_nextLine? (forward : range.startLine ≤ range.endLine)
    (h : range.nextLine? line = some value) : line ≤ range.endLine := by
  rw [nextLine?] at h
  split at h
  · next covered => exact of_decide_eq_true (Bool.and_eq_true_iff.1 covered).2
  · obtain ⟨ahead, -⟩ := Option.ite_none_right_eq_some.1 h
    exact UInt32.le_trans ahead forward

/-- A range that is not over by the line stands for one of its lines. -/
theorem exists_nextLine?_le (forward : range.startLine ≤ range.endLine)
    (h : line ≤ range.endLine) : ∃ value ≤ range.endLine, range.nextLine? line = some value := by
  by_cases reached : range.startLine ≤ line
  · have covered : range.covers line = true := by simp [covers, reached, h]
    exact ⟨line, h, if_pos covered⟩
  · have ahead : line ≤ range.startLine := UInt32.le_of_lt (UInt32.not_le.1 reached)
    refine ⟨range.startLine, forward, ?_⟩
    rw [nextLine?, if_neg (by simp [covers, UInt32.not_le.1 reached]), if_pos ahead]

end SourceRange

/-! ### Ranges go forward -/

/-- No range ends on a line before its first. -/
def SequencePoint.Forward (points : List SequencePoint) : Prop :=
  ∀ point ∈ points, ∀ range ∈ point.range, range.startLine ≤ range.endLine

/-- Points that can be read go forward. -/
theorem MethodDebug.forward_of_points {record : MethodDebug} {points : List SequencePoint}
    (h : record.points = .ok points) : SequencePoint.Forward points := by
  rw [MethodDebug.points] at h
  cases stored : record.lineTable with
  | none =>
      rw [stored] at h
      obtain rfl := Except.ok.inj h
      exact fun point mem => absurd mem List.not_mem_nil
  | some bytes =>
      rw [stored] at h
      obtain ⟨table, read, rfl⟩ := Outcome.map_eq_ok_iff.1 h
      intro point mem range visible
      have wellFormed := (LineTable.decode_eq_ok_iff.1 read).1
      exact (wellFormed.ranges point mem range visible).startLine_le_endLine

/-- Points that are moved still go forward. -/
theorem Snapshot.forward_moved {points : List SequencePoint} (h : SequencePoint.Forward points)
    (deltas : Option LineDeltas) : SequencePoint.Forward (moved deltas points) := by
  cases deltas with
  | none => exact h
  | some deltas =>
      intro point mem range visible
      obtain ⟨index, at_index⟩ := List.mem_iff_getElem?.1 mem
      rw [moved, LineDeltas.getElem?_apply, Option.map_eq_some_iff] at at_index
      obtain ⟨stored, at_index, rfl⟩ := at_index
      obtain ⟨before, known, rfl⟩ := Option.map_eq_some_iff.1 visible
      exact shiftLine_le_shiftLine (h stored (List.mem_of_getElem? at_index) before known) _

namespace Snapshot

variable {snapshot : Snapshot} {document : DocumentId}

/-! ### Points and ranges -/

/-- The visible ranges of a method go forward. -/
theorem startLine_le_endLine {method : MethodId} {ranges : List (DocumentId × SourceRange)}
    (visible : snapshot.visibleRanges? method = some ranges) {range : SourceRange}
    (mem : (document, range) ∈ ranges) : range.startLine ≤ range.endLine := by
  obtain ⟨place, -, h⟩ := Option.bind_eq_some_iff.1 visible
  obtain ⟨owner, -, h⟩ := Option.bind_eq_some_iff.1 h
  obtain ⟨record, -, h⟩ := Option.bind_eq_some_iff.1 h
  obtain ⟨points, decoded, resolved⟩ := Option.bind_eq_some_iff.1 h
  obtain ⟨row, entry_mem, -⟩ := (mem_resolveRanges_iff resolved).1 mem
  obtain ⟨point, point_mem, eq⟩ := List.mem_filterMap.1 entry_mem
  obtain ⟨found, known, eq⟩ := Option.map_eq_some_iff.1 eq
  obtain ⟨-, rfl⟩ := Prod.mk.inj eq
  have forward : SequencePoint.Forward points := by
    cases read : record.points with
    | error e =>
        rw [read] at decoded
        cases decoded
    | ok stored =>
        rw [read] at decoded
        obtain rfl := Option.some.inj decoded
        exact MethodDebug.forward_of_points read
  exact forward_moved forward _ point point_mem found known

/-! ### Extents and ranges -/

/-- The methods with lines in a document are those with extents there. -/
theorem isSome_lines?_iff {method : MethodId} :
    (snapshot.lines? method document).isSome ↔
      ∃ extent ∈ snapshot.state.lines.extentsIn document, extent.method = method := by
  rw [lines?, LineIndex.lines?, Option.isSome_map, List.find?_isSome]
  simp only [decide_eq_true_eq]

/-- **Extents are the bounds of visible points.** -/
theorem Sound.mem_extentsIn (h : snapshot.Sound) {extent : Extent}
    (mem : extent ∈ snapshot.state.lines.extentsIn document) :
    ∃ ranges, snapshot.visibleRanges? extent.method = some ranges ∧
      Span.Bounds ⟨document, extent.minLine, extent.maxLine⟩ ranges := by
  obtain ⟨-, content, represents, tracks⟩ := h
  obtain ⟨-, span_mem⟩ := represents.mem_extentsIn_iff.1 mem
  cases placed : snapshot.place? extent.method with
  | none =>
      rw [tracks.unknown _ placed] at span_mem
      exact absurd span_mem List.not_mem_nil
  | some place =>
      obtain ⟨ranges, visible, entry⟩ := tracks.exists_ranges placed
      rw [entry] at span_mem
      exact ⟨ranges, visible, (Span.collected_ofRanges ranges).bounds _ span_mem⟩

/-- A method with a visible point in a document has an extent there. -/
theorem Sound.exists_extent (h : snapshot.Sound) {method : MethodId}
    {ranges : List (DocumentId × SourceRange)}
    (visible : snapshot.visibleRanges? method = some ranges) {range : SourceRange}
    (mem : (document, range) ∈ ranges) :
    ∃ extent ∈ snapshot.state.lines.extentsIn document, extent.method = method ∧
      extent.minLine ≤ range.startLine ∧ range.endLine ≤ extent.maxLine := by
  obtain ⟨-, content, represents, tracks⟩ := h
  obtain ⟨place, placed, -⟩ := Option.bind_eq_some_iff.1 visible
  obtain ⟨ranges', visible', entry⟩ := tracks.exists_ranges placed
  obtain rfl := Option.some.inj (visible'.symm.trans visible)
  obtain ⟨span, span_mem, rfl⟩ := (Span.collected_ofRanges ranges').exists_mem document range mem
  have bounds := (Span.collected_ofRanges ranges').bounds span span_mem
  refine ⟨⟨method, (content method).1, span.minLine, span.maxLine⟩, ?_, rfl,
    bounds.minLine_le range mem, bounds.le_maxLine range mem⟩
  refine represents.mem_extentsIn_iff.2 ⟨rfl, ?_⟩
  rw [entry]
  exact span_mem

/-- No extent ends before it starts. -/
theorem Sound.minLine_le_maxLine (h : snapshot.Sound) {extent : Extent}
    (mem : extent ∈ snapshot.state.lines.extentsIn document) :
    extent.minLine ≤ extent.maxLine := by
  obtain ⟨ranges, visible, bounds⟩ := h.mem_extentsIn mem
  obtain ⟨range, range_mem, start⟩ := bounds.minLine_mem
  calc extent.minLine
    _ = range.startLine := start.symm
    _ ≤ range.endLine := startLine_le_endLine visible range_mem
    _ ≤ extent.maxLine := bounds.le_maxLine range range_mem

/-! ### Lines that are found -/

/-- A line that a visible point of a method stands for, from `line` on. -/
def IsCodeLine (snapshot : Snapshot) (document : DocumentId) (line value : UInt32) : Prop :=
  ∃ method ranges range, snapshot.visibleRanges? method = some ranges ∧
    (document, range) ∈ ranges ∧ range.nextLine? line = some value

/-- All methods with lines in a document have points. -/
def Readable (snapshot : Snapshot) (document : DocumentId) : Prop :=
  ∀ method, (snapshot.lines? method document).isSome → (snapshot.points? method).isSome

/-- The lines from `line` on that points of the methods that are looked at stand for. -/
def linesAhead (snapshot : Snapshot) (document : DocumentId) (line : UInt32) : List UInt32 :=
  (snapshot.state.lines.nextExtents document line).flatMap fun extent =>
    ((snapshot.points? extent.method).getD []).filterMap (coveredLine? document line)

section Search

variable {line value : UInt32}

theorem coveredLine?_eq_some_iff {entry : DocumentId × SequencePoint} :
    coveredLine? document line entry = some value ↔
      entry.1 = document ∧ ∃ range, entry.2.range = some range ∧
        range.nextLine? line = some value := by
  rw [coveredLine?]
  by_cases own : entry.1 = document
  · rw [if_pos own]
    cases visible : entry.2.range with
    | none => simp
    | some range => simp [own, SourceRange.nextLine?]
  · simp [own]

/-- An extent that is looked at is one of the document, and does not end before the line. -/
theorem Sound.of_mem_nextExtents (h : snapshot.Sound) {extent : Extent}
    (mem : extent ∈ snapshot.state.lines.nextExtents document line) :
    extent ∈ snapshot.state.lines.extentsIn document ∧ line ≤ extent.maxLine :=
  h.faithful.of_mem_nextExtents (fun _ => h.minLine_le_maxLine) mem

/-- The lines of the points of a method are those that its ranges stand for. -/
theorem Sound.mem_linesAhead_iff (h : snapshot.Sound) (readable : snapshot.Readable document) :
    value ∈ snapshot.linesAhead document line ↔
      ∃ extent ∈ snapshot.state.lines.nextExtents document line,
        ∃ ranges range, snapshot.visibleRanges? extent.method = some ranges ∧
          (document, range) ∈ ranges ∧ range.nextLine? line = some value := by
  rw [linesAhead, List.mem_flatMap]
  refine exists_congr fun extent => and_congr_right fun mem => ?_
  have lines : (snapshot.lines? extent.method document).isSome :=
    isSome_lines?_iff.2 ⟨extent, (h.of_mem_nextExtents mem).1, rfl⟩
  obtain ⟨entries, points⟩ := Option.isSome_iff_exists.1 (readable extent.method lines)
  rw [points, visibleRanges?_of_points? points, Option.getD_some, List.mem_filterMap]
  constructor
  · rintro ⟨⟨_, point⟩, entry_mem, covered⟩
    obtain ⟨rfl, range, visible, next⟩ := coveredLine?_eq_some_iff.1 covered
    refine ⟨_, range, rfl, List.mem_filterMap.2 ⟨_, entry_mem, ?_⟩, next⟩
    rw [visible, Option.map_some]
  · rintro ⟨_, range, ⟨⟩, range_mem, next⟩
    obtain ⟨entry, entry_mem, eq⟩ := List.mem_filterMap.1 range_mem
    obtain ⟨_, visible, eq⟩ := Option.map_eq_some_iff.1 eq
    obtain ⟨own, rfl⟩ := Prod.mk.inj eq
    exact ⟨entry, entry_mem, coveredLine?_eq_some_iff.2 ⟨own, _, visible, next⟩⟩

/-- What is found is a line with code. -/
theorem Sound.isCodeLine_of_mem_linesAhead (h : snapshot.Sound)
    (readable : snapshot.Readable document) (mem : value ∈ snapshot.linesAhead document line) :
    snapshot.IsCodeLine document line value := by
  obtain ⟨extent, -, found⟩ := (h.mem_linesAhead_iff readable).1 mem
  exact ⟨extent.method, found⟩

/-- Something is found in every extent that is looked at: the point that ends last is not over. -/
theorem Sound.exists_mem_linesAhead_le (h : snapshot.Sound) (readable : snapshot.Readable document)
    {extent : Extent} (mem : extent ∈ snapshot.state.lines.nextExtents document line) :
    ∃ found ∈ snapshot.linesAhead document line, found ≤ extent.maxLine := by
  obtain ⟨own, ahead⟩ := h.of_mem_nextExtents mem
  obtain ⟨ranges, visible, bounds⟩ := h.mem_extentsIn own
  obtain ⟨range, range_mem, last⟩ := bounds.maxLine_mem
  have last : range.endLine = extent.maxLine := last
  rw [← last] at ahead ⊢
  obtain ⟨found, le, next⟩ :=
    SourceRange.exists_nextLine?_le (startLine_le_endLine visible range_mem) ahead
  exact ⟨found, (h.mem_linesAhead_iff readable).2 ⟨extent, mem, ranges, range, visible, range_mem,
    next⟩, le⟩

/-- **No line with code is in front of all that is found.** Its method has an extent that is looked
at, or that is behind one that is. -/
theorem Sound.exists_mem_linesAhead_le_of_isCodeLine (h : snapshot.Sound)
    (readable : snapshot.Readable document) (code : snapshot.IsCodeLine document line value) :
    ∃ found ∈ snapshot.linesAhead document line, found ≤ value := by
  obtain ⟨method, ranges, range, visible, range_mem, next⟩ := code
  obtain ⟨extent, mem, rfl, starts, ends⟩ := h.exists_extent visible range_mem
  have ahead : line ≤ extent.maxLine :=
    UInt32.le_trans
      (SourceRange.le_endLine_of_nextLine? (startLine_le_endLine visible range_mem) next) ends
  rcases h.faithful.mem_or_exists_before (fun _ => h.minLine_le_maxLine) mem ahead with
    looked_at | ⟨candidate, looked_at, before⟩
  · exact ⟨value, (h.mem_linesAhead_iff readable).2 ⟨extent, looked_at, ranges, range, visible,
      range_mem, next⟩, UInt32.le_refl value⟩
  · obtain ⟨found, found_mem, le⟩ := h.exists_mem_linesAhead_le readable looked_at
    refine ⟨found, found_mem, ?_⟩
    calc found
      _ ≤ candidate.maxLine := le
      _ ≤ extent.minLine := UInt32.le_of_lt before
      _ ≤ range.startLine := starts
      _ ≤ value := SourceRange.startLine_le_of_nextLine? next

/-- **The first round of the search is the last one**: if it finds nothing, there are no extents to
look at. -/
theorem Sound.nextCodeLine?_eq_min? (h : snapshot.Sound) (readable : snapshot.Readable document)
    (line : UInt32) :
    snapshot.nextCodeLine? document line = (snapshot.linesAhead document line).min? := by
  rw [nextCodeLine?, searchRounds, searchFrom, ← linesAhead]
  cases least : (snapshot.linesAhead document line).min? with
  | some found => rfl
  | none =>
      have nothing := List.min?_eq_none_iff.1 least
      have unseen : snapshot.state.lines.nextExtents document line = [] := by
        refine List.eq_nil_iff_forall_not_mem.2 fun extent mem => ?_
        obtain ⟨found, found_mem, -⟩ := h.exists_mem_linesAhead_le readable mem
        rw [nothing] at found_mem
        exact absurd found_mem List.not_mem_nil
      rw [unseen]
      rfl

/-- What a sound version answers is the first line with code, if there is one. -/
theorem Sound.nextCodeLine?_eq_some_iff (h : snapshot.Sound)
    (readable : snapshot.Readable document) :
    snapshot.nextCodeLine? document line = some value ↔
      snapshot.IsCodeLine document line value ∧
        ∀ other, snapshot.IsCodeLine document line other → value ≤ other := by
  rw [h.nextCodeLine?_eq_min? readable, List.min?_eq_some_iff]
  constructor
  · rintro ⟨mem, least⟩
    refine ⟨h.isCodeLine_of_mem_linesAhead readable mem, fun other code => ?_⟩
    obtain ⟨found, found_mem, le⟩ := h.exists_mem_linesAhead_le_of_isCodeLine readable code
    exact UInt32.le_trans (least found found_mem) le
  · rintro ⟨code, least⟩
    have below : ∀ found ∈ snapshot.linesAhead document line, value ≤ found := fun found mem =>
      least found (h.isCodeLine_of_mem_linesAhead readable mem)
    obtain ⟨found, mem, le⟩ := h.exists_mem_linesAhead_le_of_isCodeLine readable code
    obtain rfl := UInt32.le_antisymm le (below found mem)
    exact ⟨mem, below⟩

/-- A sound version answers nothing exactly if there is no line with code. -/
theorem Sound.nextCodeLine?_eq_none_iff (h : snapshot.Sound)
    (readable : snapshot.Readable document) :
    snapshot.nextCodeLine? document line = none ↔
      ∀ value, ¬snapshot.IsCodeLine document line value := by
  rw [h.nextCodeLine?_eq_min? readable, List.min?_eq_none_iff]
  constructor
  · intro nothing value code
    obtain ⟨found, mem, -⟩ := h.exists_mem_linesAhead_le_of_isCodeLine readable code
    rw [nothing] at mem
    exact absurd mem List.not_mem_nil
  · intro nothing
    exact List.eq_nil_iff_forall_not_mem.2 fun found mem =>
      nothing found (h.isCodeLine_of_mem_linesAhead readable mem)

end Search

/-- Methods with ranges are the known ones. -/
theorem Sound.isSome_visibleRanges?_iff (h : snapshot.Sound) (method : MethodId) :
    (snapshot.visibleRanges? method).isSome ↔ (snapshot.place? method).isSome := by
  constructor
  · intro visible
    obtain ⟨ranges, visible⟩ := Option.isSome_iff_exists.1 visible
    obtain ⟨place, placed, -⟩ := Option.bind_eq_some_iff.1 visible
    exact Option.isSome_of_mem placed
  · intro placed
    obtain ⟨place, placed⟩ := Option.isSome_iff_exists.1 placed
    obtain ⟨ranges, visible, -⟩ := h.linesAnswered.methods method place placed
    exact Option.isSome_of_mem visible

/-- Methods with lines in a document have ranges. -/
theorem Sound.isSome_visibleRanges?_of_lines? (h : snapshot.Sound) {method : MethodId}
    (lines : (snapshot.lines? method document).isSome) :
    (snapshot.visibleRanges? method).isSome := by
  obtain ⟨extent, mem, rfl⟩ := isSome_lines?_iff.1 lines
  obtain ⟨ranges, visible, -⟩ := h.mem_extentsIn mem
  exact Option.isSome_of_mem visible

end Snapshot

namespace Session

/-- **The next line with code** is the first one that a visible point of a known method stands for:
the line asked about if the point covers it, and the first line of the point if that is not in front
of it. There is no answer exactly if there is no such point. That is so in every version of a
session whose updates have numbered rows, if all methods with lines in the document have points. -/
theorem nextCodeLine?_least {events : List Event}
    (numbered : ∀ update, .offer update ∈ events → update.metadata.Numbered) {version : Nat}
    {snapshot : Snapshot} (known : (ofEvents events).at? version = some snapshot)
    {document : DocumentId} (readable : snapshot.Readable document) (line : UInt32) :
    (∀ method, (snapshot.visibleRanges? method).isSome ↔ (snapshot.place? method).isSome) ∧
      (∀ value, snapshot.nextCodeLine? document line = some value ↔
        snapshot.IsCodeLine document line value ∧
          ∀ other, snapshot.IsCodeLine document line other → value ≤ other) ∧
      (snapshot.nextCodeLine? document line = none ↔
        ∀ value, ¬snapshot.IsCodeLine document line value) := by
  have sound := sound_ofEvents numbered version snapshot known
  exact ⟨sound.isSome_visibleRanges?_iff, fun _ => sound.nextCodeLine?_eq_some_iff readable,
    sound.nextCodeLine?_eq_none_iff readable⟩

/-- A program with one method, which has moved by three lines, asked about a line between the one
that it was on and the one that it is on. -/
theorem nextCodeLine?_least_moveDown :
    (∀ update, .offer update ∈ [Event.offer oneMethod, .offer moveDown] →
      update.metadata.Numbered) ∧
      ∃ snapshot, (ofEvents [.offer oneMethod, .offer moveDown]).at? 2 = some snapshot ∧
        snapshot.Readable ⟨1⟩ ∧ snapshot.nextCodeLine? ⟨1⟩ 11 = some 13 := by
  have numbered := numbered_oneMethod_moveDown
  obtain ⟨snapshot, known, -, points, only⟩ := exists_points?_moveDown
  have sound := sound_ofEvents numbered 2 snapshot known
  have placed {method : MethodId} (visible : (snapshot.visibleRanges? method).isSome) :=
    (sound.isSome_visibleRanges?_iff method).1 visible
  have readable : snapshot.Readable ⟨1⟩ := by
    intro method lines
    obtain rfl := only method (placed (sound.isSome_visibleRanges?_of_lines? lines))
    rw [points]
    rfl
  have visible : snapshot.visibleRanges? ⟨1⟩ = some [(⟨1⟩, ⟨13, 1, 13, 5⟩)] :=
    Snapshot.visibleRanges?_of_points? points
  refine ⟨numbered, snapshot, known, readable, ?_⟩
  refine ((nextCodeLine?_least numbered known readable 11).2.1 13).2
    ⟨⟨⟨1⟩, _, ⟨13, 1, 13, 5⟩, visible, List.mem_singleton_self _, by decide⟩, ?_⟩
  rintro other ⟨method, ranges, range, visible', mem, next⟩
  obtain rfl := only method (placed (Option.isSome_of_mem visible'))
  obtain rfl := Option.some.inj (visible.symm.trans visible')
  obtain ⟨-, rfl⟩ := Prod.mk.inj (List.mem_singleton.1 mem)
  exact SourceRange.startLine_le_of_nextLine? next

end Session

end SymbolHistory
