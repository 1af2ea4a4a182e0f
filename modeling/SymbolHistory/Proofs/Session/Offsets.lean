import SymbolHistory.Proofs.Session.Points

/-!
# Offsets on a line

Which methods have code on a line, and where in each of them that code starts, is found in two
steps: the extents say which methods can be there, and the points of these say where. No method is
missed in the first step, because an extent contains all visible points of its method. The search
for the next line with code looks at other extents and goes through other points, and still comes
to a line where offsets are found; asked about that line, it stays there.

## Main definitions

* `Snapshot.OffsetsAnswered` : questions about offsets are answered from the points of methods.

## Main results

* `Snapshot.Sound.mem_offsetsOn_iff` : which offsets there are on a line.
* `Snapshot.Sound.searchRounds_eq` : no search needs more rounds than it is given.
* `Session.offsets_follow_points` : questions about offsets are answered from points, in every
  session.
-/

namespace SymbolHistory

namespace SourceRange

variable {range : SourceRange} {line value : UInt32}

/-- A range stands for lines from the given one on. -/
theorem le_of_nextLine? (h : range.nextLine? line = some value) : line ≤ value := by
  rw [nextLine?] at h
  split at h
  · obtain rfl := Option.some.inj h
    exact UInt32.le_refl _
  · obtain ⟨ahead, eq⟩ := Option.ite_none_right_eq_some.1 h
    obtain rfl := Option.some.inj eq
    exact ahead

/-- A range covers the line that it stands for. -/
theorem covers_of_nextLine? (forward : range.startLine ≤ range.endLine)
    (h : range.nextLine? line = some value) : range.covers value := by
  rw [nextLine?] at h
  split at h
  · next covered =>
    obtain rfl := Option.some.inj h
    exact covered
  · obtain ⟨-, eq⟩ := Option.ite_none_right_eq_some.1 h
    obtain rfl := Option.some.inj eq
    simp [covers, forward]

end SourceRange

/-! ### Points in order -/

/-- Points that can be read ascend by their offsets. -/
theorem MethodDebug.ascending_of_points {record : MethodDebug} {points : List SequencePoint}
    (h : record.points = .ok points) : (points.map (·.codeOffset)).Pairwise (· < ·) := by
  rw [MethodDebug.points] at h
  cases stored : record.lineTable with
  | none =>
      rw [stored] at h
      obtain rfl := Except.ok.inj h
      exact .nil
  | some bytes =>
      rw [stored] at h
      obtain ⟨table, read, rfl⟩ := Outcome.map_eq_ok_iff.1 h
      exact List.pairwise_map.2 (LineTable.decode_eq_ok_iff.1 read).1.ascending

namespace Snapshot

/-- Moving points leaves them at their offsets. -/
theorem map_codeOffset_moved (deltas : Option LineDeltas) (points : List SequencePoint) :
    (moved deltas points).map (·.codeOffset) = points.map (·.codeOffset) := by
  cases deltas with
  | none => rfl
  | some deltas =>
      apply List.ext_getElem?
      intro index
      rw [moved, List.getElem?_map, LineDeltas.getElem?_apply, Option.map_map, List.getElem?_map]
      rfl

variable {snapshot : Snapshot} {document : DocumentId} {method : MethodId} {line value : UInt32}
  {entries : List (DocumentId × SequencePoint)} {entry : DocumentId × SequencePoint}

/-- The points of a method ascend by their offsets. -/
theorem ascending_of_points? (h : snapshot.points? method = some entries) :
    entries.Pairwise (·.2.codeOffset < ·.2.codeOffset) := by
  obtain ⟨place, -, h⟩ := Option.bind_eq_some_iff.1 h
  obtain ⟨owner, -, h⟩ := Option.bind_eq_some_iff.1 h
  obtain ⟨record, -, h⟩ := Option.bind_eq_some_iff.1 h
  obtain ⟨bytes, -, h⟩ := Option.bind_eq_some_iff.1 h
  obtain ⟨points, decoded, resolved⟩ := Option.bind_eq_some_iff.1 h
  obtain ⟨same, -⟩ := mapM_documentOf_eq_some_iff.1 resolved
  have ascending : (points.map (·.codeOffset)).Pairwise (· < ·) := by
    cases read : record.points with
    | error e =>
        rw [read] at decoded
        cases decoded
    | ok stored =>
        rw [read] at decoded
        obtain rfl := Option.some.inj decoded
        exact MethodDebug.ascending_of_points read
  rw [← map_codeOffset_moved (snapshot.deltas? method), ← same, List.map_map,
    List.pairwise_map] at ascending
  exact ascending

/-- Among points that ascend, the first one of a kind has the least offset. -/
theorem find?_offset_eq_some_iff {p : DocumentId × SequencePoint → Bool} {offset : UInt32}
    (ascending : entries.Pairwise (·.2.codeOffset < ·.2.codeOffset)) :
    (entries.find? p).map (·.2.codeOffset) = some offset ↔
      ∃ entry ∈ entries, p entry ∧ entry.2.codeOffset = offset ∧
        ∀ other ∈ entries, p other → offset ≤ other.2.codeOffset := by
  have least : ∀ first, entries.find? p = some first →
      ∀ other ∈ entries, p other → first.2.codeOffset ≤ other.2.codeOffset := by
    intro first found other mem own
    obtain ⟨-, before, after, rfl, skipped⟩ := List.find?_eq_some_iff_append.1 found
    obtain ⟨-, behind, -⟩ := List.pairwise_append.1 ascending
    rcases List.mem_append.1 mem with mem | mem
    · exact absurd own (by simpa using skipped other mem)
    · rcases List.mem_cons.1 mem with rfl | mem
      · exact UInt32.le_refl _
      · exact UInt32.le_of_lt ((List.pairwise_cons.1 behind).1 other mem)
  constructor
  · intro h
    obtain ⟨first, found, rfl⟩ := Option.map_eq_some_iff.1 h
    exact ⟨first, List.mem_of_find?_eq_some found, List.find?_some found, rfl, least first found⟩
  · rintro ⟨entry, mem, own, rfl, below⟩
    cases found : entries.find? p with
    | none => exact absurd own (List.find?_eq_none.1 found entry mem)
    | some first =>
        have up := below first (List.mem_of_find?_eq_some found) (List.find?_some found)
        have down := least first found entry mem own
        rw [Option.map_some, UInt32.le_antisymm down up]

/-! ### Offsets on a line -/

/-- What it is for a point to be on a line: it is visible and covers the line. -/
theorem isOn_iff : isOn document line entry ↔
    entry.1 = document ∧ ∃ range, entry.2.range = some range ∧ range.covers line := by
  rw [isOn, Bool.and_eq_true, decide_eq_true_iff, SequencePoint.covers, Option.any_eq_true]

/-- The range of a visible point is one of the ranges of its method. -/
theorem exists_visibleRanges? (points : snapshot.points? method = some entries)
    (mem : entry ∈ entries) {range : SourceRange} (visible : entry.2.range = some range) :
    ∃ ranges, snapshot.visibleRanges? method = some ranges ∧ (entry.1, range) ∈ ranges := by
  refine ⟨_, visibleRanges?_of_points? points, List.mem_filterMap.2 ⟨entry, mem, ?_⟩⟩
  rw [visible, Option.map_some]

/-- A method with a point on a line has an extent that covers it. -/
theorem Sound.exists_covering_extent (h : snapshot.Sound)
    (points : snapshot.points? method = some entries) (mem : entry ∈ entries)
    (on : isOn document line entry) :
    ∃ extent ∈ snapshot.state.lines.extentsIn document,
      extent.method = method ∧ extent.covers line := by
  obtain ⟨rfl, range, visible, covered⟩ := isOn_iff.1 on
  obtain ⟨ranges, resolved, range_mem⟩ := exists_visibleRanges? points mem visible
  obtain ⟨extent, extent_mem, own, starts, ends⟩ := h.exists_extent resolved range_mem
  rw [SourceRange.covers, Bool.and_eq_true, decide_eq_true_iff, decide_eq_true_iff] at covered
  refine ⟨extent, extent_mem, own, ?_⟩
  rw [Extent.covers, Bool.and_eq_true, decide_eq_true_iff, decide_eq_true_iff]
  exact ⟨UInt32.le_trans starts covered.1, UInt32.le_trans covered.2 ends⟩

/-- **Which offsets there are on a line**: for each method with points on the line the least of
their offsets. The extents leave none of them out. -/
theorem Sound.mem_offsetsOn_iff (h : snapshot.Sound) {offset : UInt32} :
    (method, offset) ∈ snapshot.offsetsOn document line ↔
      ∃ entries, snapshot.points? method = some entries ∧
        ∃ entry ∈ entries, isOn document line entry ∧ entry.2.codeOffset = offset ∧
          ∀ other ∈ entries, isOn document line other → offset ≤ other.2.codeOffset := by
  rw [offsetsOn, List.mem_filterMap]
  constructor
  · rintro ⟨⟨candidate, version⟩, -, h⟩
    obtain ⟨entries, points, h⟩ := Option.bind_eq_some_iff.1 h
    obtain ⟨first, found, h⟩ := Option.bind_eq_some_iff.1 h
    obtain ⟨rfl, rfl⟩ := Prod.mk.inj (Option.some.inj h)
    refine ⟨entries, points, (find?_offset_eq_some_iff (ascending_of_points? points)).1 ?_⟩
    rw [found, Option.map_some]
  · rintro ⟨entries, points, entry, mem, on, rest⟩
    obtain ⟨extent, extent_mem, rfl, covers⟩ := h.exists_covering_extent points mem on
    have hit : (extent.method, extent.version) ∈ snapshot.methodsOn document line :=
      h.faithful.mem_hits_iff.2 ⟨extent, extent_mem, covers, rfl, rfl⟩
    obtain ⟨first, found, rfl⟩ := Option.map_eq_some_iff.1
      ((find?_offset_eq_some_iff (ascending_of_points? points)).2 ⟨entry, mem, on, rest⟩)
    exact ⟨_, hit, Option.bind_eq_some_iff.2 ⟨entries, points,
      Option.bind_eq_some_iff.2 ⟨first, found, rfl⟩⟩⟩

/-- Offsets ascend by method, and so there is one for each method at most. -/
theorem Sound.pairwise_offsetsOn (h : snapshot.Sound) (document : DocumentId) (line : UInt32) :
    (snapshot.offsetsOn document line).Pairwise (·.1.val < ·.1.val) := by
  refine (h.linesAnswered.hits_ascend document line).filterMap _ ?_
  rintro ⟨first, _⟩ ⟨second, _⟩ lt _ found _ found'
  obtain ⟨_, -, rest⟩ := Option.bind_eq_some_iff.1 found
  obtain ⟨_, -, rest⟩ := Option.bind_eq_some_iff.1 rest
  obtain rfl := Option.some.inj rest
  obtain ⟨_, -, rest⟩ := Option.bind_eq_some_iff.1 found'
  obtain ⟨_, -, rest⟩ := Option.bind_eq_some_iff.1 rest
  obtain rfl := Option.some.inj rest
  exact lt

/-- There are offsets on a line if a method has a point there. -/
theorem Sound.offsetsOn_ne_nil (h : snapshot.Sound)
    (points : snapshot.points? method = some entries) (mem : entry ∈ entries)
    (on : isOn document line entry) : snapshot.offsetsOn document line ≠ [] := by
  cases found : entries.find? (isOn document line) with
  | none => exact absurd on (List.find?_eq_none.1 found entry mem)
  | some first =>
      have some_offset := (find?_offset_eq_some_iff (ascending_of_points? points)).1
        (congrArg (Option.map (·.2.codeOffset)) found)
      exact List.ne_nil_of_mem (h.mem_offsetsOn_iff.2 ⟨entries, points, some_offset⟩)

/-! ### The search for the next line -/

/-- The line that a point stands for is not in front of the one asked about, and the point is on
it. -/
theorem isOn_of_coveredLine? (points : snapshot.points? method = some entries)
    (mem : entry ∈ entries) (h : coveredLine? document line entry = some value) :
    line ≤ value ∧ isOn document value entry := by
  obtain ⟨rfl, range, visible, next⟩ := coveredLine?_eq_some_iff.1 h
  obtain ⟨ranges, resolved, range_mem⟩ := exists_visibleRanges? points mem visible
  have forward := startLine_le_endLine resolved range_mem
  exact ⟨SourceRange.le_of_nextLine? next,
    isOn_iff.2 ⟨rfl, range, visible, SourceRange.covers_of_nextLine? forward next⟩⟩

/-- What one round of the search finds is a line from the given one on that a point is on. -/
theorem exists_isOn_of_searchFrom {cursor : UInt32}
    (h : snapshot.searchFrom document line cursor = .found value) :
    line ≤ value ∧ ∃ method entries, snapshot.points? method = some entries ∧
      ∃ entry ∈ entries, isOn document value entry := by
  rw [searchFrom] at h
  split at h
  · next closest least =>
    obtain rfl := Search.found.inj h
    obtain ⟨extent, -, covered⟩ := List.mem_flatMap.1 (List.min?_eq_some_iff.1 least).1
    obtain ⟨entry, mem, covered⟩ := List.mem_filterMap.1 covered
    cases points : snapshot.points? extent.method with
    | none =>
        rw [points] at mem
        exact absurd mem List.not_mem_nil
    | some entries =>
        rw [points, Option.getD_some] at mem
        obtain ⟨le, on⟩ := isOn_of_coveredLine? points mem covered
        exact ⟨le, extent.method, entries, points, entry, mem, on⟩
  · split at h
    · cases h
    · split at h <;> cases h

/-- So it is with what any number of rounds find. -/
theorem exists_isOn_of_searchRounds {rounds : Nat} {cursor : UInt32}
    (h : snapshot.searchRounds document line rounds cursor = some value) :
    line ≤ value ∧ ∃ method entries, snapshot.points? method = some entries ∧
      ∃ entry ∈ entries, isOn document value entry := by
  induction rounds generalizing cursor with
  | zero => cases h
  | succ rounds ih =>
      rw [searchRounds] at h
      split at h
      · next found =>
        obtain rfl := Option.some.inj h
        exact exists_isOn_of_searchFrom found
      · cases h
      · exact ih h

/-- An extent that covers the line is looked at in the first round. -/
theorem Sound.mem_nextExtents_of_covers (h : snapshot.Sound) {extent : Extent}
    (mem : extent ∈ snapshot.state.lines.extentsIn document) (covers : extent.covers line) :
    extent ∈ snapshot.state.lines.nextExtents document line := by
  rw [Extent.covers, Bool.and_eq_true, decide_eq_true_iff, decide_eq_true_iff] at covers
  rcases h.faithful.mem_or_exists_before (fun _ => h.minLine_le_maxLine) mem covers.2 with
    looked_at | ⟨candidate, looked_at, before⟩
  · exact looked_at
  · -- A candidate in front of the extent would be over by the line.
    have ahead := (h.of_mem_nextExtents looked_at).2
    exact absurd (UInt32.lt_of_lt_of_le before (UInt32.le_trans covers.1 ahead))
      (UInt32.lt_irrefl _)

/-- **Asked about a line that a point is on, the search stays there.** -/
theorem Sound.nextCodeLine?_of_isOn (h : snapshot.Sound)
    (points : snapshot.points? method = some entries) (mem : entry ∈ entries)
    (on : isOn document line entry) : snapshot.nextCodeLine? document line = some line := by
  obtain ⟨extent, extent_mem, rfl, covers⟩ := h.exists_covering_extent points mem on
  obtain ⟨own, range, visible, covered⟩ := isOn_iff.1 on
  have here : line ∈ snapshot.linesAhead document line := by
    refine List.mem_flatMap.2 ⟨extent, h.mem_nextExtents_of_covers extent_mem covers, ?_⟩
    rw [points, Option.getD_some]
    exact List.mem_filterMap.2 ⟨entry, mem,
      coveredLine?_eq_some_iff.2 ⟨own, range, visible, if_pos covered⟩⟩
  have least : (snapshot.linesAhead document line).min? = some line := by
    refine List.min?_eq_some_iff.2 ⟨here, fun other found => ?_⟩
    obtain ⟨candidate, -, found⟩ := List.mem_flatMap.1 found
    obtain ⟨_, -, found⟩ := List.mem_filterMap.1 found
    obtain ⟨-, _, -, next⟩ := coveredLine?_eq_some_iff.1 found
    exact SourceRange.le_of_nextLine? next
  rw [nextCodeLine?, searchRounds, searchFrom, ← linesAhead, least]

/-! ### Rounds -/

/-- The extents in a document that are not over by a line. -/
def extentsFrom (snapshot : Snapshot) (document : DocumentId) (cursor : UInt32) : List Extent :=
  (snapshot.state.lines.extentsIn document).filter (cursor ≤ ·.maxLine)

/-- A round that goes on does so on the line behind an extent that it looked at. -/
theorem exists_mem_nextExtents_of_resume {cursor next : UInt32}
    (round : snapshot.searchFrom document line cursor = .resume next) :
    ∃ left ∈ snapshot.state.lines.nextExtents document cursor,
      next.toNat = left.maxLine.toNat + 1 := by
  rw [searchFrom] at round
  split at round
  · cases round
  · split at round
    · cases round
    · next last least =>
      split at round
      · next fits =>
        obtain rfl := Search.resume.inj round
        obtain ⟨left, mem, rfl⟩ := List.mem_map.1 (List.min?_eq_some_iff.1 least).1
        refine ⟨left, mem, ?_⟩
        rw [UInt32.toNat_add]
        exact Nat.mod_eq_of_lt fits
      · cases round

/-- A round that goes on leaves an extent behind. -/
theorem Sound.length_extentsFrom_lt (h : snapshot.Sound) {cursor next : UInt32}
    (round : snapshot.searchFrom document line cursor = .resume next) :
    (snapshot.extentsFrom document next).length <
      (snapshot.extentsFrom document cursor).length := by
  obtain ⟨left, mem, after⟩ := exists_mem_nextExtents_of_resume round
  obtain ⟨own, ahead⟩ := h.of_mem_nextExtents mem
  have behind : ¬next ≤ left.maxLine := by
    rw [UInt32.le_iff_toNat_le]
    omega
  have fewer : snapshot.extentsFrom document next =
      (snapshot.extentsFrom document cursor).filter (next ≤ ·.maxLine) := by
    rw [extentsFrom, extentsFrom, List.filter_filter]
    refine List.filter_congr fun extent _ => ?_
    have further : next ≤ extent.maxLine → cursor ≤ extent.maxLine := by
      rw [UInt32.le_iff_toNat_le, UInt32.le_iff_toNat_le]
      rw [UInt32.le_iff_toNat_le] at ahead
      omega
    simpa using further
  rw [fewer, List.length_filter_lt_length_iff_exists]
  exact ⟨left, List.mem_filter.2 ⟨own, decide_eq_true ahead⟩, by simpa using behind⟩

/-- **No search needs more rounds than there are extents ahead**, and one. -/
theorem Sound.searchRounds_eq (h : snapshot.Sound) {rounds more : Nat} {cursor : UInt32}
    (enough : (snapshot.extentsFrom document cursor).length < rounds)
    (enough' : (snapshot.extentsFrom document cursor).length < more) :
    snapshot.searchRounds document line rounds cursor =
      snapshot.searchRounds document line more cursor := by
  induction rounds generalizing cursor more with
  | zero => exact absurd enough (Nat.not_lt_zero _)
  | succ rounds ih =>
      rcases more with _ | more
      · exact absurd enough' (Nat.not_lt_zero _)
      · rw [searchRounds, searchRounds]
        cases round : snapshot.searchFrom document line cursor with
        | found closest => rfl
        | exhausted => rfl
        | resume next =>
            have fewer := h.length_extentsFrom_lt round
            exact ih (by omega) (by omega)

/-- So the search for the next line with code is not cut off. -/
theorem Sound.searchRounds_eq_nextCodeLine? (h : snapshot.Sound) {rounds : Nat}
    (enough : (snapshot.state.lines.extentsIn document).length < rounds) :
    snapshot.searchRounds document line rounds line = snapshot.nextCodeLine? document line := by
  have few : (snapshot.extentsFrom document line).length ≤
      (snapshot.state.lines.extentsIn document).length := List.length_filter_le _ _
  exact h.searchRounds_eq (by omega) (by omega)

/-! ### All questions -/

/-- Questions about offsets are answered from the points of methods. -/
structure OffsetsAnswered (snapshot : Snapshot) : Prop where
  /-- Offsets on a line ascend by method. -/
  ascending : ∀ document line,
    (snapshot.offsetsOn document line).Pairwise (·.1.val < ·.1.val)
  /-- There is one for each method with visible points on the line, the least of theirs. -/
  mem_iff : ∀ document line method offset,
    (method, offset) ∈ snapshot.offsetsOn document line ↔
      ∃ entries, snapshot.points? method = some entries ∧
        ∃ entry ∈ entries, isOn document line entry ∧ entry.2.codeOffset = offset ∧
          ∀ other ∈ entries, isOn document line other → offset ≤ other.2.codeOffset
  /-- Methods with points are known. -/
  known : ∀ method, (snapshot.points? method).isSome → (snapshot.place? method).isSome
  /-- The next line with code is not in front of the line asked about, there are offsets on it, and
  it is its own next line with code. -/
  next : ∀ document line value, snapshot.nextCodeLine? document line = some value →
    line ≤ value ∧ snapshot.offsetsOn document value ≠ [] ∧
      snapshot.nextCodeLine? document value = some value
  /-- More rounds of the search do not find more. -/
  rounds : ∀ document line rounds, (snapshot.state.lines.extentsIn document).length < rounds →
    snapshot.searchRounds document line rounds line = snapshot.nextCodeLine? document line

/-- A sound version answers questions about offsets from points. -/
theorem Sound.offsetsAnswered (h : snapshot.Sound) : snapshot.OffsetsAnswered where
  ascending := h.pairwise_offsetsOn
  mem_iff _ _ _ _ := h.mem_offsetsOn_iff
  known method points := by
    obtain ⟨entries, points⟩ := Option.isSome_iff_exists.1 points
    obtain ⟨place, placed, -⟩ := Option.bind_eq_some_iff.1 points
    exact Option.isSome_of_mem placed
  next document line value found := by
    obtain ⟨le, method, entries, points, entry, mem, on⟩ := exists_isOn_of_searchRounds found
    exact ⟨le, h.offsetsOn_ne_nil points mem on, h.nextCodeLine?_of_isOn points mem on⟩
  rounds _ _ _ := h.searchRounds_eq_nextCodeLine?

end Snapshot

namespace Session

/-- **Questions about offsets are answered from the points of methods**, in every version of a
session whose updates have numbered rows. -/
theorem offsets_follow_points {events : List Event}
    (numbered : ∀ update, .offer update ∈ events → update.metadata.Numbered) {version : Nat}
    {snapshot : Snapshot} (known : (ofEvents events).at? version = some snapshot) :
    snapshot.OffsetsAnswered :=
  (sound_ofEvents numbered version snapshot known).offsetsAnswered

/-- A program with one method, which has moved from line 10 by three lines: its only point is on
line 13, and starts at offset 0. -/
theorem offsets_follow_points_moveDown :
    (∀ update, .offer update ∈ [Event.offer oneMethod, .offer moveDown] →
      update.metadata.Numbered) ∧
      ∃ snapshot, (ofEvents [.offer oneMethod, .offer moveDown]).at? 2 = some snapshot ∧
        snapshot.OffsetsAnswered ∧ (⟨1⟩, 0) ∈ snapshot.offsetsOn ⟨1⟩ 13 := by
  obtain ⟨snapshot, known, -, points, -⟩ := exists_points?_moveDown
  have answered := offsets_follow_points numbered_oneMethod_moveDown known
  refine ⟨numbered_oneMethod_moveDown, snapshot, known, answered, (answered.mem_iff _ _ _ _).2
    ⟨_, points, _, List.mem_singleton_self _, by decide, rfl, fun other mem _ => ?_⟩⟩
  rw [List.mem_singleton.1 mem]
  exact UInt32.le_refl _

end Session

end SymbolHistory
