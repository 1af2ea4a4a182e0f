import SymbolHistory.Proofs.Session.Step
import SymbolHistory.Proofs.LineIndex.Lookup

/-!
# Lines of methods over a session

A session never works the lines of all methods out anew. It moves extents, gives a method new ones,
or leaves them. In every version they still are the lines of the points of the method's current
debug information, moved by all deltas since it got its body.

## Main definitions

* `Snapshot.Tracks` : a map from methods to spans says of each method where its points are.
* `Snapshot.Sound` : the line index of a version says where points are.
* `Session.Sound` : all versions are like that.

## Main results

* `Session.Taken.tracks`, `Session.Sound.apply` : taking in an update keeps it so.
* `Session.sound_ofEvents` : whatever happens to a session, its versions are sound.
-/

namespace SymbolHistory

/-- Numbers of generations go up to their number. -/
theorem le_size_of_generationAt? {generations : Array Generation} {number : Nat}
    {generation : Generation} (found : generationAt? generations number = some generation) :
    number ≤ generations.size := by
  rw [generationAt?] at found
  obtain ⟨positive, found⟩ := Option.ite_none_left_eq_some.1 found
  have lt := (Array.getElem?_eq_some_iff.1 found).1
  omega

namespace Snapshot

/-- The version and the spans of a method are those of its points: of the ones at its place, which
`owner` owns, moved by its deltas. -/
structure LinesFrom (generations : Array Generation) (place : MethodPlace)
    (deltas : Option LineDeltas) (entry : Nat × List Span) (owner : Generation)
    (points : List SequencePoint) : Prop where
  /-- The points are the ones at the place. -/
  at_place : PointsAt generations place owner points
  /-- The version is the one that the place says. -/
  version : entry.1 = place.generation
  /-- The deltas leave all lines valid, so that more of them can be added. -/
  valid : ∀ total, deltas = some total → total.strayLine? points = none
  /-- The spans are those of the moved points. -/
  spans : Span.ofPoints owner.documentId? (moved deltas points) = .ok entry.2

/-- A map from methods to versions and spans says of each method where its points are. -/
structure Tracks (snapshot : Snapshot) (content : LineIndex.Content) : Prop where
  /-- An unknown method has no spans. -/
  unknown : ∀ method, snapshot.place? method = none → (content method).2 = []
  /-- A known one has those of its points. -/
  known : ∀ method place, snapshot.place? method = some place →
    ∃ owner points, LinesFrom snapshot.generations place (snapshot.deltas? method)
      (content method) owner points

/-- The debug information of methods is in generations that are there. -/
theorem Tracks.generation_lt {snapshot : Snapshot} {content : LineIndex.Content}
    (h : snapshot.Tracks content) {method : MethodId} {place : MethodPlace}
    (placed : snapshot.place? method = some place) :
    place.generation < snapshot.version + 1 := by
  obtain ⟨owner, points, lines⟩ := h.known method place placed
  exact Nat.lt_succ_of_le (le_size_of_generationAt? lines.at_place.owner_at)

/-- The line index of a snapshot is right: what it remembers are its runs, and its extents are those
of the points. -/
structure Sound (snapshot : Snapshot) : Prop where
  /-- What the index remembers is right. -/
  faithful : snapshot.state.lines.Faithful
  /-- Its extents are those of the points. -/
  tracked : ∃ content, snapshot.state.lines.Represents content ∧ snapshot.Tracks content

end Snapshot

/-! ### Generations that stay -/

/-- All generations of the first list are in the second one, with the same rows. What they remember
may differ. -/
def Keeps (before after : Array Generation) : Prop :=
  ∀ number owner, generationAt? before number = some owner →
    ∃ same, generationAt? after number = some same ∧
      same.metadata = owner.metadata ∧ same.documentIds = owner.documentIds

/-- A generation that is added has the next number. -/
theorem generationAt?_push_size (generations : Array Generation) (generation : Generation) :
    generationAt? (generations.push generation) (generations.size + 1) = some generation := by
  rw [generationAt?, if_neg (Nat.succ_ne_zero _), Nat.add_sub_cancel]
  exact Array.getElem?_push_size

/-- The generation with the next number is the one that is added. -/
theorem generationAt?_push (generations : Array Generation) (generation : Generation)
    (number : Nat) :
    generationAt? (generations.push generation) number =
      if number = generations.size + 1 then some generation
      else generationAt? generations number := by
  by_cases last : number = generations.size + 1
  · rw [if_pos last, last, generationAt?_push_size]
  · rw [if_neg last, generationAt?, generationAt?]
    by_cases zero : number = 0
    · rw [if_pos zero, if_pos zero]
    · rw [if_neg zero, if_neg zero, Array.getElem?_push, if_neg (by omega)]

theorem keeps_push (generations : Array Generation) (generation : Generation) :
    Keeps generations (generations.push generation) := by
  intro number owner found
  have le := le_size_of_generationAt? found
  exact ⟨owner, by rw [generationAt?_push, if_neg (by omega), found], rfl, rfl⟩

/-- Lines still come from points after generations have been added. -/
theorem Snapshot.LinesFrom.keep {before after : Array Generation} (keeps : Keeps before after)
    {place : MethodPlace} {deltas : Option LineDeltas} {entry : Nat × List Span}
    {owner : Generation} {points : List SequencePoint}
    (h : LinesFrom before place deltas entry owner points) :
    ∃ same, LinesFrom after place deltas entry same points := by
  obtain ⟨same, found, metadata, documentIds⟩ := keeps _ _ h.at_place.owner_at
  have documents : same.documentId? = owner.documentId? := by
    funext row
    rw [Generation.documentId?, documentIds]
    rfl
  refine ⟨same, ⟨found, ?_⟩, h.version, h.valid, ?_⟩
  · rw [metadata]
    exact h.at_place.decoded
  · rw [documents]
    exact h.spans

theorem PointsAt.unique {generations : Array Generation} {place : MethodPlace}
    {owner other : Generation} {points more : List SequencePoint}
    (h : PointsAt generations place owner points) (h' : PointsAt generations place other more) :
    other = owner ∧ more = points := by
  obtain rfl := Option.some.inj (h'.owner_at.symm.trans h.owner_at)
  obtain ⟨record, found, decoded⟩ := h.decoded
  obtain ⟨record', found', decoded'⟩ := h'.decoded
  obtain rfl := Option.some.inj (found'.symm.trans found)
  exact ⟨rfl, Except.ok.inj (decoded'.symm.trans decoded)⟩

/-! ### A method that moves -/

/-- Points that move again move from where they are. -/
theorem moved_total {known : Option LineDeltas} {deltas : LineDeltas}
    {points : List SequencePoint}
    (between : ∀ total, known = some total → total.strayLine? points = none)
    (atEnd : (known.elim deltas (· + deltas)).strayLine? points = none) :
    (known.elim deltas (· + deltas)).apply points =
      deltas.apply (Snapshot.moved known points) := by
  cases known with
  | none => rfl
  | some total => exact LineDeltas.apply_add (between total rfl) atEnd

/-- **Both ways to move a method end up at its points.** Uniform deltas shift the spans, others have
them worked out anew. -/
theorem Snapshot.LinesFrom.move {generations : Array Generation} {place : MethodPlace}
    {known : Option LineDeltas} {entry : Nat × List Span} {owner : Generation}
    {points : List SequencePoint} (h : LinesFrom generations place known entry owner points)
    {method : MethodId} {deltas : LineDeltas} {move : Move}
    (planned : Move.Planned method place.generation owner known deltas points move) :
    LinesFrom generations place (some move.total) (move.effect.entry entry) owner points := by
  have total := planned.total_eq
  have again : move.total.apply points = deltas.apply (moved known points) := by
    rw [total]
    exact moved_total h.valid (total ▸ planned.valid)
  rcases planned.effect with ⟨uniform, effect⟩ | ⟨spans, worked, effect⟩
  · rw [effect]
    refine ⟨h.at_place, h.version, ?_, ?_⟩
    · rintro _ ⟨⟩
      exact planned.valid
    · rw [moved, again, LineDeltas.apply_of_isUniform uniform]
      exact Span.ofPoints_map_shift h.spans deltas.common
  · rw [effect]
    refine ⟨h.at_place, rfl, ?_, worked⟩
    rintro _ ⟨⟩
    exact planned.valid

/-! ### A method with a new body -/

/-- Numbered records with the same number are the same. -/
theorem Metadata.Numbered.eq_of_rid_eq {metadata : Metadata} (h : metadata.Numbered)
    {record other : MethodDebug} (mem : record ∈ metadata.methods)
    (other_mem : other ∈ metadata.methods) (eq : record.rid = other.rid) : record = other := by
  have found := h.method?_rid mem
  rw [eq, h.method?_rid other_mem] at found
  exact (Option.some.inj found).symm

/-- The spans of a record are those of its points, for the method that it belongs to. -/
theorem MethodSpans.ofRecord_eq_ok {generation : Nat} {documentOf : UInt32 → Option DocumentId}
    {methodOf : UInt32 → Option MethodId} {record : MethodDebug} {new : MethodSpans}
    (h : ofRecord generation documentOf methodOf record = .ok new) :
    methodOf record.rid = some new.method ∧ new.version = generation ∧
      ∃ points, record.points = .ok points ∧ Span.ofPoints documentOf points = .ok new.spans := by
  rw [ofRecord] at h
  cases found : methodOf record.rid with
  | none =>
      simp only [found] at h
      cases h
  | some method =>
      simp only [found] at h
      obtain ⟨points, decoded, h⟩ := Outcome.bind_eq_ok_iff.1 h
      obtain ⟨spans, worked, h⟩ := Outcome.bind_eq_ok_iff.1 h
      obtain rfl := Except.ok.inj h
      exact ⟨rfl, rfl, points, decoded, worked⟩

namespace Session

section Step

variable {session : Session} {update : Update} {generation : Generation} {moves : List Move}
  {spans : List MethodSpans} {entries : List (MethodDebug × MethodId)}

/-- New spans belong to methods that rows are assigned to. -/
theorem Taken.exists_record (h : session.Taken update generation moves spans)
    (numbered : update.metadata.Numbered)
    (assigned : MethodRegistry.Assigned (session.version + 1) session.state.methods entries
      (generation.state.methods, generation.methodIds))
    (rows : entries.map (·.1) = update.metadata.methods.toList) {new : MethodSpans}
    (mem : new ∈ spans) :
    ∃ record, (record, new.method) ∈ entries ∧
      MethodSpans.ofRecord (session.version + 1) generation.documentId? generation.methodId?
        record = .ok new := by
  obtain ⟨record, record_mem, eq⟩ :=
    Outcome.exists_of_mem_results (Outcome.mapM_eq_ok_iff.2 h.measured) mem
  obtain ⟨found, -⟩ := MethodSpans.ofRecord_eq_ok eq
  obtain ⟨other, other_mem, rid⟩ := (assigned.ids _ _).1 found
  have known : other ∈ update.metadata.methods.toList := rows ▸ List.mem_map_of_mem other_mem
  obtain rfl := numbered.eq_of_rid_eq (Array.mem_toList_iff.1 known)
    (Array.mem_toList_iff.1 record_mem) rid
  exact ⟨other, other_mem, eq⟩

/-- A method with a new body has the spans of its points in the new generation. -/
theorem Taken.linesFrom_of_mem (h : session.Taken update generation moves spans)
    (numbered : update.metadata.Numbered)
    (assigned : MethodRegistry.Assigned (session.version + 1) session.state.methods entries
      (generation.state.methods, generation.methodIds))
    (rows : entries.map (·.1) = update.metadata.methods.toList) {record : MethodDebug}
    {method : MethodId} (mem : (record, method) ∈ entries) (content : LineIndex.Content) :
    ∃ points, Snapshot.LinesFrom (session.generations.push generation)
      ⟨record.rid, session.version + 1⟩ none (content.replaceAll spans method) generation
      points := by
  have known : record ∈ update.metadata.methods :=
    Array.mem_toList_iff.1 (rows ▸ List.mem_map_of_mem mem)
  obtain ⟨new, new_mem, measured⟩ := Outcome.exists_result_of_mem
    (Outcome.mapM_eq_ok_iff.2 h.measured) (Array.mem_toList_iff.2 known)
  obtain ⟨found, version, points, decoded, worked⟩ := MethodSpans.ofRecord_eq_ok measured
  have own : generation.methodId? record.rid = some method :=
    (assigned.ids _ _).2 ⟨record, mem, rfl⟩
  obtain rfl := Option.some.inj (own.symm.trans found)
  have entry : content.replaceAll spans new.method = (new.version, new.spans) := by
    refine LineIndex.Content.replaceAll_of_mem new_mem fun other other_mem same => ?_
    obtain ⟨record', mem', measured'⟩ := h.exists_record numbered assigned rows other_mem
    rw [same] at mem'
    -- Both records are where the method's debug information is.
    have place := (assigned.placed _ _ mem').symm.trans (assigned.placed _ _ mem)
    have rid : record'.rid = record.rid := congrArg MethodPlace.row (Option.some.inj place)
    have known' : record' ∈ update.metadata.methods :=
      Array.mem_toList_iff.1 (rows ▸ List.mem_map_of_mem mem')
    obtain rfl := numbered.eq_of_rid_eq known' known rid
    exact Except.ok.inj (measured'.symm.trans measured)
  refine ⟨points, ⟨?_, record, ?_, decoded⟩, ?_, ?_, ?_⟩
  · exact generationAt?_push_size _ _
  · rw [h.metadata]
    exact numbered.method?_rid known
  · rw [entry]
    exact version
  · rintro _ ⟨⟩
  · rw [entry]
    exact worked

/-- A method with a new body has the new row as its debug information, and has not moved since. -/
theorem Taken.record?_of_mem (h : session.Taken update generation moves spans)
    (numbered : update.metadata.Numbered)
    (assigned : MethodRegistry.Assigned (session.version + 1) session.state.methods entries
      (generation.state.methods, generation.methodIds))
    (rows : entries.map (·.1) = update.metadata.methods.toList) {record : MethodDebug}
    {method : MethodId} (mem : (record, method) ∈ entries) :
    Snapshot.record? ⟨session.generations.push generation, generation.state⟩ method =
        some record ∧
      Snapshot.deltas? ⟨session.generations.push generation, generation.state⟩ method = none := by
  have known : record ∈ update.metadata.methods :=
    Array.mem_toList_iff.1 (rows ▸ List.mem_map_of_mem mem)
  have redefined : (redefinedMethods generation.methodIds).contains method = true :=
    contains_redefinedMethods.2 ⟨record.rid, (assigned.ids _ _).2 ⟨record, mem, rfl⟩⟩
  constructor
  · have placed : Snapshot.place? ⟨session.generations.push generation, generation.state⟩ method =
        some ⟨record.rid, session.version + 1⟩ := assigned.placed record method mem
    have owned : Snapshot.generation? ⟨session.generations.push generation, generation.state⟩
        (session.version + 1) = some generation := generationAt?_push_size _ _
    rw [Snapshot.record?, placed, Option.bind_eq_bind, Option.bind_some, owned,
      Option.bind_eq_bind, Option.bind_some, h.metadata]
    exact numbered.method?_rid known
  · have still : ∀ move ∈ moves, move.method ≠ method := by
      rintro move move_mem rfl
      have kept := (Move.exists_plan_of_mem h.planned move_mem).1
      rw [redefined] at kept
      cases kept
    rw [Snapshot.deltas?, h.deltas, getElem?_updateDeltas _ _ still, if_pos redefined]

/-- A method without a new body gets no new spans with the rows of the generation. -/
theorem Taken.replaceAll_of_forall_notMem (h : session.Taken update generation moves spans)
    (numbered : update.metadata.Numbered)
    (assigned : MethodRegistry.Assigned (session.version + 1) session.state.methods entries
      (generation.state.methods, generation.methodIds))
    (rows : entries.map (·.1) = update.metadata.methods.toList) {method : MethodId}
    (kept : ∀ record, (record, method) ∉ entries) (content : LineIndex.Content) :
    content.replaceAll spans method = content method := by
  refine LineIndex.Content.replaceAll_of_forall_ne fun new mem same => ?_
  obtain ⟨record, record_mem, -⟩ := h.exists_record numbered assigned rows mem
  exact kept record (same ▸ record_mem)

/-- The methods with a new body are the ones that rows are assigned to. -/
theorem contains_redefinedMethods_of_assigned {number : Nat} {before : MethodRegistry}
    {progress : MethodRegistry.Progress}
    (assigned : MethodRegistry.Assigned number before entries progress) {method : MethodId} :
    (redefinedMethods progress.2).contains method = true ↔
      ∃ record, (record, method) ∈ entries := by
  rw [contains_redefinedMethods]
  constructor
  · rintro ⟨row, found⟩
    obtain ⟨record, mem, -⟩ := (assigned.ids _ _).1 found
    exact ⟨record, mem⟩
  · rintro ⟨record, mem⟩
    exact ⟨record.rid, (assigned.ids _ _).2 ⟨record, mem, rfl⟩⟩

/-- A method that moves has the spans of its moved points. -/
theorem Taken.linesFrom_of_move (h : session.Taken update generation moves spans)
    {content : LineIndex.Content} (represents : session.state.lines.Represents content)
    (tracks : Snapshot.Tracks ⟨session.generations, session.state⟩ content) {move : Move}
    (mem : move ∈ moves)
    (same : generation.state.methods.place? move.method =
      session.state.methods.place? move.method) :
    ∃ place, session.state.methods.place? move.method = some place ∧
      ∃ owner points, Snapshot.LinesFrom (session.generations.push generation) place
        generation.state.deltas[move.method]?
        (Move.performOn session.state.lines content moves move.method) owner points := by
  have nodup := Move.nodup_methods_of_planAll h.planned
  obtain ⟨-, summed, planned⟩ := Move.exists_plan_of_mem h.planned mem
  obtain ⟨place, owner, points, placed, at_place, planned⟩ := Move.plan_eq_ok planned
  have placed : session.state.methods.place? move.method = some place := same ▸ placed
  obtain ⟨owner', points', lines⟩ := tracks.known move.method place placed
  obtain ⟨rfl, rfl⟩ := at_place.unique lines.at_place
  obtain ⟨owner, lines⟩ := (lines.move planned).keep (keeps_push _ generation)
  refine ⟨place, placed, owner, points', ?_⟩
  rw [Move.performOn_of_mem represents nodup mem, h.deltas,
    getElem?_updateDeltas_of_mem _ _ nodup mem]
  exact lines

/-- **Taking in an update keeps track of all points**: of those of methods with a new body, of those
that move, and of all others. -/
theorem Taken.tracks (h : session.Taken update generation moves spans)
    (numbered : update.metadata.Numbered) {content : LineIndex.Content}
    (represents : session.state.lines.Represents content)
    (tracks : Snapshot.Tracks ⟨session.generations, session.state⟩ content) :
    Snapshot.Tracks ⟨session.generations.push generation, generation.state⟩
      ((Move.performOn session.state.lines content moves).replaceAll spans) := by
  obtain ⟨assigned, rows⟩ := MethodRegistry.assigned_of_update numbered
    (fun _ _ => tracks.generation_lt) h.methods
  set entries := MethodRegistry.entriesOf update.metadata (session.version + 1)
  have redefined : ∀ method, (redefinedMethods generation.methodIds).contains method = true ↔
      ∃ record, (record, method) ∈ entries :=
    fun method => contains_redefinedMethods_of_assigned assigned
  have unmoved : ∀ move ∈ moves, ∀ record, (record, move.method) ∉ entries := by
    intro move mem record record_mem
    have kept := (Move.exists_plan_of_mem h.planned mem).1
    rw [(redefined _).2 ⟨record, record_mem⟩] at kept
    cases kept
  constructor
  · intro method unplaced
    have unplaced : generation.state.methods.place? method = none := unplaced
    have kept : ∀ record, (record, method) ∉ entries := by
      intro record mem
      cases unplaced.symm.trans (assigned.placed record method mem)
    have before := unplaced ▸ assigned.kept method kept
    have still : ∀ move ∈ moves, move.method ≠ method := by
      rintro move mem rfl
      obtain ⟨place, placed, -⟩ :=
        h.linesFrom_of_move represents tracks mem (assigned.kept _ kept)
      cases before.trans placed
    rw [h.replaceAll_of_forall_notMem numbered assigned rows kept,
      Move.performOn_of_forall_ne still]
    exact tracks.unknown method before.symm
  · intro method place placed
    have placed : generation.state.methods.place? method = some place := placed
    change ∃ owner points,
      Snapshot.LinesFrom _ place generation.state.deltas[method]? _ owner points
    by_cases given : ∃ record, (record, method) ∈ entries
    · -- A new body: the place and the spans are those of the new row.
      obtain ⟨record, mem⟩ := given
      obtain rfl := Option.some.inj (placed.symm.trans (assigned.placed record method mem))
      have still : ∀ move ∈ moves, move.method ≠ method := by
        rintro move move_mem rfl
        exact unmoved move move_mem record mem
      obtain ⟨points, lines⟩ := h.linesFrom_of_mem numbered assigned rows mem
        (Move.performOn session.state.lines content moves)
      refine ⟨generation, points, ?_⟩
      rw [h.deltas, getElem?_updateDeltas _ _ still, if_pos ((redefined method).2 ⟨record, mem⟩)]
      exact lines
    · have kept : ∀ record, (record, method) ∉ entries := fun record mem => given ⟨record, mem⟩
      have same := assigned.kept method kept
      rw [h.replaceAll_of_forall_notMem numbered assigned rows kept]
      by_cases moving : ∃ move ∈ moves, move.method = method
      · -- A move: the place stays, and the spans move.
        obtain ⟨move, mem, rfl⟩ := moving
        obtain ⟨place', placed', lines⟩ := h.linesFrom_of_move represents tracks mem same
        obtain rfl := Option.some.inj (placed'.symm.trans (same.symm.trans placed))
        exact lines
      · -- Neither: nothing changes.
        have still : ∀ move ∈ moves, move.method ≠ method := fun move mem eq =>
          moving ⟨move, mem, eq⟩
        obtain ⟨owner, points, lines⟩ := tracks.known method place (same.symm.trans placed)
        obtain ⟨owner, lines⟩ := lines.keep (keeps_push _ generation)
        refine ⟨owner, points, ?_⟩
        rw [Move.performOn_of_forall_ne still, h.deltas, getElem?_updateDeltas _ _ still,
          if_neg fun contained => given ((redefined method).1 contained)]
        exact lines

end Step

/-! ### Runs -/

/-- The line index is right in all versions. -/
def Sound (session : Session) : Prop :=
  ∀ version snapshot, session.at? version = some snapshot → snapshot.Sound

theorem sound_empty : empty.Sound := by
  intro version snapshot known
  rw [at?, generationAt?] at known
  split at known
  · cases known
  · simp [empty] at known

/-- What a session knows is what it knew at its last version, if it has one. -/
theorem at?_version {session : Session} (h : session.version ≠ 0) :
    session.at? session.version = some ⟨session.generations, session.state⟩ := by
  rcases session with ⟨generations⟩
  have positive : generations.size ≠ 0 := h
  have last : generations.back? = generations[generations.size - 1]? := Array.back?_eq_getElem?
  rw [Session.state, version, at?, generationAt?, if_neg positive, ← last]
  cases found : generations.back? with
  | none =>
      rw [found] at last
      have := Array.getElem?_eq_none_iff.1 last.symm
      omega
  | some generation =>
      rw [Option.map_some, Array.take_eq_extract, Array.extract_size]

/-- What a session knows is right, also before its first generation. -/
theorem Sound.state {session : Session} (h : session.Sound) :
    Snapshot.Sound ⟨session.generations, session.state⟩ := by
  by_cases first : session.version = 0
  · obtain ⟨generations⟩ := session
    obtain rfl : generations = #[] := Array.size_eq_zero_iff.1 first
    refine ⟨LineIndex.faithful_empty, LineIndex.Content.empty, LineIndex.represents_empty,
      fun _ _ => rfl, fun method place placed => ?_⟩
    simp [Snapshot.place?, Session.state, State.empty, MethodRegistry.empty,
      MethodRegistry.place?] at placed
  · exact h _ _ (at?_version first)

/-- **Taking in an update leaves all versions right**, the new one included. -/
theorem Sound.apply {session new : Session} {update : Update} (h : session.Sound)
    (numbered : update.metadata.Numbered) (eq : session.apply update = .ok new) : new.Sound := by
  obtain ⟨generation, next, rfl⟩ := apply_eq_ok_iff.1 eq
  obtain ⟨moves, spans, taken⟩ := next_eq_ok_iff.1 next
  intro version snapshot known
  rw [at?_push] at known
  by_cases last : version = session.version + 1
  · rw [if_pos last, Option.some.injEq] at known
    obtain rfl := known
    obtain ⟨faithful, content, represents, tracks⟩ := h.state
    refine ⟨?_, _, ?_, taken.tracks numbered represents tracks⟩
    · have moved := faithful.perform (.shift (moves.flatMap (Move.shifts session.state.lines)))
      have reshaped := moved.perform (.replace (moves.filterMap Move.newSpans?))
      rw [taken.lines]
      exact reshaped.perform (.replace spans)
    · rw [taken.lines]
      exact (Move.represents_performAll represents moves).replaceAll spans
  · rw [if_neg last] at known
    exact h version snapshot known

/-- Of the first generations, those with a higher number are not there. -/
theorem generationAt?_take (generations : Array Generation) (count number : Nat) :
    generationAt? (generations.take count) number =
      if number ≤ count then generationAt? generations number else none := by
  rw [generationAt?, generationAt?, Array.take_eq_extract, Array.getElem?_extract]
  by_cases zero : number = 0
  · simp only [if_pos zero, ite_self]
  · rw [if_neg zero, if_neg zero, Nat.zero_add, Nat.sub_zero]
    by_cases le : number ≤ count
    · rw [if_pos le]
      split
      · rfl
      · next out => exact (Array.getElem?_eq_none (by omega)).symm
    · rw [if_neg le, if_neg (by omega)]

/-- Remembering runs changes the generation of the version, and only what it remembers. -/
theorem generationAt?_remember (session : Session) (version : Nat) (document : DocumentId)
    (number : Nat) :
    generationAt? (session.remember version document).generations number =
      (generationAt? session.generations number).map fun generation =>
        if version = number then
          { generation with state.lines := generation.state.lines.remember document }
        else generation := by
  rw [remember, generationAt?, generationAt?]
  by_cases zero : number = 0
  · rw [if_pos zero, if_pos zero, Option.map_none]
  · rw [if_neg zero, if_neg zero]
    by_cases first : version = 0
    · have other : version ≠ number := fun eq => zero (eq ▸ first)
      simp only [if_pos first, if_neg other, Option.map_id']
    · rw [if_neg first, Array.getElem?_modify]
      by_cases same : version = number
      · subst same
        simp only [if_pos]
      · rw [if_neg (by omega)]
        simp only [if_neg same, Option.map_id']

/-- A version after runs have been remembered: what is known is what was, up to that. -/
theorem exists_at?_of_remember {session : Session} {version number : Nat} {document : DocumentId}
    {snapshot : Snapshot} (known : (session.remember version document).at? number = some snapshot) :
    ∃ before, session.at? number = some before ∧ Keeps before.generations snapshot.generations ∧
      (snapshot.state = before.state ∨
        snapshot.state = { before.state with lines := before.state.lines.remember document }) := by
  rw [at?, generationAt?_remember, Option.map_map] at known
  obtain ⟨generation, found, rfl⟩ := Option.map_eq_some_iff.1 known
  refine ⟨⟨session.generations.take number, generation.state⟩, ?_, ?_, ?_⟩
  · rw [at?, found, Option.map_some]
  · intro other owner found
    change generationAt? (session.generations.take number) other = some owner at found
    change ∃ same, generationAt? ((session.remember version document).generations.take number)
      other = some same ∧ _
    rw [generationAt?_take] at found ⊢
    by_cases le : other ≤ number
    · rw [if_pos le] at found
      rw [if_pos le, generationAt?_remember, found, Option.map_some]
      refine ⟨_, rfl, ?_⟩
      split <;> exact ⟨rfl, rfl⟩
    · rw [if_neg le] at found
      cases found
  · rw [Function.comp_apply]
    by_cases same : version = number
    · exact .inr (by simp only [if_pos same])
    · exact .inl (by simp only [if_neg same])

theorem Sound.remember {session : Session} (h : session.Sound) (version : Nat)
    (document : DocumentId) : (session.remember version document).Sound := by
  intro number snapshot known
  obtain ⟨before, known, keeps, state⟩ := exists_at?_of_remember known
  obtain ⟨faithful, content, represents, unknown, tracked⟩ := h number before known
  have tracks : snapshot.Tracks content := by
    constructor
    · intro method unplaced
      refine unknown method ?_
      rcases state with state | state <;> rwa [Snapshot.place?, state] at unplaced
    · intro method place placed
      have placed : before.place? method = some place := by
        rcases state with state | state <;> rwa [Snapshot.place?, state] at placed
      obtain ⟨owner, points, lines⟩ := tracked method place placed
      obtain ⟨owner, lines⟩ := lines.keep keeps
      have deltas : snapshot.deltas? method = before.deltas? method := by
        rcases state with state | state <;> rw [Snapshot.deltas?, state] <;> rfl
      rw [deltas]
      exact ⟨owner, points, lines⟩
  rcases state with state | state
  · exact ⟨state ▸ faithful, content, state ▸ represents, tracks⟩
  · exact ⟨state ▸ faithful.remember document, content, state ▸ represents.remember document,
      tracks⟩

/-- **Whatever happens to a session, its versions are right**, as long as the rows of updates are
numbered. -/
theorem sound_ofEvents {events : List Event}
    (numbered : ∀ update, .offer update ∈ events → update.metadata.Numbered) :
    (ofEvents events).Sound := by
  refine List.foldlRecOn events perform sound_empty fun session h event mem => ?_
  cases event with
  | ask version document => exact h.remember version document
  | offer update =>
      rw [perform]
      cases applied : session.apply update with
      | error e => exact h
      | ok new => exact h.apply (numbered update mem) applied

end Session

end SymbolHistory
