import SymbolHistory.Proofs.Session.DeltaHistory

/-!
# Methods over a session

Rows are numbered anew in every generation, and which methods they belong to is said by numbers, by
maps and by places in lists. All of it stays in step. The debug information of a method is the row
of the last generation that assigns one to it, and this is the row that the generation itself, the
extents of the method and the number of methods know about.

## Main definitions

* `AssignedBy` : the updates that assign a row to a method.
* `MethodPlace.LastAssigned` : the place that the last of them assigns.
* `Snapshot.Assigns` : a version has its methods from its updates.
* `Snapshot.PlacesMethods` : what it answers about methods.

## Main results

* `Session.assigns_at` : every version has its methods from its updates.
* `Session.methods_follow_rows` : so it answers accordingly.
-/

namespace SymbolHistory

/-- The update with a number, counted from 1, assigns a row to a method. -/
def AssignedBy (updates : List Update) (number : Nat) (row : UInt32) (method : MethodId) : Prop :=
  ∃ i update, number = i + 1 ∧ updates[i]? = some update ∧
    update.metadata.AssignsRow number row method

/-- The last update that assigns a row to a method assigns this place. -/
structure MethodPlace.LastAssigned (place : MethodPlace) (updates : List Update)
    (method : MethodId) : Prop where
  /-- The place is assigned. -/
  assigned : AssignedBy updates place.generation place.row method
  /-- No later one is. -/
  last : ∀ number row, AssignedBy updates number row method → number ≤ place.generation

/-- Only updates that are there assign rows. -/
theorem AssignedBy.le_length {updates : List Update} {number : Nat} {row : UInt32}
    {method : MethodId} (h : AssignedBy updates number row method) :
    number ≤ updates.length := by
  obtain ⟨i, update, rfl, found, -⟩ := h
  exact (List.getElem?_eq_some_iff.1 found).1

/-- One more update assigns its own rows. -/
theorem assignedBy_append_singleton_iff {updates : List Update} {update : Update} {number : Nat}
    {row : UInt32} {method : MethodId} :
    AssignedBy (updates ++ [update]) number row method ↔
      AssignedBy updates number row method ∨
        number = updates.length + 1 ∧ update.metadata.AssignsRow number row method := by
  constructor
  · rintro ⟨i, other, rfl, found, assigned⟩
    rw [List.getElem?_append] at found
    by_cases lt : i < updates.length
    · rw [if_pos lt] at found
      exact .inl ⟨i, other, rfl, found, assigned⟩
    · rw [if_neg lt, List.getElem?_singleton] at found
      obtain ⟨last, ⟨rfl⟩⟩ := Option.ite_none_right_eq_some.1 found
      exact .inr ⟨by omega, assigned⟩
  · rintro (⟨i, other, rfl, found, assigned⟩ | ⟨rfl, assigned⟩)
    · have lt := (List.getElem?_eq_some_iff.1 found).1
      exact ⟨i, other, rfl, by rwa [List.getElem?_append_left lt], assigned⟩
    · exact ⟨updates.length, update, rfl, List.getElem?_concat_length, assigned⟩

/-- One more update assigns nothing to the methods that it gives no row. -/
theorem assignedBy_append_singleton_iff_of_kept {updates : List Update} {update : Update}
    {method : MethodId}
    (kept : ∀ row, ¬update.metadata.AssignsRow (updates.length + 1) row method) {number : Nat}
    {row : UInt32} :
    AssignedBy (updates ++ [update]) number row method ↔ AssignedBy updates number row method := by
  rw [assignedBy_append_singleton_iff, or_iff_left]
  rintro ⟨rfl, assigned⟩
  exact kept row assigned

/-- The last place that was assigned to a method stays the last one. -/
theorem MethodPlace.LastAssigned.append {place : MethodPlace} {updates : List Update}
    {method : MethodId} (h : place.LastAssigned updates method) {update : Update}
    (kept : ∀ row, ¬update.metadata.AssignsRow (updates.length + 1) row method) :
    place.LastAssigned (updates ++ [update]) method where
  assigned := (assignedBy_append_singleton_iff_of_kept kept).2 h.assigned
  last number row assigned :=
    h.last number row ((assignedBy_append_singleton_iff_of_kept kept).1 assigned)

namespace Snapshot

/-- The methods of a version, and of its generations, are those that updates assign rows to. -/
structure Assigns (snapshot : Snapshot) (updates : List Update) : Prop where
  /-- Every update has made a generation. -/
  size : snapshot.version = updates.length
  /-- The rows of the generation belong to the methods that the update assigns them to. -/
  rows : ∀ i update, updates[i]? = some update →
    ∃ generation, snapshot.generation? (i + 1) = some generation ∧
      generation.metadata = update.metadata ∧
      ∀ row method, generation.methodId? row = some method ↔
        update.metadata.AssignsRow (i + 1) row method
  /-- No update assigns two rows to a method. -/
  single : ∀ number row other method, AssignedBy updates number row method →
    AssignedBy updates number other method → row = other
  /-- A known method has the row that was assigned last. -/
  placed : ∀ method place, snapshot.place? method = some place →
    place.LastAssigned updates method
  /-- No row was ever assigned to an unknown method. -/
  unplaced : ∀ method, snapshot.place? method = none →
    ∀ number row, ¬AssignedBy updates number row method

/-- Versions that are alike have the same methods. -/
theorem Assigns.keep {snapshot other : Snapshot} {updates : List Update}
    (h : other.Assigns updates) (alike : snapshot.Alike other) : snapshot.Assigns updates := by
  have places := alike.answersAlike.place?
  obtain ⟨size, rows, single, placed, unplaced⟩ := h
  rw [← places] at placed unplaced
  refine ⟨alike.answersAlike.version.trans size, fun i update found => ?_, single, placed, unplaced⟩
  obtain ⟨same, owned, metadata, methods⟩ := rows i update found
  obtain ⟨generation, owned', same_alike⟩ := alike.generations.exists_alike_of_other owned
  refine ⟨generation, owned', same_alike.metadata.trans metadata, fun row method => ?_⟩
  rw [Generation.methodId?, same_alike.methodIds]
  exact methods row method

/-- The answers about a method whose debug information is at a place. -/
structure KnowsAt (snapshot : Snapshot) (updates : List Update) (method : MethodId)
    (place : MethodPlace) : Prop where
  /-- Its debug information is the row at the place. -/
  record : ∃ update record, updates[place.generation - 1]? = some update ∧
    update.metadata.method? place.row = some record ∧ snapshot.record? method = some record
  /-- The generation at the place knows that the row belongs to the method. -/
  owner : ∃ owner, snapshot.generation? place.generation = some owner ∧
    owner.methodId? place.row = some method
  /-- All extents of the method are from that generation. -/
  extents : ∀ document, ∀ extent ∈ snapshot.state.lines.extentsIn document,
    extent.method = method → extent.version = place.generation

/-- What a version answers about methods is what its updates say. -/
structure PlacesMethods (snapshot : Snapshot) (updates : List Update) : Prop where
  /-- The debug information of a method is where the last update has assigned it. -/
  place?_eq_some_iff : ∀ method place,
    snapshot.place? method = some place ↔ place.LastAssigned updates method
  /-- A method is unknown if no row was ever assigned to it. -/
  place?_eq_none_iff : ∀ method,
    snapshot.place? method = none ↔ ∀ number row, ¬AssignedBy updates number row method
  /-- All that is known of a method is from that place. -/
  known : ∀ method place, snapshot.place? method = some place →
    snapshot.KnowsAt updates method place
  /-- An unknown method has not moved and is nowhere. -/
  unknown : ∀ method, snapshot.place? method = none → snapshot.deltas? method = none ∧
    ∀ document, ∀ extent ∈ snapshot.state.lines.extentsIn document, extent.method ≠ method
  /-- The known methods are counted, each once. -/
  methodCount_eq : ∃ methods : List MethodId, methods.Nodup ∧
    snapshot.methodCount = methods.length ∧
    ∀ method, method ∈ methods ↔ ∃ number row, AssignedBy updates number row method
  /-- No two rows of a generation belong to the same method. -/
  methodId?_inj : ∀ number generation, snapshot.generation? number = some generation →
    ∀ row other method, generation.methodId? row = some method →
      generation.methodId? other = some method → row = other

variable {snapshot : Snapshot} {updates : List Update}

/-- The debug information of a method is where the last update has assigned it. -/
theorem Assigns.place?_eq_some_iff (h : snapshot.Assigns updates) {method : MethodId}
    {place : MethodPlace} :
    snapshot.place? method = some place ↔ place.LastAssigned updates method := by
  constructor
  · exact h.placed method place
  · intro latest
    cases known : snapshot.place? method with
    | none => exact absurd latest.assigned (h.unplaced method known _ _)
    | some found =>
        have latest' := h.placed method found known
        obtain ⟨row, generation⟩ := place
        obtain ⟨row', generation'⟩ := found
        obtain rfl : generation' = generation :=
          Nat.le_antisymm (latest.last _ _ latest'.assigned) (latest'.last _ _ latest.assigned)
        obtain rfl := h.single _ _ _ _ latest.assigned latest'.assigned
        rfl

/-- A method is unknown if no row was ever assigned to it. -/
theorem Assigns.place?_eq_none_iff (h : snapshot.Assigns updates) {method : MethodId} :
    snapshot.place? method = none ↔ ∀ number row, ¬AssignedBy updates number row method := by
  constructor
  · exact h.unplaced method
  · intro never
    cases known : snapshot.place? method with
    | none => rfl
    | some place => exact absurd (h.placed method place known).assigned (never _ _)

/-- All that is known of a method is from the place of its debug information. -/
theorem Assigns.knowsAt (h : snapshot.Assigns updates) (sound : snapshot.Sound)
    {method : MethodId} {place : MethodPlace} (placed : snapshot.place? method = some place) :
    snapshot.KnowsAt updates method place := by
  obtain ⟨⟨i, update, number, found, assigned⟩, -⟩ := h.placed method place placed
  obtain ⟨owner, owned, metadata, methods⟩ := h.rows i update found
  rw [← number] at owned methods
  obtain ⟨-, content, represents, tracks⟩ := sound
  constructor
  · obtain ⟨record, has⟩ := Option.isSome_iff_exists.1 assigned.1
    refine ⟨update, record, by rwa [number, Nat.add_sub_cancel], has, ?_⟩
    rw [record?, placed, Option.bind_eq_bind, Option.bind_some, owned, Option.bind_eq_bind,
      Option.bind_some, metadata, has]
  · exact ⟨owner, owned, (methods _ _).2 assigned⟩
  · rintro document extent mem rfl
    obtain ⟨owner, points, lines⟩ := tracks.known _ place placed
    exact (represents.mem_extentsIn_iff.1 mem).1.trans lines.version

/-- An unknown method has no extents. -/
theorem Sound.extent_method_ne (h : snapshot.Sound) {method : MethodId}
    (unplaced : snapshot.place? method = none) {document : DocumentId} {extent : Extent}
    (mem : extent ∈ snapshot.state.lines.extentsIn document) : extent.method ≠ method := by
  rintro rfl
  obtain ⟨-, content, represents, tracks⟩ := h
  have spans := (represents.mem_extentsIn_iff.1 mem).2
  rw [tracks.unknown _ unplaced] at spans
  exact absurd spans List.not_mem_nil

/-- A version that has its methods from its updates answers accordingly. -/
theorem Assigns.placesMethods (h : snapshot.Assigns updates) (sound : snapshot.Sound)
    (still : ∀ method, snapshot.place? method = none → snapshot.deltas? method = none) :
    snapshot.PlacesMethods updates where
  place?_eq_some_iff _ _ := h.place?_eq_some_iff
  place?_eq_none_iff _ := h.place?_eq_none_iff
  known _ _ := h.knowsAt sound
  unknown method unplaced :=
    ⟨still method unplaced, fun _ _ mem => sound.extent_method_ne unplaced mem⟩
  methodCount_eq := by
    refine ⟨snapshot.state.methods.places.keys, Std.HashMap.nodup_keys,
      Std.HashMap.length_keys.symm, fun method => ?_⟩
    have known : method ∈ snapshot.state.methods.places.keys ↔ snapshot.place? method ≠ none := by
      rw [Std.HashMap.mem_keys, Std.HashMap.mem_iff_isSome_getElem?, Option.isSome_iff_ne_none]
      rfl
    rw [known, ne_eq, h.place?_eq_none_iff]
    simp only [not_forall, not_not]
  methodId?_inj number generation owned row other method own own' := by
    have le : number ≤ updates.length := h.size ▸ le_size_of_generationAt? owned
    rcases number with _ | i
    · cases owned
    · obtain ⟨same, owned', -, methods⟩ :=
        h.rows i updates[i] (List.getElem?_eq_getElem le)
      obtain rfl := Option.some.inj (owned'.symm.trans owned)
      exact h.single (i + 1) row other method
        ⟨i, _, rfl, List.getElem?_eq_getElem le, (methods _ _).1 own⟩
        ⟨i, _, rfl, List.getElem?_eq_getElem le, (methods _ _).1 own'⟩

end Snapshot

namespace Session

theorem assigns_empty : empty.known.Assigns [] where
  size := rfl
  rows i update found := by cases found
  single number row other method assigned := absurd assigned.le_length (by
    obtain ⟨i, -, rfl, -⟩ := assigned
    exact Nat.not_succ_le_zero i)
  placed method place placed := by cases (place?_known_empty method).symm.trans placed
  unplaced method _ number row := by
    rintro ⟨i, update, -, found, -⟩
    cases found

/-- **Taking in an update assigns its rows** to their methods, and to no others. -/
theorem Taken.assigns {session : Session} {updates : List Update} {update : Update}
    {generation : Generation} {moves : List Move} {spans : List MethodSpans}
    (h : session.Taken update generation moves spans) (sound : session.Sound)
    (numbered : update.metadata.Numbered) (assigns : session.known.Assigns updates) :
    Snapshot.Assigns ⟨session.generations.push generation, generation.state⟩
      (updates ++ [update]) := by
  have fate := h.fate sound numbered
  have version : session.version = updates.length := assigns.size
  constructor
  · rw [Snapshot.version, Array.size_push, List.length_append, List.length_singleton, ← version]
    rfl
  · intro i other found
    rw [List.getElem?_append] at found
    have owned : Snapshot.generation? ⟨session.generations.push generation, generation.state⟩
        (i + 1) = if i + 1 = session.version + 1 then some generation
          else session.known.generation? (i + 1) := generationAt?_push _ _ _
    by_cases lt : i < updates.length
    · rw [if_pos lt] at found
      rw [owned, if_neg (by omega)]
      exact assigns.rows i other found
    · rw [if_neg lt, List.getElem?_singleton] at found
      obtain ⟨last, ⟨rfl⟩⟩ := Option.ite_none_right_eq_some.1 found
      obtain rfl : i = session.version := by omega
      rw [owned, if_pos rfl]
      exact ⟨generation, rfl, h.metadata, fun row method => h.methodId?_eq_some_iff sound numbered⟩
  · intro number row other method assigned assigned'
    rw [assignedBy_append_singleton_iff] at assigned assigned'
    rcases assigned with before | ⟨last, own⟩
    · rcases assigned' with before' | ⟨last, -⟩
      · exact assigns.single _ _ _ _ before before'
      · have := before.le_length
        omega
    · rcases assigned' with before | ⟨-, own'⟩
      · have := before.le_length
        omega
      · rw [last, ← version] at own own'
        have placed := (h.place?_of_assignsRow sound numbered own).symm.trans
          (h.place?_of_assignsRow sound numbered own')
        exact congrArg MethodPlace.row (Option.some.inj placed)
  · intro method found placed
    cases fate method with
    | redefined row own place _ =>
        obtain rfl := Option.some.inj (place.symm.trans placed)
        refine ⟨assignedBy_append_singleton_iff.2 (.inr ⟨congrArg (· + 1) version, own⟩), ?_⟩
        intro number other assigned
        have le := assigned.le_length
        rwa [List.length_append, List.length_singleton, ← version] at le
    | moved kept _ _ place _ | untouched kept _ place _ =>
        rw [version] at kept
        exact (assigns.placed method found (place.symm.trans placed)).append kept
  · intro method unplaced number row
    cases fate method with
    | redefined _ _ place _ => cases place.symm.trans unplaced
    | moved kept _ _ place _ | untouched kept _ place _ =>
        rw [version] at kept
        rw [assignedBy_append_singleton_iff_of_kept kept]
        exact assigns.unplaced method (place.symm.trans unplaced) number row

/-- **Every version has its methods from its updates**, whatever happened before, as long as the
rows of updates are numbered. -/
theorem assigns_at {events : List Event}
    (numbered : ∀ update, .offer update ∈ events → update.metadata.Numbered) {version : Nat}
    {snapshot : Snapshot} (known : (ofEvents events).at? version = some snapshot) :
    snapshot.Assigns ((empty.accepted events).take version) :=
  at?_induction_of_numbered numbered assigns_empty (fun _ _ _ alike assigns => assigns.keep alike)
    (fun _ _ _ _ _ _ sound own _ assigns taken => taken.assigns sound own assigns) known

/-- **Methods follow their rows.** In every version, the debug information of a method is the row
that the last of the updates up to then assigned to it. Where it is, what it is, whose it is and how
many methods there are is all answered accordingly. -/
theorem methods_follow_rows {events : List Event}
    (numbered : ∀ update, .offer update ∈ events → update.metadata.Numbered) {version : Nat}
    {snapshot : Snapshot} (known : (ofEvents events).at? version = some snapshot) :
    snapshot.PlacesMethods ((empty.accepted events).take version) := by
  have sound := sound_ofEvents numbered version snapshot known
  exact (assigns_at numbered known).placesMethods sound (adds_at numbered known).unplaced

/-- A program with one method, which moves and keeps its row. -/
theorem methods_follow_rows_moveDown :
    (∀ update, .offer update ∈ [Event.offer oneMethod, .offer moveDown] →
      update.metadata.Numbered) ∧
      ∃ snapshot, (ofEvents [.offer oneMethod, .offer moveDown]).at? 2 = some snapshot ∧
        snapshot.place? ⟨1⟩ = some ⟨1, 1⟩ ∧ snapshot.PlacesMethods [oneMethod, moveDown] := by
  obtain ⟨accepted, snapshot, known, placed, -⟩ := exists_at?_moveDown
  have places := methods_follow_rows numbered_oneMethod_moveDown known
  rw [accepted] at places
  exact ⟨numbered_oneMethod_moveDown, snapshot, known, placed, places⟩

end Session

end SymbolHistory
