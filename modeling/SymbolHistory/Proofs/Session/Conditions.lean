import SymbolHistory.Proofs.LineTable.Failure
import SymbolHistory.Proofs.Session.DeltaSums
import SymbolHistory.Proofs.Session.Lines

/-!
# What it takes to take in an update

An update has to meet five conditions, which are checked one after the other: about its deltas as a
whole, its documents, its method rows, the methods that move, and the new bodies. What earlier
generations have, later ones can look up, so a method that moves and a record that is measured fail
for no other reason than those below.

## Main definitions

* `Snapshot.storedPoints?` : the points of a method where they are stored.
* `Snapshot.Movable`, `Snapshot.MoveFault` : a method can move by some deltas, or why not.
* `Metadata.Resolves`, `Metadata.BodyFault` : a record can be measured, or why not.
* `Session.Admits` : the five conditions.
* `Session.Refuses` : the error of the first condition that does not hold.

## Main results

* `Move.plan_cases`, `Move.planAll_cases` : how the methods fare that move.
* `MethodSpans.ofRecord_cases`, `MethodSpans.ofMetadata_cases` : how the new bodies fare.
* `MethodRegistry.coversRows_iff` : what an update has to say about its method rows.
* `Session.Refuses.not_admits` : no update is both admitted and refused.
-/

namespace SymbolHistory

/-! ### Methods that move -/

namespace Snapshot

/-- The points that the current debug information of a method says, where they are stored. -/
def storedPoints? (snapshot : Snapshot) (method : MethodId) : Option (List SequencePoint) := do
  (← snapshot.record? method).points.toOption

/-- All deltas of a method with some more of them. -/
def totalWith (snapshot : Snapshot) (method : MethodId) (deltas : LineDeltas) : LineDeltas :=
  (snapshot.deltas? method).elim deltas (· + deltas)

/-- A method is known and can move by some deltas: if single points have deltas then all of them
have, and all lines stay valid. -/
def Movable (snapshot : Snapshot) (method : MethodId) (deltas : LineDeltas) : Prop :=
  ∃ points, snapshot.storedPoints? method = some points ∧
    (deltas.single = [] ∨ deltas.single.length = points.length) ∧
    (snapshot.totalWith method deltas).strayLine? points = none

/-- Why a method cannot move by some deltas. -/
inductive MoveFault (snapshot : Snapshot) (method : MethodId) (deltas : LineDeltas) : Error → Prop
  /-- It is not known. -/
  | unknown (unplaced : snapshot.place? method = none) :
    MoveFault snapshot method deltas (.unknownMethod method)
  /-- Single points have deltas, but more or fewer than there are. -/
  | count {points : List SequencePoint} (stored : snapshot.storedPoints? method = some points)
    (some : deltas.single ≠ []) (ne : deltas.single.length ≠ points.length) :
    MoveFault snapshot method deltas
      (.deltaCount method points.length deltas.single.length)
  /-- A line leaves the valid ones. -/
  | range {points : List SequencePoint} {line : Int}
    (stored : snapshot.storedPoints? method = some points)
    (fit : deltas.single = [] ∨ deltas.single.length = points.length)
    (stray : (snapshot.totalWith method deltas).strayLine? points = Option.some line) :
    MoveFault snapshot method deltas (.deltaRange method line)

variable {snapshot : Snapshot} {method : MethodId} {deltas : LineDeltas}

theorem storedPoints?_of_pointsAt {place : MethodPlace} {owner : Generation}
    {points : List SequencePoint} (placed : snapshot.place? method = some place)
    (h : PointsAt snapshot.generations place owner points) :
    snapshot.storedPoints? method = some points := by
  obtain ⟨record, found, decoded⟩ := h.decoded
  have owned : snapshot.generation? place.generation = some owner := h.owner_at
  have known : snapshot.record? method = some record := by
    rw [record?, placed, Option.bind_eq_bind, Option.bind_some, owned, Option.bind_eq_bind,
      Option.bind_some, found]
  rw [storedPoints?, known, Option.bind_eq_bind, Option.bind_some, decoded]
  rfl

/-- The documents of a method's visible points are known. -/
theorem LinesFrom.rowsKnown {generations : Array Generation} {place : MethodPlace}
    {deltas : Option LineDeltas} {entry : Nat × List Span} {owner : Generation}
    {points : List SequencePoint} (h : LinesFrom generations place deltas entry owner points) :
    Span.RowsKnown owner.documentId? points := by
  have known : Span.RowsKnown owner.documentId? (moved deltas points) := by
    rcases Span.ofPoints_cases owner.documentId? (moved deltas points) with
      ⟨known, -⟩ | ⟨point, -, -, -, failed⟩
    · exact known
    · cases failed.symm.trans h.spans
  cases deltas with
  | none => exact known
  | some deltas => exact LineDeltas.rowsKnown_apply.1 known

/-- A method without a place has no points. -/
theorem storedPoints?_of_unplaced (unplaced : snapshot.place? method = none) :
    snapshot.storedPoints? method = none := by
  rw [storedPoints?, record?, unplaced]
  rfl

/-- A method that can move has no fault. -/
theorem MoveFault.not_movable {e : Error} (h : MoveFault snapshot method deltas e) :
    ¬snapshot.Movable method deltas := by
  rintro ⟨points, stored, fit, valid⟩
  cases h with
  | unknown unplaced =>
      rw [storedPoints?_of_unplaced unplaced] at stored
      cases stored
  | count stored' some ne =>
      obtain rfl := Option.some.inj (stored'.symm.trans stored)
      rcases fit with none | eq
      · exact some none
      · exact ne eq
  | range stored' _ stray =>
      obtain rfl := Option.some.inj (stored'.symm.trans stored)
      rw [valid] at stray
      cases stray

end Snapshot

namespace Move

open Snapshot

theorem fits_iff {deltas : LineDeltas} {count : Nat} :
    fits deltas count = true ↔ deltas.single = [] ∨ deltas.single.length = count := by
  simp [fits]

/-- How the plan for given points fares, if their documents are known. -/
theorem planPoints_cases {method : MethodId} {version : Nat} {owner : Generation}
    {known : Option LineDeltas} {deltas : LineDeltas} {points : List SequencePoint}
    (rows : Span.RowsKnown owner.documentId? points) :
    (fits deltas points.length = true ∧
      (known.elim deltas (· + deltas)).strayLine? points = none ∧
      ∃ move, planPoints method version owner known deltas points = .ok move) ∨
    (fits deltas points.length = true ∧ ∃ line,
      (known.elim deltas (· + deltas)).strayLine? points = some line ∧
      planPoints method version owner known deltas points = .error (.deltaRange method line)) ∨
    (¬fits deltas points.length = true ∧
      planPoints method version owner known deltas points =
        .error (.deltaCount method points.length deltas.single.length)) := by
  rw [planPoints]
  by_cases fit : fits deltas points.length = true
  · rw [if_pos fit]
    cases stray : (known.elim deltas (· + deltas)).strayLine? points with
    | some line => exact .inr (.inl ⟨fit, line, rfl, rfl⟩)
    | none =>
        refine .inl ⟨fit, rfl, ?_⟩
        dsimp only
        by_cases uniform : deltas.isUniform
        · rw [if_pos uniform]
          exact ⟨_, rfl⟩
        · rw [if_neg uniform]
          rcases Span.ofPoints_cases owner.documentId?
            ((known.elim deltas (· + deltas)).apply points) with
            ⟨-, spans, eq⟩ | ⟨point, mem, visible, unknown, -⟩
          · exact ⟨_, Outcome.bind_of_ok eq⟩
          · -- Moving leaves points in their documents, so their rows are known.
            have found := LineDeltas.rowsKnown_apply.2 rows point mem visible
            rw [unknown] at found
            cases found
  · rw [if_neg fit]
    exact .inr (.inr ⟨fit, rfl⟩)

/-- **How the plan for one method fares**, if the version is right about its points. Its debug
information is there and can be read, as it was when it was taken in. -/
theorem plan_cases {snapshot : Snapshot} {content : LineIndex.Content}
    (tracks : snapshot.Tracks content) {state : State} {method : MethodId}
    (place_eq : state.methods.place? method = snapshot.place? method)
    (deltas_eq : state.deltas = snapshot.state.deltas) (deltas : LineDeltas) :
    (snapshot.Movable method deltas ∧
      ∃ move, plan snapshot.generations state method deltas = .ok move) ∨
    ∃ e, MoveFault snapshot method deltas e ∧
      plan snapshot.generations state method deltas = .error e := by
  cases placed : snapshot.place? method with
  | none =>
      refine .inr ⟨_, .unknown placed, ?_⟩
      simp only [plan, place_eq, placed]
      rfl
  | some place =>
      obtain ⟨owner, points, lines⟩ := tracks.known method place placed
      have stored := storedPoints?_of_pointsAt placed lines.at_place
      have eq : plan snapshot.generations state method deltas =
          planPoints method place.generation owner (snapshot.deltas? method) deltas points := by
        obtain ⟨record, found, decoded⟩ := lines.at_place.decoded
        have owned := generationOf_eq_ok_iff.2 lines.at_place.owner_at
        simp only [plan, place_eq, placed, deltas_eq]
        rw [Outcome.bind_of_ok owned]
        simp only [found]
        exact Outcome.bind_of_ok decoded
      rw [eq]
      rcases planPoints_cases lines.rowsKnown with
        ⟨fit, valid, planned⟩ | ⟨fit, line, stray, failed⟩ | ⟨misfit, failed⟩
      · exact .inl ⟨⟨points, stored, fits_iff.1 fit, valid⟩, planned⟩
      · exact .inr ⟨_, .range stored (fits_iff.1 fit) stray, failed⟩
      · obtain ⟨some, ne⟩ := not_or.1 (fits_iff.not.1 misfit)
        exact .inr ⟨_, .count stored some ne, failed⟩

/-- **How the plan for all methods fares** that move: all of them can, or one of them cannot. -/
theorem planAll_cases {snapshot : Snapshot} {content : LineIndex.Content}
    (tracks : snapshot.Tracks content) {state : State} {redefined : Std.HashSet MethodId}
    (kept : ∀ method, redefined.contains method = false →
      state.methods.place? method = snapshot.place? method)
    (deltas_eq : state.deltas = snapshot.state.deltas) (deltas : List (MethodId × LineDeltas)) :
    ((∀ method ∈ deltas.map (·.1), redefined.contains method = false →
        snapshot.Movable method (sumOf method deltas)) ∧
      ∃ moves, planAll snapshot.generations state redefined deltas = .ok moves) ∨
    ∃ method ∈ deltas.map (·.1), redefined.contains method = false ∧
      ∃ e, MoveFault snapshot method (sumOf method deltas) e ∧
        planAll snapshot.generations state redefined deltas = .error e := by
  have entry_mem : ∀ method sum,
      (method, sum) ∈ (sumByMethod deltas).filter (fun entry => !redefined.contains entry.1) ↔
        (method ∈ deltas.map (·.1) ∧ sum = sumOf method deltas) ∧
          redefined.contains method = false := by
    intro method sum
    rw [List.mem_filter, mem_sumByMethod_iff, Bool.not_eq_true']
  rcases Outcome.mapM_cases (fun entry => plan snapshot.generations state entry.1 entry.2)
    ((sumByMethod deltas).filter fun entry => !redefined.contains entry.1) with
    ⟨each, moves, eq⟩ | ⟨⟨method, sum⟩, mem, e, failed, eq⟩
  · refine .inl ⟨fun method named moving => ?_, moves, eq⟩
    obtain ⟨move, planned⟩ := each (method, sumOf method deltas)
      ((entry_mem _ _).2 ⟨⟨named, rfl⟩, moving⟩)
    rcases plan_cases tracks (kept method moving) deltas_eq (sumOf method deltas) with
      ⟨movable, -⟩ | ⟨e, -, failed⟩
    · exact movable
    · cases failed.symm.trans planned
  · obtain ⟨⟨named, rfl⟩, moving⟩ := (entry_mem _ _).1 mem
    refine .inr ⟨method, named, moving, e, ?_, eq⟩
    rcases plan_cases tracks (kept method moving) deltas_eq (sumOf method deltas) with
      ⟨-, move, planned⟩ | ⟨e', fault, failed'⟩
    · cases failed.symm.trans planned
    · obtain rfl := Except.error.inj (failed'.symm.trans failed)
      exact fault

end Move

/-! ### New bodies -/

namespace Metadata

/-- The line table of a record can be read, and its visible points are in documents that the
metadata has. -/
def Resolves (metadata : Metadata) (record : MethodDebug) : Prop :=
  ∃ points, record.points = .ok points ∧ ∀ point ∈ points, point.range.isSome →
    ∃ document ∈ metadata.documents, document.rid = point.document

/-- Why a record has no lines. -/
inductive BodyFault (metadata : Metadata) (record : MethodDebug) : Error → Prop
  /-- Its line table ends early or breaks the format. -/
  | unreadable {e : Error} (failed : record.points = .error e) (data : e.FromData) :
    BodyFault metadata record e
  /-- A visible point is in a document that the metadata does not have. -/
  | unknownRow {points : List SequencePoint} {point : SequencePoint}
    (read : record.points = .ok points) (mem : point ∈ points) (visible : point.range.isSome)
    (unknown : ∀ document ∈ metadata.documents, document.rid ≠ point.document) :
    BodyFault metadata record (.malformed (.unknownDocumentRow point.document))

/-- A record that has lines has no fault. -/
theorem BodyFault.not_resolves {metadata : Metadata} {record : MethodDebug} {e : Error}
    (h : BodyFault metadata record e) : ¬metadata.Resolves record := by
  rintro ⟨points, read, known⟩
  cases h with
  | unreadable failed _ => cases failed.symm.trans read
  | unknownRow read' mem visible unknown =>
      obtain rfl := Except.ok.inj (read'.symm.trans read)
      obtain ⟨document, document_mem, rid⟩ := known _ mem visible
      exact unknown document document_mem rid

end Metadata

/-- **How one record fares** that belongs to a method, if the documents of the metadata are known
and no others. -/
theorem MethodSpans.ofRecord_cases {metadata : Metadata} {documentOf : UInt32 → Option DocumentId}
    (documents : ∀ row,
      (documentOf row).isSome ↔ ∃ document ∈ metadata.documents, document.rid = row)
    {methodOf : UInt32 → Option MethodId} {record : MethodDebug} {method : MethodId}
    (own : methodOf record.rid = some method) (generation : Nat) :
    (metadata.Resolves record ∧
      ∃ new, ofRecord generation documentOf methodOf record = .ok new) ∨
    ∃ e, metadata.BodyFault record e ∧
      ofRecord generation documentOf methodOf record = .error e := by
  simp only [ofRecord, own]
  cases read : record.points with
  | error e => exact .inr ⟨e, .unreadable read (MethodDebug.fromData_of_points read), rfl⟩
  | ok points =>
      rcases Span.ofPoints_cases documentOf points with
        ⟨known, spans, eq⟩ | ⟨point, mem, visible, unknown, eq⟩
      · refine .inl ⟨⟨points, read, fun point mem visible => ?_⟩, _,
          (Outcome.bind_of_ok rfl).trans (Outcome.bind_of_ok eq)⟩
        exact (documents _).1 (known point mem visible)
      · refine .inr ⟨_, .unknownRow read mem visible fun document document_mem rid => ?_,
          (Outcome.bind_of_ok rfl).trans (Outcome.bind_of_error eq)⟩
        have found := (documents _).2 ⟨document, document_mem, rid⟩
        rw [unknown] at found
        cases found

/-- **How all records fare**, if each belongs to a method: all have lines, or one has none. -/
theorem MethodSpans.ofMetadata_cases (lead : Nat) {metadata : Metadata}
    {documentOf : UInt32 → Option DocumentId}
    (documents : ∀ row,
      (documentOf row).isSome ↔ ∃ document ∈ metadata.documents, document.rid = row)
    {methodOf : UInt32 → Option MethodId}
    (own : ∀ record ∈ metadata.methods, ∃ method, methodOf record.rid = some method)
    (generation : Nat) :
    ((∀ record ∈ metadata.methods, metadata.Resolves record) ∧
      ∃ spans, ofMetadata lead metadata generation documentOf methodOf = .ok spans) ∨
    ∃ record ∈ metadata.methods, ∃ e, metadata.BodyFault record e ∧
      ofMetadata lead metadata generation documentOf methodOf = .error e := by
  rcases Outcome.mapParallel_cases lead (ofRecord generation documentOf methodOf)
    metadata.methods.toList with ⟨each, spans, eq⟩ | ⟨record, mem, e, failed, eq⟩
  · refine .inl ⟨fun record mem => ?_, spans, eq⟩
    obtain ⟨new, measured⟩ := each record (Array.mem_toList_iff.2 mem)
    obtain ⟨method, assigned⟩ := own record mem
    rcases ofRecord_cases documents assigned generation with ⟨resolves, -⟩ | ⟨e, -, failed⟩
    · exact resolves
    · cases failed.symm.trans measured
  · have mem := Array.mem_toList_iff.1 mem
    obtain ⟨method, assigned⟩ := own record mem
    refine .inr ⟨record, mem, e, ?_, eq⟩
    rcases ofRecord_cases documents assigned generation with
      ⟨-, new, measured⟩ | ⟨e', fault, failed'⟩
    · cases failed.symm.trans measured
    · obtain rfl := Except.error.inj (failed'.symm.trans failed)
      exact fault

/-! ### Rows -/

/-- The map of an update names as many method rows as the update has, and different ones, from 1
on. -/
structure Metadata.MapsRows (metadata : Metadata) : Prop where
  /-- There is one for each row. -/
  length_eq : metadata.methodTokens.length = metadata.methods.size
  /-- There is no row 0. -/
  ne_zero : ∀ token ∈ metadata.methodTokens, token.row ≠ 0
  /-- No row is named twice. -/
  nodup : (metadata.methodTokens.map (·.row)).Nodup

namespace MethodRegistry

/-- Rows are covered if there is a number for each, from 1 on and all different. -/
theorem coversRows_iff_of_eq_map {metadata : Metadata} {generation : Nat} {numbers : List UInt32}
    (eq : methodsOfRows metadata generation = numbers.map MethodId.mk) :
    CoversRows metadata generation ↔
      numbers.length = metadata.methods.size ∧ (∀ number ∈ numbers, number ≠ 0) ∧
        numbers.Nodup := by
  have injective : Function.Injective MethodId.mk := fun a b same => MethodId.mk.inj same
  have nonzero : (∀ method ∈ numbers.map MethodId.mk, method.val ≠ 0) ↔
      ∀ number ∈ numbers, number ≠ 0 := List.forall_mem_map
  constructor
  · rintro ⟨length_eq, ne_zero, nodup⟩
    rw [eq] at length_eq ne_zero nodup
    exact ⟨by simpa using length_eq, nonzero.1 ne_zero, nodup.of_map _⟩
  · rintro ⟨length_eq, ne_zero, nodup⟩
    refine ⟨?_, ?_, ?_⟩ <;> rw [eq]
    · simpa using length_eq
    · exact nonzero.2 ne_zero
    · exact nodup.map injective

/-- Rows are covered exactly if the map of the update names them; the first generation has no map
and needs none. -/
theorem coversRows_iff {metadata : Metadata} (numbered : metadata.Numbered) (version : Nat) :
    CoversRows metadata (version + 1) ↔ (version ≠ 0 → metadata.MapsRows) := by
  by_cases first : version = 0
  · subst first
    have own : methodsOfRows metadata 1 =
        (metadata.methods.toList.map (·.rid)).map MethodId.mk := by
      rw [methodsOfRows, if_pos rfl, List.map_map]
      rfl
    refine iff_of_true ((coversRows_iff_of_eq_map own).2 ⟨?_, ?_, ?_⟩) fun ne => absurd rfl ne
    · rw [List.length_map, Array.length_toList]
    · intro number mem zero
      obtain ⟨record, record_mem, rfl⟩ := List.mem_map.1 mem
      obtain ⟨i, lt, rfl⟩ := Array.mem_iff_getElem.1 (Array.mem_toList_iff.1 record_mem)
      have place := numbered.methods i lt
      rw [zero] at place
      cases place
    · exact numbered.nodup_rid_methods
  · have named : methodsOfRows metadata (version + 1) =
        (metadata.methodTokens.map (·.row)).map MethodId.mk := by
      rw [methodsOfRows, if_neg (by omega), List.map_map]
      rfl
    rw [coversRows_iff_of_eq_map named, List.length_map, List.forall_mem_map]
    constructor
    · rintro ⟨length_eq, ne_zero, nodup⟩ _
      exact ⟨length_eq, ne_zero, nodup⟩
    · intro maps
      exact ⟨(maps first).length_eq, (maps first).ne_zero, (maps first).nodup⟩

end MethodRegistry

/-! ### The conditions -/

namespace Session

/-- What a session knows, also before its first generation. -/
def known (session : Session) : Snapshot :=
  ⟨session.generations, session.state⟩

/-- Before the first generation no method is known. -/
theorem place?_known_empty (method : MethodId) : empty.known.place? method = none := by
  simp [known, empty, state, State.empty, MethodRegistry.empty, MethodRegistry.place?,
    Snapshot.place?]

/-- There is something that could move, or nothing has to. -/
def MayMove (session : Session) (update : Update) : Prop :=
  session.version ≠ 0 ∨ update.deltas = []

/-- No document is declared twice. -/
def NamesDiffer (update : Update) : Prop :=
  (update.metadata.documents.toList.map (·.name)).Nodup

instance (session : Session) (update : Update) : Decidable (session.MayMove update) :=
  inferInstanceAs (Decidable (_ ∨ _))

instance (update : Update) : Decidable (NamesDiffer update) :=
  inferInstanceAs (Decidable (List.Nodup _))

/-- After the first generation, the update's map names its rows. -/
def RowsMapped (session : Session) (update : Update) : Prop :=
  session.version ≠ 0 → update.metadata.MapsRows

/-- The methods that an update names deltas for, apart from those that get a new body. -/
def Moving (session : Session) (update : Update) (method : MethodId) : Prop :=
  method ∈ update.deltas.map (·.1) ∧
    method ∉ MethodRegistry.methodsOfRows update.metadata (session.version + 1)

/-- All methods that move can do so by the sum of their deltas. -/
def AllMovable (session : Session) (update : Update) : Prop :=
  ∀ method, session.Moving update method →
    session.known.Movable method (Move.sumOf method update.deltas)

/-- All new bodies have lines. -/
def AllResolve (update : Update) : Prop :=
  ∀ record ∈ update.metadata.methods, update.metadata.Resolves record

/-- What it takes for an update to be taken in. -/
structure Admits (session : Session) (update : Update) : Prop where
  /-- It does not move what is not there yet. -/
  mayMove : session.MayMove update
  /-- It declares no document twice. -/
  namesDiffer : NamesDiffer update
  /-- It says which methods its rows belong to. -/
  rowsMapped : session.RowsMapped update
  /-- It moves known methods to valid lines. -/
  allMovable : session.AllMovable update
  /-- It brings bodies that have lines. -/
  allResolve : AllResolve update

/-- **The error of the first condition that does not hold.** -/
inductive Refuses (session : Session) (update : Update) : Error → Prop
  /-- It moves what is not there yet. -/
  | mayMove (fault : ¬session.MayMove update) :
    Refuses session update (.identityConflict .deltasWithBaseline)
  /-- It declares a document twice. -/
  | namesDiffer (mayMove : session.MayMove update) {name : String}
    (fault : List.Duplicate name (update.metadata.documents.toList.map (·.name))) :
    Refuses session update (.identityConflict (.documentTwice name (session.version + 1)))
  /-- It does not say which methods its rows belong to. -/
  | rowsMapped (mayMove : session.MayMove update) (namesDiffer : NamesDiffer update) {e : Error}
    (fault : MethodRegistry.RowFault update.metadata (session.version + 1) e) :
    Refuses session update e
  /-- It moves a method that is not known, or not to valid lines. -/
  | allMovable (mayMove : session.MayMove update) (namesDiffer : NamesDiffer update)
    (rowsMapped : session.RowsMapped update) {method : MethodId}
    (moving : session.Moving update method) {e : Error}
    (fault : session.known.MoveFault method (Move.sumOf method update.deltas) e) :
    Refuses session update e
  /-- It brings a body that has no lines. -/
  | allResolve (mayMove : session.MayMove update) (namesDiffer : NamesDiffer update)
    (rowsMapped : session.RowsMapped update) (allMovable : session.AllMovable update)
    {record : MethodDebug} (mem : record ∈ update.metadata.methods) {e : Error}
    (fault : update.metadata.BodyFault record e) :
    Refuses session update e

/-- An update is not both admitted and refused. -/
theorem Refuses.not_admits {session : Session} {update : Update} {e : Error}
    (h : session.Refuses update e) (numbered : update.metadata.Numbered) :
    ¬session.Admits update := by
  intro admits
  cases h with
  | mayMove fault => exact fault admits.mayMove
  | namesDiffer _ fault => exact List.nodup_iff_forall_not_duplicate.1 admits.namesDiffer _ fault
  | rowsMapped _ _ fault =>
      exact fault.not_coversRows ((MethodRegistry.coversRows_iff numbered _).2 admits.rowsMapped)
  | allMovable _ _ _ moving fault => exact fault.not_movable (admits.allMovable _ moving)
  | allResolve _ _ _ _ mem fault => exact fault.not_resolves (admits.allResolve _ mem)

end Session

end SymbolHistory
