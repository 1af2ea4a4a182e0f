import SymbolHistory.Proofs.Machine.Documents
import SymbolHistory.Proofs.Machine.LineTable
import SymbolHistory.Proofs.Machine.Metadata
import SymbolHistory.Session.Basic

/-!
# Updates on a machine

What a machine does to take an update in: it counts generations in 32 bits, tells by the upper bits
of tokens which methods rows belong to, decodes line tables, and adds line deltas to lines with
signed numbers of 64 bits.

## Main definitions

* `updateMethods`, `spansOfMetadata` : the methods of an update and their spans.
* `planAll` : what line deltas come to.
* `nextGeneration`, `applyBytes` : the next generation, from bytes.

## Main results

* `nextGeneration_eq`, `applyBytes_eq` : a machine takes an update in as the library does, or fails
  as it does.
-/

namespace SymbolHistory.Machine

open LineTable (VisibleLine)

/-! ### Methods -/

/-- The tokens that refer to a table. -/
def tokensOf (table : Table) : List Token → Exec (List Token)
  | [] => pure []
  | token :: tokens => do
    let number ← tokenTable token
    let more ← tokensOf table tokens
    return if number == table.number then token :: more else more

/-- The methods that the rows of a generation belong to, in order. -/
def methodsOfRows (metadata : Metadata) (generation : Nat) : Exec (List MethodId) := do
  if generation = 1 then
    return metadata.methods.toList.map fun record => ⟨record.rid⟩
  else
    let tokens ← tokensOf .methodDebugInformation metadata.encMap
    return tokens.map fun token => ⟨token.row⟩

/-- Takes in the methods of a generation. -/
def updateMethods (registry : MethodRegistry) (metadata : Metadata) (generation : Nat) :
    Exec MethodRegistry.Progress := do
  let methods ← methodsOfRows metadata generation
  if methods.length = metadata.methods.size then
    ofExcept ((metadata.methods.toList.zip methods).foldlM (MethodRegistry.assign generation)
      (registry, ∅))
  else
    fail (.malformed (.encMapCount methods.length generation metadata.methods.size))

/-- The tokens of a table are looked up without a trap. -/
theorem tokensOf_eq (table : Table) (tokens : List Token) :
    tokensOf table tokens = pure (tokens.filter (·.refersTo table)) := by
  induction tokens with
  | nil => rfl
  | cons token tokens ih =>
      rw [tokensOf, tokenTable_eq, pure_bind, ih, pure_bind, List.filter_cons]
      rfl

/-- The methods of rows are told without a trap. -/
theorem methodsOfRows_eq (metadata : Metadata) (generation : Nat) :
    methodsOfRows metadata generation =
      pure (MethodRegistry.methodsOfRows metadata generation) := by
  unfold methodsOfRows MethodRegistry.methodsOfRows
  rw [tokensOf_eq, pure_bind]
  split <;> rfl

/-- So methods are assigned without a trap. -/
theorem updateMethods_eq (registry : MethodRegistry) (metadata : Metadata) (generation : Nat) :
    updateMethods registry metadata generation =
      ofExcept (registry.update metadata generation) := by
  rw [updateMethods, methodsOfRows_eq, pure_bind, MethodRegistry.update, ofExcept_ite]
  rfl

/-- The spans of the method that a record belongs to. -/
def spansOfRecord (generation : Nat) (documentOf : UInt32 → Option DocumentId)
    (methodOf : UInt32 → Option MethodId) (record : MethodDebug) : Exec MethodSpans := do
  match methodOf record.rid with
  | none => fail (.malformed (.rowWithoutMethod record.rid))
  | some method =>
    let points ← pointsOf record
    return ⟨method, generation, ← ofExcept (Span.ofPoints documentOf points)⟩

/-- The spans of all methods of a generation. If a row runs into a trap then so does the whole, for
every row can be the one that is ahead of the others. -/
def spansOfMetadata (lead : Nat) (metadata : Metadata) (generation : Nat)
    (documentOf : UInt32 → Option DocumentId) (methodOf : UInt32 → Option MethodId) :
    Exec (List MethodSpans) :=
  mapParallel lead (spansOfRecord generation documentOf methodOf) metadata.methods.toList

/-- The rows are measured without a trap, whichever of them is ahead. -/
theorem spansOfMetadata_eq (lead : Nat) {metadata : Metadata} (fits : Fits metadata)
    (generation : Nat) (documentOf : UInt32 → Option DocumentId)
    (methodOf : UInt32 → Option MethodId) :
    spansOfMetadata lead metadata generation documentOf methodOf =
      ofExcept (MethodSpans.ofMetadata lead metadata generation documentOf methodOf) := by
  refine ofExcept_mapParallel lead fun record mem => ?_
  unfold spansOfRecord MethodSpans.ofRecord
  cases methodOf record.rid with
  | none => rfl
  | some method =>
      rw [pointsOf_eq (fits.lineTables record (Array.mem_toList_iff.1 mem)), ofExcept_bind]
      refine bind_congr fun points => ?_
      rw [ofExcept_bind]
      rfl

/-! ### Line deltas -/

/-- The first and last line of a point after a move. -/
def movedLines (delta : Int32) (point : SequencePoint) : Exec (List Int) :=
  match point.range with
  | none => pure []
  | some range => do
    let first ← addSigned range.startLine.toNat delta.toInt
    let last ← addSigned range.endLine.toNat delta.toInt
    return [first, last]

/-- The first line after the move that no visible point may have. -/
def strayLine (deltas : LineDeltas) (points : List SequencePoint) : Exec (Option Int) := do
  let lines ← points.zipIdx.mapM fun entry => movedLines (deltas.deltaOf entry.2) entry.1
  return lines.flatten.find? fun line => ¬ VisibleLine line

/-- Checks the new deltas of a method against its points, and works out what they come to. -/
def planPoints (method : MethodId) (version : Nat) (owner : Generation) (known : Option LineDeltas)
    (deltas : LineDeltas) (points : List SequencePoint) : Exec Move := do
  let total := known.elim deltas (· + deltas)
  if Move.fits deltas points.length then
    match ← strayLine total points with
    | some line => fail (.deltaRange method line)
    | none =>
      if deltas.isUniform then
        return ⟨method, total, .shift deltas.common⟩
      else
        let spans ← ofExcept (Span.ofPoints owner.documentId? (total.apply points))
        return ⟨method, total, .reshape version spans⟩
  else
    fail (.deltaCount method points.length deltas.single.length)

/-- Checks the new deltas of a method and works out what they come to. -/
def plan (generations : Array Generation) (state : State) (method : MethodId)
    (deltas : LineDeltas) : Exec Move := do
  match state.methods.place? method with
  | none => fail (.unknownMethod method)
  | some place =>
    let owner ← ofExcept (generationOf generations place.generation)
    match owner.metadata.method? place.row with
    | none => fail (.malformed (.missingMethodRow method place.row))
    | some record =>
      let points ← pointsOf record
      planPoints method place.generation owner state.deltas[method]? deltas points

/-- Checks line deltas and works out what they come to, method by method. -/
def planAll (generations : Array Generation) (state : State) (redefined : Std.HashSet MethodId)
    (deltas : List (MethodId × LineDeltas)) : Exec (List Move) :=
  ((Move.sumByMethod deltas).filter fun (method, _) => !redefined.contains method).mapM
    fun (method, deltas) => plan generations state method deltas

/-- **The sums of lines and deltas always fit.** -/
theorem movedLines_eq (delta : Int32) (point : SequencePoint) :
    movedLines delta point = pure (LineDeltas.movedLines delta point) := by
  unfold movedLines LineDeltas.movedLines
  cases point.range with
  | none => rfl
  | some range =>
      have first : Moderate range.startLine.toNat :=
        moderate_natCast (Nat.lt_trans range.startLine.toNat_lt (by decide))
      have last : Moderate range.endLine.toNat :=
        moderate_natCast (Nat.lt_trans range.endLine.toNat_lt (by decide))
      have step : Moderate delta.toInt := by
        have := delta.le_toInt
        have := delta.toInt_lt
        unfold Moderate
        omega
      dsimp only
      rw [addSigned_of_moderate first step, pure_bind, addSigned_of_moderate last step]
      rfl

/-- Looking for a line that is not valid runs into no trap. -/
theorem strayLine_eq (deltas : LineDeltas) (points : List SequencePoint) :
    strayLine deltas points = pure (deltas.strayLine? points) := by
  simp only [strayLine, movedLines_eq, List.mapM_pure, pure_bind, LineDeltas.strayLine?,
    List.mapIdx_eq_zipIdx_map]

/-- A move is planned without a trap, whether it is uniform or not. -/
theorem planPoints_eq (method : MethodId) (version : Nat) (owner : Generation)
    (known : Option LineDeltas) (deltas : LineDeltas) (points : List SequencePoint) :
    planPoints method version owner known deltas points =
      ofExcept (Move.planPoints method version owner known deltas points) := by
  unfold planPoints Move.planPoints
  dsimp only
  rw [ofExcept_ite, strayLine_eq, pure_bind]
  split
  · cases (known.elim deltas (· + deltas)).strayLine? points with
    | some line => rfl
    | none =>
        dsimp only
        rw [ofExcept_ite, ofExcept_bind]
        rfl
  · rfl

/-- The metadata of every generation fits. -/
def AllFit (generations : Array Generation) : Prop :=
  ∀ generation ∈ generations, Fits generation.metadata

/-- A generation with a number is one of the generations. -/
theorem mem_of_generationAt? {generations : Array Generation} {number : Nat}
    {generation : Generation} (h : generationAt? generations number = some generation) :
    generation ∈ generations := by
  unfold generationAt? at h
  split at h
  · cases h
  · exact Array.mem_of_getElem? h

/-- A method in a row is one of the methods. -/
theorem mem_of_method? {metadata : Metadata} {row : UInt32} {record : MethodDebug}
    (h : metadata.method? row = some record) : record ∈ metadata.methods := by
  unfold Metadata.method? at h
  split at h
  · cases h
  · exact Array.mem_of_getElem? h

/-- The body of a method is decoded, and its move is planned, without a trap. -/
theorem plan_eq {generations : Array Generation} (fit : AllFit generations) (state : State)
    (method : MethodId) (deltas : LineDeltas) :
    plan generations state method deltas =
      ofExcept (Move.plan generations state method deltas) := by
  unfold plan Move.plan generationOf
  cases state.methods.place? method with
  | none => rfl
  | some place =>
      dsimp only
      cases at_number : generationAt? generations place.generation with
      | none => rfl
      | some owner =>
          dsimp only
          rw [ofExcept_ok, pure_bind, Outcome.bind_of_ok rfl]
          cases found : owner.metadata.method? place.row with
          | none => rfl
          | some record =>
              have bounded := (fit owner (mem_of_generationAt? at_number)).lineTables record
                (mem_of_method? found)
              dsimp only
              rw [pointsOf_eq bounded, ofExcept_bind]
              exact bind_congr fun points => planPoints_eq _ _ _ _ _ _

/-- So all moves are. -/
theorem planAll_eq {generations : Array Generation} (fit : AllFit generations) (state : State)
    (redefined : Std.HashSet MethodId) (deltas : List (MethodId × LineDeltas)) :
    planAll generations state redefined deltas =
      ofExcept (Move.planAll generations state redefined deltas) :=
  ofExcept_mapM fun entry _ => plan_eq fit state entry.1 entry.2

/-! ### Generations -/

/-- Works out the next generation, with row `lead` ahead of the others. -/
def nextGeneration (session : Session) (lead : Nat) (update : Update) : Exec Generation := do
  let ⟨metadata, deltas⟩ := update
  let number ← add UInt32.size (session.version % UInt32.size) 1
  if number = 1 ∧ deltas ≠ [] then
    fail (.identityConflict .deltasWithBaseline)
  else
    let state := session.state
    let (documents, documentIds) ←
      updateDocuments state.documents metadata number (historyOf session.generations)
    let (methods, methodIds) ← updateMethods state.methods metadata number
    let redefined := Session.redefinedMethods methodIds
    let moves ← planAll session.generations { state with methods } redefined deltas
    let spans ← spansOfMetadata lead metadata number (documentIds[·]?) (methodIds[·]?)
    -- How many documents are new is told in the log.
    let _ ← sub documents.size state.documents.size
    return {
      number
      metadata
      documentsBefore := state.documents.size
      documentIds
      methodIds
      state := {
        documents
        methods
        lines := (Move.performAll state.lines moves).replaceAll spans
        deltas := Session.updateDeltas state.deltas redefined moves } }

/-- Takes in an update. -/
def apply (session : Session) (lead : Nat) (update : Update) : Exec Session := do
  return ⟨session.generations.push (← nextGeneration session lead update)⟩

/-- Reads the metadata of an update and takes it in. -/
def applyBytes (session : Session) (lead : Nat) (data : List UInt8)
    (deltas : List (MethodId × LineDeltas)) : Exec Session := do
  apply session lead ⟨← readMetadata data, deltas⟩

/-- 32 bits are enough to count the generations and the documents of a session with one more
generation. -/
structure Room (session : Session) (metadata : Metadata) : Prop where
  /-- There is a number for the generation. -/
  generations : session.version + 1 < UInt32.size
  /-- There are numbers for the documents. -/
  documents : RoomForDocuments session.state.documents metadata (session.version + 1)
    (historyOf session.generations)

/-- **A machine works out the generation that the library works out, or fails as it does.** -/
theorem nextGeneration_eq {session : Session} {update : Update} (fit : AllFit session.generations)
    (fits : Fits update.metadata) (room : Room session update.metadata) (lead : Nat) :
    nextGeneration session lead update = ofExcept (session.nextInParallel lead update) := by
  obtain ⟨metadata, deltas⟩ := update
  have current : session.version % UInt32.size = session.version :=
    Nat.mod_eq_of_lt (Nat.lt_of_succ_lt room.generations)
  unfold nextGeneration Session.nextInParallel
  dsimp only
  rw [current, add_of_lt room.generations, pure_bind, ofExcept_ite]
  split
  · rfl
  · rw [updateDocuments_eq fits.names room.documents]
    cases updated : session.state.documents.update metadata (session.version + 1)
      (historyOf session.generations) with
    | error e => rfl
    | ok result =>
        obtain ⟨documents, documentIds⟩ := result
        rw [ofExcept_ok, pure_bind, Outcome.bind_of_ok rfl]
        dsimp only
        rw [updateMethods_eq, ofExcept_bind]
        refine bind_congr fun methods => ?_
        rw [planAll_eq fit, ofExcept_bind]
        refine bind_congr fun moves => ?_
        rw [spansOfMetadata_eq lead fits, ofExcept_bind]
        refine bind_congr fun spans => ?_
        rw [sub_of_le (size_le_of_update updated), pure_bind]
        rfl

/-- **An update is taken in or refused without a trap**, as long as there is room for it. -/
theorem apply_eq {session : Session} {update : Update} (fit : AllFit session.generations)
    (fits : Fits update.metadata) (room : Room session update.metadata) (lead : Nat) :
    apply session lead update = ofExcept (session.applyInParallel lead update) := by
  rw [apply, nextGeneration_eq fit fits room, Session.applyInParallel, ofExcept_bind]
  rfl

/-- **A machine takes bytes in as the library does, or fails as it does.** -/
theorem applyBytes_eq {session : Session} {data : List UInt8} (bounded : data.length < objectBound)
    (fit : AllFit session.generations)
    (room : ∀ metadata, Metadata.parse data = .ok metadata → Room session metadata)
    (lead : Nat) (deltas : List (MethodId × LineDeltas)) :
    applyBytes session lead data deltas =
      ofExcept (session.applyBytesInParallel lead data deltas) := by
  rw [applyBytes, readMetadata_eq bounded, Session.applyBytesInParallel]
  cases parsed : Metadata.parse data with
  | error e => rfl
  | ok metadata => exact apply_eq fit (fits_of_parse parsed) (room metadata parsed) lead

end SymbolHistory.Machine
