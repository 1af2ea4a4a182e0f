import SymbolHistory.Session.History
import SymbolHistory.Proofs.Session.Move
import SymbolHistory.Proofs.MethodRegistry

/-!
# What taking in an update does

Taking in an update is one step of a session. It says what the new generation is, in terms of the
generations that are there and the update, and leaves those generations as they are.

## Main definitions

* `Session.Taken` : what the next generation is.

## Main results

* `Session.nextInParallel_eq_ok_iff` : what it takes to take in an update.
* `Session.getElem?_updateDeltas` : the deltas of each method after an update.
-/

namespace SymbolHistory

/-- The methods of a generation have spans exactly if each row has. It makes no difference which row
is ahead of the others. -/
theorem MethodSpans.ofMetadata_eq_ok_iff {lead : Nat} {metadata : Metadata} {generation : Nat}
    {documentOf : UInt32 → Option DocumentId} {methodOf : UInt32 → Option MethodId}
    {spans : List MethodSpans} :
    ofMetadata lead metadata generation documentOf methodOf = .ok spans ↔
      List.Forall₂ (fun record new => ofRecord generation documentOf methodOf record = .ok new)
        metadata.methods.toList spans :=
  Outcome.mapParallel_eq_ok_iff.trans Outcome.mapM_eq_ok_iff

namespace Session

/-! ### Deltas after an update -/

/-- The methods with a new body are the ones that rows belong to. -/
theorem contains_redefinedMethods {ids : Std.HashMap UInt32 MethodId} {method : MethodId} :
    (redefinedMethods ids).contains method = true ↔
      ∃ row : UInt32, ids[row]? = some method := by
  rw [redefinedMethods, Std.HashSet.contains_ofList, List.contains_iff_mem, List.mem_map]
  constructor
  · rintro ⟨⟨row, found⟩, mem, rfl⟩
    exact ⟨row, Std.HashMap.mem_toList_iff_getElem?_eq_some.1 mem⟩
  · rintro ⟨row, found⟩
    exact ⟨(row, method), Std.HashMap.mem_toList_iff_getElem?_eq_some.2 found, rfl⟩

/-- Methods that are erased have no deltas any more, and others keep theirs. -/
theorem getElem?_foldl_erase (deltas : Std.HashMap MethodId LineDeltas) (methods : List MethodId)
    (method : MethodId) :
    (methods.foldl (fun deltas method => deltas.erase method) deltas)[method]? =
      if method ∈ methods then none else deltas[method]? := by
  induction methods generalizing deltas with
  | nil => simp
  | cons first methods ih =>
      rw [List.foldl_cons, ih, Std.HashMap.getElem?_erase]
      by_cases same : first = method
      · subst same
        simp
      · simp [same, Ne.symm same]

/-- Moves leave the deltas of other methods alone. -/
theorem getElem?_foldl_insert (deltas : Std.HashMap MethodId LineDeltas) (moves : List Move)
    {method : MethodId} (h : ∀ move ∈ moves, move.method ≠ method) :
    (moves.foldl (fun deltas move => deltas.insert move.method move.total) deltas)[method]? =
      deltas[method]? := by
  refine List.foldlRecOn moves _
    (motive := fun (after : Std.HashMap MethodId LineDeltas) => after[method]? = deltas[method]?)
    rfl ?_
  intro after ih move mem
  rw [Std.HashMap.getElem?_insert, if_neg (by simpa using h move mem), ih]

/-- The deltas of a method that does not move: a new body has none. -/
theorem getElem?_updateDeltas (deltas : Std.HashMap MethodId LineDeltas)
    (redefined : Std.HashSet MethodId) {moves : List Move} {method : MethodId}
    (h : ∀ move ∈ moves, move.method ≠ method) :
    (updateDeltas deltas redefined moves)[method]? =
      if redefined.contains method then none else deltas[method]? := by
  rw [updateDeltas, getElem?_foldl_insert _ _ h, getElem?_foldl_erase]
  simp only [Std.HashSet.mem_toList, Std.HashSet.mem_iff_contains]

/-- The deltas of a method that moves once. -/
theorem getElem?_updateDeltas_of_mem (deltas : Std.HashMap MethodId LineDeltas)
    (redefined : Std.HashSet MethodId) {moves : List Move}
    (nodup : (moves.map (·.method)).Nodup) {move : Move} (mem : move ∈ moves) :
    (updateDeltas deltas redefined moves)[move.method]? = some move.total := by
  obtain ⟨before, after, rfl⟩ := List.append_of_mem mem
  have later : ∀ other ∈ after, other.method ≠ move.method := by
    rw [List.map_append, List.map_cons, List.nodup_append, List.nodup_cons] at nodup
    intro other other_mem same
    exact nodup.2.1.1 (same ▸ List.mem_map_of_mem other_mem)
  rw [updateDeltas, List.foldl_append, List.foldl_cons, getElem?_foldl_insert _ _ later,
    Std.HashMap.getElem?_insert_self]

/-! ### The step -/


/-- A generation is what comes of an update after the generations of a session. The moves are those
of the update's deltas, and the spans those of its own methods. -/
structure Taken (session : Session) (update : Update) (generation : Generation)
    (moves : List Move) (spans : List MethodSpans) : Prop where
  /-- The first generation comes without deltas. -/
  allowed : session.version = 0 → update.deltas = []
  /-- It is the next one. -/
  number : generation.number = session.version + 1
  /-- It keeps what the update brought. -/
  metadata : generation.metadata = update.metadata
  /-- It knows how many documents there were. -/
  documentsBefore : generation.documentsBefore = session.state.documents.size
  /-- Its documents are taken in. -/
  documents : session.state.documents.update update.metadata (session.version + 1)
    (historyOf session.generations) = .ok (generation.state.documents, generation.documentIds)
  /-- Its methods are taken in. -/
  methods : session.state.methods.update update.metadata (session.version + 1) =
    .ok (generation.state.methods, generation.methodIds)
  /-- Its deltas can be applied. -/
  planned : Move.planAll session.generations
    { session.state with methods := generation.state.methods }
    (redefinedMethods generation.methodIds) update.deltas = .ok moves
  /-- Its methods have spans, by row. -/
  measured : List.Forall₂ (fun record new => MethodSpans.ofRecord (session.version + 1)
    generation.documentId? generation.methodId? record = .ok new) update.metadata.methods.toList
    spans
  /-- Moves are made, and then methods get their new spans. -/
  lines : generation.state.lines = (Move.performAll session.state.lines moves).replaceAll spans
  /-- Deltas are those of the methods that kept their body. -/
  deltas : generation.state.deltas =
    updateDeltas session.state.deltas (redefinedMethods generation.methodIds) moves

/-- **What it takes to take in an update**, and what comes of it. Whatever row is ahead of the
others, that is the same. -/
theorem nextInParallel_eq_ok_iff {session : Session} {lead : Nat} {update : Update}
    {generation : Generation} :
    session.nextInParallel lead update = .ok generation ↔
      ∃ moves spans, session.Taken update generation moves spans := by
  rcases update with ⟨metadata, deltas⟩
  rw [nextInParallel]
  dsimp only
  constructor
  · intro h
    by_cases baseline : session.version + 1 = 1 ∧ deltas ≠ []
    · rw [if_pos baseline] at h
      cases h
    · rw [if_neg baseline] at h
      obtain ⟨⟨documents, documentIds⟩, documented, h⟩ := Outcome.bind_eq_ok_iff.1 h
      obtain ⟨⟨methods, methodIds⟩, assigned, h⟩ := Outcome.bind_eq_ok_iff.1 h
      obtain ⟨moves, planned, h⟩ := Outcome.bind_eq_ok_iff.1 h
      obtain ⟨spans, worked, h⟩ := Outcome.bind_eq_ok_iff.1 h
      obtain rfl := Except.ok.inj h
      refine ⟨moves, spans, ?_, rfl, rfl, rfl, documented, assigned, planned,
        MethodSpans.ofMetadata_eq_ok_iff.1 worked, rfl, rfl⟩
      intro first
      by_contra some
      exact baseline ⟨congrArg (· + 1) first, some⟩
  · rintro ⟨moves, spans, taken⟩
    have allowed : ¬(session.version + 1 = 1 ∧ deltas ≠ []) := fun baseline =>
      baseline.2 (taken.allowed (Nat.succ.inj baseline.1))
    rw [if_neg allowed]
    refine Outcome.bind_eq_ok_iff.2 ⟨_, taken.documents, ?_⟩
    refine Outcome.bind_eq_ok_iff.2 ⟨_, taken.methods, ?_⟩
    refine Outcome.bind_eq_ok_iff.2 ⟨_, taken.planned, ?_⟩
    refine Outcome.bind_eq_ok_iff.2 ⟨_, MethodSpans.ofMetadata_eq_ok_iff.2 taken.measured, ?_⟩
    rcases taken with ⟨-, number, metadata, documentsBefore, -, -, -, -, lines, deltas⟩
    rcases generation with ⟨_, _, _, documentIds, methodIds, ⟨documents, methods, _, _⟩⟩
    dsimp only at number metadata documentsBefore lines deltas
    rw [number, metadata, documentsBefore, lines, deltas]
    rfl

/-- A generation is made exactly if the steps that lead to it succeed. -/
theorem next_eq_ok_iff {session : Session} {update : Update} {generation : Generation} :
    session.next update = .ok generation ↔
      ∃ moves spans, session.Taken update generation moves spans :=
  nextInParallel_eq_ok_iff

/-- **The session that takes an update in is the same**, whatever row is ahead of the others. -/
theorem applyInParallel_eq_ok_iff_apply {session new : Session} {lead : Nat} {update : Update} :
    session.applyInParallel lead update = .ok new ↔ session.apply update = .ok new := by
  rw [applyInParallel_eq_ok_iff, apply_eq_ok_iff]
  simp only [nextInParallel_eq_ok_iff, next_eq_ok_iff]

/-! ### Earlier versions -/

/-- A new generation makes a new version and leaves the earlier ones as they are. -/
theorem at?_push (session : Session) (generation : Generation) (version : Nat) :
    (Session.mk (session.generations.push generation)).at? version =
      if version = session.version + 1 then
        some ⟨session.generations.push generation, generation.state⟩
      else session.at? version := by
  rcases session with ⟨generations⟩
  change (generationAt? (generations.push generation) version).map _ =
    if version = generations.size + 1 then _ else (generationAt? generations version).map _
  rw [generationAt?, generationAt?]
  by_cases zero : version = 0
  · rw [if_pos zero, if_pos zero, if_neg (by omega)]
    rfl
  · rw [if_neg zero, if_neg zero, Array.getElem?_push]
    by_cases last : version = generations.size + 1
    · rw [if_pos last, if_pos (by omega), Option.map_some]
      simp [last]
    · rw [if_neg last, if_neg (by omega)]
      cases found : generations[version - 1]? with
      | none => rfl
      | some known =>
          have lt : version - 1 < generations.size := (Array.getElem?_eq_some_iff.1 found).1
          have le : version ≤ generations.size := by omega
          rw [Option.map_some, Option.map_some, Array.take_eq_extract, Array.take_eq_extract,
            Array.extract_push_of_le le]

end Session

end SymbolHistory
