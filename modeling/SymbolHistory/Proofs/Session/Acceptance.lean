import SymbolHistory.Proofs.Session.Conditions
import SymbolHistory.Proofs.Session.Documents

/-!
# Which updates are taken in

An update is taken in exactly if the five conditions hold. If not, the first of them that does not
hold is the one that the error is about. Nothing else goes wrong, and it makes no difference in
which order rows are worked on.

## Main results

* `Session.nextInParallel_cases`, `Session.applyInParallel_cases` : an update is admitted and taken
  in, or refused with that error.
* `Session.Admits.exists_apply` : what is admitted is taken in.
* `Session.apply_eq_ok_iff_admits` : that is so in every session, whatever happened to it.
-/

namespace SymbolHistory.Session

section Cases

variable {session : Session} {updates : List Update} {update : Update}

/-- The debug information of methods is in generations that are there. -/
theorem Sound.generation_lt (h : session.Sound) {method : MethodId} {place : MethodPlace}
    (placed : session.state.methods.place? method = some place) :
    place.generation < session.version + 1 := by
  obtain ⟨-, content, -, tracks⟩ := h.state
  exact tracks.generation_lt placed

/-- The documents of an update are taken in if their names differ, and their rows are then known. -/
theorem Documented.update_cases (h : session.Documented updates)
    (numbered : update.metadata.Numbered) :
    (NamesDiffer update ∧ ∃ documents documentIds,
      session.state.documents.update update.metadata (session.version + 1)
        (historyOf session.generations) = .ok (documents, documentIds) ∧
      ∀ row : UInt32, (documentIds[row]?).isSome ↔
        ∃ document ∈ update.metadata.documents, document.rid = row) ∨
    ∃ name, List.Duplicate name (update.metadata.documents.toList.map (·.name)) ∧
      session.state.documents.update update.metadata (session.version + 1)
        (historyOf session.generations) =
          .error (.identityConflict (.documentTwice name (session.version + 1))) := by
  rcases h.state.records.update_cases h.state.readable (Declaration.pairwise_ofUpdates updates)
    (fun _ mem => h.generation_lt mem) numbered with ⟨differ, ⟨documents, ids⟩, eq, taken⟩ | failed
  · refine .inl ⟨differ, documents, ids, eq, fun row => ?_⟩
    rw [Option.isSome_iff_exists]
    constructor
    · rintro ⟨id, found⟩
      obtain ⟨document, mem, rid, -⟩ := (taken.ids row id).1 found
      exact ⟨document, Array.mem_toList_iff.1 mem, rid⟩
    · rintro ⟨document, mem, rid⟩
      have declared : document.name ∈ Declaration.names (Declaration.ofUpdates updates ++
          update.metadata.documents.toList.map (Declaration.mk (session.version + 1))) := by
        refine Declaration.mem_names.2 ⟨⟨session.version + 1, document⟩, ?_, rfl⟩
        exact List.mem_append_right _ (List.mem_map_of_mem (Array.mem_toList_iff.2 mem))
      obtain ⟨id, named⟩ := Declaration.exists_nameOf? declared
      exact ⟨id, (taken.ids row id).2 ⟨document, Array.mem_toList_iff.2 mem, rid, named⟩⟩
  · exact .inr failed

/-- Rows that are covered belong to methods, and the methods of rows are those with a new body. -/
theorem moving_iff_of_assigned
    (covers : MethodRegistry.CoversRows update.metadata (session.version + 1))
    {before : MethodRegistry} {progress : MethodRegistry.Progress}
    (assigned : MethodRegistry.Assigned (session.version + 1) before
      (MethodRegistry.entriesOf update.metadata (session.version + 1)) progress)
    {method : MethodId} :
    session.Moving update method ↔ method ∈ update.deltas.map (·.1) ∧
      (redefinedMethods progress.2).contains method = false := by
  have redefined : (redefinedMethods progress.2).contains method = true ↔
      method ∈ MethodRegistry.methodsOfRows update.metadata (session.version + 1) := by
    rw [contains_redefinedMethods_of_assigned assigned,
      ← MethodRegistry.map_snd_entriesOf covers.length_eq, List.mem_map]
    exact ⟨fun ⟨record, mem⟩ => ⟨_, mem, rfl⟩, fun ⟨⟨record, _⟩, mem, eq⟩ => ⟨record, eq ▸ mem⟩⟩
  rw [Moving, ← redefined, Bool.not_eq_true]

/-- The methods that move have moves if they are movable. -/
theorem Sound.planAll_cases (h : session.Sound)
    (covers : MethodRegistry.CoversRows update.metadata (session.version + 1))
    {methods : MethodRegistry} {methodIds : Std.HashMap UInt32 MethodId}
    (assigned : MethodRegistry.Assigned (session.version + 1) session.state.methods
      (MethodRegistry.entriesOf update.metadata (session.version + 1)) (methods, methodIds)) :
    (session.AllMovable update ∧ ∃ moves, Move.planAll session.generations
      { session.state with methods } (redefinedMethods methodIds) update.deltas = .ok moves) ∨
    ∃ method, session.Moving update method ∧
      ∃ e, session.known.MoveFault method (Move.sumOf method update.deltas) e ∧
        Move.planAll session.generations { session.state with methods }
          (redefinedMethods methodIds) update.deltas = .error e := by
  obtain ⟨-, content, -, tracks⟩ := h.state
  have tracks : session.known.Tracks content := tracks
  have kept : ∀ method, (redefinedMethods methodIds).contains method = false →
      ({ session.state with methods } : State).methods.place? method =
        session.known.place? method := by
    intro method unchanged
    refine assigned.kept method fun record mem => ?_
    rw [(contains_redefinedMethods_of_assigned assigned).2 ⟨record, mem⟩] at unchanged
    cases unchanged
  rcases Move.planAll_cases tracks kept rfl update.deltas with
    ⟨movable, planned⟩ | ⟨method, named, unchanged, failed⟩
  · refine .inl ⟨fun method moving => ?_, planned⟩
    obtain ⟨named, unchanged⟩ := (moving_iff_of_assigned covers assigned).1 moving
    exact movable method named unchanged
  · exact .inr ⟨method, (moving_iff_of_assigned covers assigned).2 ⟨named, unchanged⟩, failed⟩

/-- **An update is admitted and makes a generation, or it is refused** with the error of the first
condition that does not hold. -/
theorem nextInParallel_cases (lead : Nat) (sound : session.Sound)
    (documented : session.Documented updates) (numbered : update.metadata.Numbered) :
    (session.Admits update ∧ ∃ generation, session.nextInParallel lead update = .ok generation) ∨
    ∃ e, session.Refuses update e ∧ session.nextInParallel lead update = .error e := by
  rw [nextInParallel]
  -- One stage for each condition: it fails with the condition's error, or hands on to the next one.
  by_cases baseline : session.version + 1 = 1 ∧ update.deltas ≠ []
  · rw [if_pos baseline]
    exact .inr ⟨_, .mayMove (not_or.2 ⟨not_not.2 (Nat.succ.inj baseline.1), baseline.2⟩), rfl⟩
  have mayMove : session.MayMove update :=
    Classical.or_iff_not_imp_right.2 fun some first => baseline ⟨congrArg _ first, some⟩
  rw [if_neg baseline]
  rcases documented.update_cases numbered with
    ⟨differ, documents, documentIds, eq, rows⟩ | ⟨name, twice, eq⟩
  swap
  · exact .inr ⟨_, .namesDiffer mayMove twice, Outcome.bind_of_error eq⟩
  rw [Outcome.bind_of_ok eq]
  dsimp only
  rcases MethodRegistry.update_cases numbered fun method place => sound.generation_lt with
    ⟨covers, ⟨methods, methodIds⟩, eq, assigned⟩ | ⟨e, fault, eq⟩
  swap
  · exact .inr ⟨_, .rowsMapped mayMove differ fault, Outcome.bind_of_error eq⟩
  have mapped := (MethodRegistry.coversRows_iff numbered _).1 covers
  rw [Outcome.bind_of_ok eq]
  dsimp only
  rcases sound.planAll_cases covers assigned with
    ⟨movable, moves, eq⟩ | ⟨method, moving, e, fault, eq⟩
  swap
  · exact .inr ⟨_, .allMovable mayMove differ mapped moving fault, Outcome.bind_of_error eq⟩
  rw [Outcome.bind_of_ok eq]
  have own : ∀ record ∈ update.metadata.methods,
      ∃ method, methodIds[record.rid]? = some method := by
    intro record mem
    rw [← Array.mem_toList_iff, ← MethodRegistry.map_fst_entriesOf covers.length_eq] at mem
    obtain ⟨⟨_, method⟩, entry_mem, rfl⟩ := List.mem_map.1 mem
    exact ⟨method, (assigned.ids _ _).2 ⟨_, entry_mem, rfl⟩⟩
  rcases MethodSpans.ofMetadata_cases lead rows own (session.version + 1) with
    ⟨resolve, spans, eq⟩ | ⟨record, mem, e, fault, eq⟩
  · exact .inl ⟨⟨mayMove, differ, mapped, movable, resolve⟩, _, Outcome.bind_of_ok eq⟩
  · exact .inr ⟨e, .allResolve mayMove differ mapped movable mem fault, Outcome.bind_of_error eq⟩

/-- **An update is admitted and taken in, or it is refused**. -/
theorem applyInParallel_cases (lead : Nat) (sound : session.Sound)
    (documented : session.Documented updates) (numbered : update.metadata.Numbered) :
    (session.Admits update ∧ ∃ new, session.applyInParallel lead update = .ok new) ∨
    ∃ e, session.Refuses update e ∧ session.applyInParallel lead update = .error e := by
  rcases nextInParallel_cases lead sound documented numbered with
    ⟨admits, generation, eq⟩ | ⟨e, refuses, eq⟩
  · exact .inl ⟨admits, _, applyInParallel_eq_ok_iff.2 ⟨generation, eq, rfl⟩⟩
  · exact .inr ⟨e, refuses, Outcome.bind_of_error eq⟩

/-- An admitted update is taken in. -/
theorem Admits.exists_apply (h : session.Admits update) (sound : session.Sound)
    (documented : session.Documented updates) (numbered : update.metadata.Numbered) :
    ∃ new, session.apply update = .ok new := by
  rcases applyInParallel_cases 0 sound documented numbered with ⟨-, taken⟩ | ⟨e, refuses, -⟩
  · exact taken
  · exact absurd h (refuses.not_admits numbered)

end Cases

/-- **An update is taken in exactly if it is admitted**, in every session and whatever happened to
it, as long as the rows of updates are numbered. If it is refused, then with the error of the first
condition that does not hold. That is so whatever row is worked on ahead of the others. -/
theorem apply_eq_ok_iff_admits {events : List Event}
    (numbered : ∀ update, .offer update ∈ events → update.metadata.Numbered) {update : Update}
    (own : update.metadata.Numbered) (lead : Nat) :
    ((∃ new, (ofEvents events).applyInParallel lead update = .ok new ∧
        new.version = (ofEvents events).version + 1) ↔ (ofEvents events).Admits update) ∧
      ∀ e, (ofEvents events).applyInParallel lead update = .error e →
        (ofEvents events).Refuses update e := by
  have sound := sound_ofEvents numbered
  have documented := documented_ofEvents numbered
  rcases applyInParallel_cases lead sound documented own with
    ⟨admits, new, applied⟩ | ⟨e, refuses, failed⟩
  · have version := version_apply (applyInParallel_eq_ok_iff_apply.1 applied)
    refine ⟨iff_of_true ⟨new, applied, version⟩ admits, fun e failed => ?_⟩
    cases failed.symm.trans applied
  · refine ⟨iff_of_false ?_ (refuses.not_admits own), fun e' failed' => ?_⟩
    · rintro ⟨new, applied, -⟩
      cases failed.symm.trans applied
    · obtain rfl := Except.error.inj (failed.symm.trans failed')
      exact refuses

/-- The rows of all updates are numbered if those of the only one are. -/
theorem numbered_singleton {update : Update} (numbered : update.metadata.Numbered) :
    ∀ other, .offer other ∈ [Event.offer update] → other.metadata.Numbered := by
  intro other mem
  obtain ⟨rfl⟩ := List.mem_singleton.1 mem
  exact numbered

/-- The first update that is taken in makes the only generation. -/
theorem ofEvents_of_next {update : Update} {generation : Generation}
    (next : empty.next update = .ok generation) :
    ofEvents [.offer update] = ⟨#[generation]⟩ := by
  have applied : empty.apply update = .ok ⟨#[generation]⟩ :=
    apply_eq_ok_iff.2 ⟨generation, next, rfl⟩
  rw [ofEvents, List.foldl_cons, List.foldl_nil, perform, applied]

/-- Version 1 shows the only generation. -/
theorem at?_of_ofEvents_eq {events : List Event} {generation : Generation}
    (session : ofEvents events = ⟨#[generation]⟩) :
    (ofEvents events).at? 1 = some ⟨#[generation], generation.state⟩ := by
  rw [session]
  rfl

/-- An update that is admitted as the first one is taken in. -/
theorem Admits.exists_first {update : Update} (h : empty.Admits update)
    (numbered : update.metadata.Numbered) :
    ∃ generation moves spans, empty.Taken update generation moves spans ∧
      ofEvents [.offer update] = ⟨#[generation]⟩ ∧
      (ofEvents [.offer update]).at? 1 = some ⟨#[generation], generation.state⟩ := by
  obtain ⟨new, applied⟩ := h.exists_apply sound_empty documented_empty numbered
  obtain ⟨generation, next, -⟩ := apply_eq_ok_iff.1 applied
  obtain ⟨moves, spans, taken⟩ := next_eq_ok_iff.1 next
  have session := ofEvents_of_next next
  exact ⟨generation, moves, spans, taken, session, at?_of_ofEvents_eq session⟩

/-! ### Programs with one method -/

/-- The symbols of a program with one document and one method, by its line table. -/
def ofLineTable (stored : List UInt8) : Update :=
  ⟨⟨none, #[.ofName 1 "a.cs"], #[.ofLineTable 1 1 (some stored)], []⟩, []⟩

/-- Their rows have the numbers of their places. -/
theorem numbered_ofLineTable (stored : List UInt8) : (ofLineTable stored).metadata.Numbered := by
  constructor
  · intro i lt
    obtain rfl := Nat.lt_one_iff.1 lt
    rfl
  · intro i lt
    obtain rfl := Nat.lt_one_iff.1 lt
    rfl

/-- Visible points in the only document are enough for such symbols to be taken in. -/
theorem admits_ofLineTable {stored : List UInt8} {points : List SequencePoint}
    (decoded : (MethodDebug.ofLineTable 1 1 (some stored)).points = .ok points)
    (visible : ∀ point ∈ points, point.range.isSome → point.document = 1) :
    empty.Admits (ofLineTable stored) := by
  refine ⟨.inr rfl, List.nodup_singleton _, fun some => absurd rfl some, ?_, fun record mem => ?_⟩
  · rintro method ⟨named, -⟩
    exact absurd named List.not_mem_nil
  · obtain rfl := List.mem_singleton.1 (Array.mem_toList_iff.2 mem)
    exact ⟨points, decoded, fun point mem shown =>
      ⟨.ofName 1 "a.cs", List.mem_toArray.2 List.mem_cons_self, (visible point mem shown).symm⟩⟩

/-- Once such symbols are taken in, the method has its debug information, and has not moved, and
there is no other method. -/
theorem exists_known_ofLineTable {stored : List UInt8} {points : List SequencePoint}
    (decoded : (MethodDebug.ofLineTable 1 1 (some stored)).points = .ok points)
    (visible : ∀ point ∈ points, point.range.isSome → point.document = 1) :
    ∃ owner, ofEvents [.offer (ofLineTable stored)] = ⟨#[owner]⟩ ∧
      owner.metadata = (ofLineTable stored).metadata ∧
      Snapshot.place? ⟨#[owner], owner.state⟩ ⟨1⟩ = some ⟨1, 1⟩ ∧
      Snapshot.deltas? ⟨#[owner], owner.state⟩ ⟨1⟩ = none ∧
      ∀ method, Snapshot.place? ⟨#[owner], owner.state⟩ method ≠ none → method = ⟨1⟩ := by
  have own := numbered_ofLineTable stored
  obtain ⟨owner, moves, spans, taken, session, -⟩ :=
    (admits_ofLineTable decoded visible).exists_first own
  have unplaced : ∀ method, empty.state.methods.place? method = none := place?_known_empty
  have earlier : ∀ method place, empty.state.methods.place? method = some place →
      place.generation < empty.version + 1 := by
    intro method place placed
    cases (unplaced method).symm.trans placed
  obtain ⟨assigned, -⟩ := MethodRegistry.assigned_of_update own earlier taken.methods
  have entries : MethodRegistry.entriesOf (ofLineTable stored).metadata (empty.version + 1) =
      [(.ofLineTable 1 1 (some stored), ⟨1⟩)] := rfl
  rw [entries] at assigned
  obtain ⟨-, still⟩ := taken.record?_of_mem own assigned rfl List.mem_cons_self
  refine ⟨owner, session, taken.metadata, assigned.placed _ _ List.mem_cons_self, still,
    fun method placed => ?_⟩
  by_contra other
  refine placed ((assigned.kept method fun found mem => other ?_).trans (unplaced method))
  exact congrArg Prod.snd (List.mem_singleton.1 mem)

/-- What is known of a program with one method once its symbols are taken in. -/
theorem known_ofLineTable {stored : List UInt8} {points : List SequencePoint}
    (decoded : (MethodDebug.ofLineTable 1 1 (some stored)).points = .ok points)
    (visible : ∀ point ∈ points, point.range.isSome → point.document = 1) :
    (ofEvents [.offer (ofLineTable stored)]).version = 1 ∧
      (ofEvents [.offer (ofLineTable stored)]).known.place? ⟨1⟩ = some ⟨1, 1⟩ ∧
      (ofEvents [.offer (ofLineTable stored)]).known.deltas? ⟨1⟩ = none ∧
      (ofEvents [.offer (ofLineTable stored)]).known.storedPoints? ⟨1⟩ = some points := by
  obtain ⟨owner, session, metadata, placed, still, -⟩ := exists_known_ofLineTable decoded visible
  have found : owner.metadata.method? 1 = some (.ofLineTable 1 1 (some stored)) := by
    rw [metadata]
    rfl
  rw [session]
  exact ⟨rfl, placed, still,
    Snapshot.storedPoints?_of_pointsAt placed ⟨rfl, _, found, decoded⟩⟩

/-- The symbols of a program with one method, which has a point on line 10 of its document. -/
def oneMethod : Update :=
  ⟨⟨none, #[.ofName 1 "a.cs"], #[.ofLineTable 1 1 (some [0, 0, 0, 4, 10, 1])], []⟩, []⟩

/-- Its rows have the numbers of their places. -/
theorem numbered_oneMethod : oneMethod.metadata.Numbered :=
  numbered_ofLineTable _

/-- The point of the method is decoded from its line table. -/
theorem points_oneMethod : (MethodDebug.ofLineTable 1 1 (some [0, 0, 0, 4, 10, 1])).points =
    .ok [⟨0, 1, some ⟨10, 1, 10, 5⟩⟩] := by
  decide +kernel

/-- These symbols may come first. -/
theorem admits_oneMethod : empty.Admits oneMethod :=
  admits_ofLineTable points_oneMethod (by decide)

/-- What is known once they are taken in. -/
theorem known_oneMethod :
    (ofEvents [.offer oneMethod]).version = 1 ∧
      (ofEvents [.offer oneMethod]).known.place? ⟨1⟩ = some ⟨1, 1⟩ ∧
      (ofEvents [.offer oneMethod]).known.deltas? ⟨1⟩ = none ∧
      (ofEvents [.offer oneMethod]).known.storedPoints? ⟨1⟩ =
        some [⟨0, 1, some ⟨10, 1, 10, 5⟩⟩] :=
  known_ofLineTable points_oneMethod (by decide)

/-- The only method of a program moves down by three lines. -/
def moveDown : Update :=
  ⟨⟨none, #[], #[], []⟩, [(⟨1⟩, .uniform 3)]⟩

/-- The update that moves it has no rows. -/
theorem numbered_moveDown : moveDown.metadata.Numbered :=
  ⟨fun i lt => absurd lt (Nat.not_lt_zero i), fun i lt => absurd lt (Nat.not_lt_zero i)⟩

/-- The method may move: its line stays valid. -/
theorem admits_moveDown : (ofEvents [.offer oneMethod]).Admits moveDown := by
  obtain ⟨version, -, still, stored⟩ := known_oneMethod
  refine ⟨.inl (by rw [version]; decide), List.nodup_nil,
    fun _ => ⟨rfl, by decide, by decide⟩, ?_, fun record mem => absurd mem (Array.not_mem_empty _)⟩
  rintro method ⟨named, -⟩
  obtain rfl := List.mem_singleton.1 named
  refine ⟨_, stored, .inl rfl, ?_⟩
  rw [Snapshot.totalWith, still]
  decide +kernel

/-- A program with one method, which moves. -/
theorem apply_eq_ok_iff_admits_moveDown :
    (∀ update, .offer update ∈ [Event.offer oneMethod] → update.metadata.Numbered) ∧
      moveDown.metadata.Numbered ∧
      ∃ new, (ofEvents [.offer oneMethod]).applyInParallel 1 moveDown = .ok new ∧
        new.version = 2 := by
  have numbered := numbered_singleton numbered_oneMethod
  refine ⟨numbered, numbered_moveDown, ?_⟩
  rw [← show (ofEvents [.offer oneMethod]).version + 1 = 2 by rw [known_oneMethod.1]]
  exact (apply_eq_ok_iff_admits numbered numbered_moveDown 1).1.2 admits_moveDown

end SymbolHistory.Session
