import SymbolHistory.Proofs.Session.Acceptance
import SymbolHistory.Proofs.Session.Permanence

/-!
# What an update does to one method

An update gives a method a new row, moves it, or has nothing to do with it. A method with a new row
starts anew there. A method that moves stays where it is, and its deltas become more.

## Main definitions

* `Session.Fate` : the three cases.

## Main results

* `Session.Taken.methodId?_eq_some_iff` : rows of a generation belong to the methods that the update
  assigns them to.
* `Session.Taken.fate` : one of the three cases applies to every method.
-/

namespace SymbolHistory.Session

/-- What becomes of a method with an update: of the place of its debug information, and of its
deltas. -/
inductive Fate (session : Session) (update : Update) (after : Snapshot) (method : MethodId) : Prop
  /-- It gets a new row, and has not moved since. -/
  | redefined (row : UInt32)
    (assigned : update.metadata.AssignsRow (session.version + 1) row method)
    (place : after.place? method = some ⟨row, session.version + 1⟩)
    (deltas : after.deltas? method = none)
  /-- It moves, by all that the update says. -/
  | moved (kept : ∀ row, ¬update.metadata.AssignsRow (session.version + 1) row method)
    (named : method ∈ update.deltas.map (·.1))
    (movable : session.known.Movable method (Move.sumOf method update.deltas))
    (place : after.place? method = session.known.place? method)
    (deltas : after.deltas? method =
      some (session.known.totalWith method (Move.sumOf method update.deltas)))
  /-- It stays what it is. -/
  | untouched (kept : ∀ row, ¬update.metadata.AssignsRow (session.version + 1) row method)
    (unnamed : method ∉ update.deltas.map (·.1))
    (place : after.place? method = session.known.place? method)
    (deltas : after.deltas? method = session.known.deltas? method)

variable {session : Session} {update : Update} {generation : Generation} {moves : List Move}
  {spans : List MethodSpans}

/-- Taking in an update assigns its rows. -/
theorem Taken.assigned (h : session.Taken update generation moves spans) (sound : session.Sound)
    (numbered : update.metadata.Numbered) :
    MethodRegistry.Assigned (session.version + 1) session.state.methods
      (MethodRegistry.entriesOf update.metadata (session.version + 1))
      (generation.state.methods, generation.methodIds) :=
  (MethodRegistry.assigned_of_update numbered (fun _ _ => sound.generation_lt) h.methods).1

/-- **Rows belong to the methods that they are assigned to.** -/
theorem Taken.methodId?_eq_some_iff (h : session.Taken update generation moves spans)
    (sound : session.Sound) (numbered : update.metadata.Numbered) {row : UInt32}
    {method : MethodId} :
    generation.methodId? row = some method ↔
      update.metadata.AssignsRow (session.version + 1) row method :=
  ((h.assigned sound numbered).ids row method).trans (MethodRegistry.mem_entriesOf_iff numbered)

/-- A method that a row is assigned to has its debug information there. -/
theorem Taken.place?_of_assignsRow (h : session.Taken update generation moves spans)
    (sound : session.Sound) (numbered : update.metadata.Numbered) {row : UInt32}
    {method : MethodId}
    (assigned : update.metadata.AssignsRow (session.version + 1) row method) :
    generation.state.methods.place? method = some ⟨row, session.version + 1⟩ := by
  obtain ⟨record, mem, rfl⟩ := (MethodRegistry.mem_entriesOf_iff numbered).2 assigned
  exact (h.assigned sound numbered).placed record method mem

/-- The methods with a new body are the ones that a row is assigned to. -/
theorem Taken.contains_redefinedMethods_iff (h : session.Taken update generation moves spans)
    (sound : session.Sound) (numbered : update.metadata.Numbered) {method : MethodId} :
    (redefinedMethods generation.methodIds).contains method = true ↔
      ∃ row, update.metadata.AssignsRow (session.version + 1) row method := by
  rw [contains_redefinedMethods]
  exact exists_congr fun row => h.methodId?_eq_some_iff sound numbered

/-- A method without a new row has its debug information where it was. -/
theorem Taken.place?_of_kept (h : session.Taken update generation moves spans)
    (sound : session.Sound) (numbered : update.metadata.Numbered) {method : MethodId}
    (kept : ∀ row, ¬update.metadata.AssignsRow (session.version + 1) row method) :
    generation.state.methods.place? method = session.state.methods.place? method := by
  refine (h.assigned sound numbered).kept method fun record mem => ?_
  exact kept record.rid ((MethodRegistry.mem_entriesOf_iff numbered).1 ⟨record, mem, rfl⟩)

/-- Only methods that are named move. -/
theorem Taken.named_of_mem (h : session.Taken update generation moves spans) {move : Move}
    (mem : move ∈ moves) : move.method ∈ update.deltas.map (·.1) := by
  obtain ⟨⟨method, sum⟩, entry_mem, planned⟩ := Outcome.exists_of_mem_results h.planned mem
  obtain ⟨place, owner, points, -, -, eq⟩ := Move.plan_eq_ok planned
  rw [eq.method_eq]
  exact (Move.mem_sumByMethod_iff.1 (List.mem_filter.1 entry_mem).1).1

/-- A method that is named and keeps its body moves. -/
theorem Taken.exists_move (h : session.Taken update generation moves spans) (sound : session.Sound)
    (numbered : update.metadata.Numbered) {method : MethodId}
    (kept : ∀ row, ¬update.metadata.AssignsRow (session.version + 1) row method)
    (named : method ∈ update.deltas.map (·.1)) :
    session.known.Movable method (Move.sumOf method update.deltas) ∧
      ∃ move ∈ moves, move.method = method ∧
        move.total = session.known.totalWith method (Move.sumOf method update.deltas) := by
  have unchanged : (redefinedMethods generation.methodIds).contains method = false := by
    rw [← Bool.not_eq_true, h.contains_redefinedMethods_iff sound numbered]
    exact fun ⟨row, assigned⟩ => kept row assigned
  have entry : (method, Move.sumOf method update.deltas) ∈
      (Move.sumByMethod update.deltas).filter fun entry =>
        !(redefinedMethods generation.methodIds).contains entry.1 :=
    List.mem_filter.2 ⟨Move.mem_sumByMethod_iff.2 ⟨named, rfl⟩, by rw [unchanged]; rfl⟩
  obtain ⟨move, mem, planned⟩ := Outcome.exists_result_of_mem h.planned entry
  obtain ⟨place, owner, points, -, -, eq⟩ := Move.plan_eq_ok planned
  obtain ⟨-, content, -, tracks⟩ := sound.state
  have tracks : session.known.Tracks content := tracks
  have place : ({ session.state with methods := generation.state.methods } : State).methods.place?
      method = session.known.place? method := h.place?_of_kept sound numbered kept
  refine ⟨?_, move, mem, eq.method_eq, eq.total_eq⟩
  rcases Move.plan_cases tracks place rfl (Move.sumOf method update.deltas) with
    ⟨movable, -⟩ | ⟨e, -, failed⟩
  · exact movable
  · cases failed.symm.trans planned

/-- **An update redefines a method, moves it or leaves it as it is.** -/
theorem Taken.fate (h : session.Taken update generation moves spans) (sound : session.Sound)
    (numbered : update.metadata.Numbered) (method : MethodId) :
    session.Fate update ⟨session.generations.push generation, generation.state⟩ method := by
  have nodup := Move.nodup_methods_of_planAll h.planned
  have redefined : (redefinedMethods generation.methodIds).contains method = true ↔ _ :=
    h.contains_redefinedMethods_iff sound numbered
  by_cases assigned : ∃ row, update.metadata.AssignsRow (session.version + 1) row method
  · -- Deltas of a method with a new body are left out, so it has no move.
    have still : ∀ move ∈ moves, move.method ≠ method := by
      rintro move mem rfl
      have kept := (Move.exists_plan_of_mem h.planned mem).1
      rw [redefined.2 assigned] at kept
      cases kept
    obtain ⟨row, own⟩ := assigned
    refine .redefined row own (h.place?_of_assignsRow sound numbered own) ?_
    rw [Snapshot.deltas?, h.deltas, getElem?_updateDeltas _ _ still,
      if_pos (redefined.2 ⟨row, own⟩)]
  · have kept := not_exists.1 assigned
    have place := h.place?_of_kept sound numbered kept
    by_cases named : method ∈ update.deltas.map (·.1)
    · obtain ⟨movable, move, mem, rfl, total⟩ := h.exists_move sound numbered kept named
      refine .moved kept named movable place ?_
      rw [Snapshot.deltas?, h.deltas, getElem?_updateDeltas_of_mem _ _ nodup mem, total]
    · have still : ∀ move ∈ moves, move.method ≠ method := by
        rintro move mem rfl
        exact named (h.named_of_mem mem)
      refine .untouched kept named place ?_
      rw [Snapshot.deltas?, h.deltas, getElem?_updateDeltas _ _ still,
        if_neg fun contained => assigned (redefined.1 contained)]
      rfl

/-- A generation that is added leaves debug information as it is, where it is not redefined. -/
theorem record?_push (sound : session.Sound) (generation : Generation) {method : MethodId}
    (place : Snapshot.place? ⟨session.generations.push generation, generation.state⟩ method =
      session.known.place? method) :
    Snapshot.record? ⟨session.generations.push generation, generation.state⟩ method =
      session.known.record? method := by
  rw [Snapshot.record?, Snapshot.record?, place]
  cases placed : session.known.place? method with
  | none => rfl
  | some found =>
      have lt : found.generation < session.generations.size + 1 := sound.generation_lt placed
      have owner : Snapshot.generation? ⟨session.generations.push generation, generation.state⟩
          found.generation = session.known.generation? found.generation := by
        rw [Snapshot.generation?, generationAt?_push, if_neg (Nat.ne_of_lt lt)]
        rfl
      rw [Option.bind_eq_bind, Option.bind_some, Option.bind_eq_bind, Option.bind_some, owner]

theorem numbered_oneMethod_moveDown : ∀ update,
    .offer update ∈ [Event.offer oneMethod, .offer moveDown] → update.metadata.Numbered := by
  intro update mem
  rcases List.mem_cons.1 mem with first | mem
  · exact Event.offer.inj first ▸ numbered_oneMethod
  · exact numbered_singleton numbered_moveDown update mem

/-- A program with one method, which moves: both updates are taken in. The method still has the row
that the first one gave it, and it has moved by what the second one says. There is no other. -/
theorem exists_at?_moveDown :
    empty.accepted [.offer oneMethod, .offer moveDown] = [oneMethod, moveDown] ∧
      ∃ snapshot, (ofEvents [.offer oneMethod, .offer moveDown]).at? 2 = some snapshot ∧
        snapshot.place? ⟨1⟩ = some ⟨1, 1⟩ ∧
        (∃ owner, ofEvents [.offer oneMethod] = ⟨#[owner]⟩ ∧ snapshot.generation? 1 = some owner ∧
          owner.metadata = oneMethod.metadata) ∧
        snapshot.deltas? ⟨1⟩ = some (.uniform 3) ∧
        ∀ method, (snapshot.place? method).isSome → method = ⟨1⟩ := by
  obtain ⟨first, session, metadata, placed, still, only⟩ :=
    exists_known_ofLineTable points_oneMethod (by decide)
  have session : ofEvents [.offer oneMethod] = ⟨#[first]⟩ := session
  have numbered := numbered_singleton numbered_oneMethod
  have sound := sound_ofEvents numbered
  obtain ⟨new, applied'⟩ :=
    admits_moveDown.exists_apply sound (documented_ofEvents numbered) numbered_moveDown
  obtain ⟨last, next', rfl⟩ := apply_eq_ok_iff.1 applied'
  obtain ⟨_, _, taken⟩ := next_eq_ok_iff.1 next'
  have events : ofEvents [.offer oneMethod, .offer moveDown] =
      ⟨(ofEvents [.offer oneMethod]).generations.push last⟩ := by
    change (ofEvents [.offer oneMethod]).perform (.offer moveDown) = _
    rw [perform, applied']
  have kept : ∀ row method,
      ¬moveDown.metadata.AssignsRow ((ofEvents [.offer oneMethod]).version + 1) row method :=
    fun row method assigned => by simp [Metadata.AssignsRow, moveDown, Metadata.method?] at assigned
  have same : ∀ method, last.state.methods.place? method =
      Snapshot.place? ⟨#[first], first.state⟩ method := by
    intro method
    rw [taken.place?_of_kept sound numbered_moveDown fun row => kept row method, session]
    rfl
  refine ⟨?_, ⟨(ofEvents [.offer oneMethod]).generations.push last, last.state⟩, ?_,
    (same ⟨1⟩).trans placed, ⟨first, session, ?_, metadata⟩, ?_, fun method found => ?_⟩
  · obtain ⟨one, applied⟩ :=
      admits_oneMethod.exists_apply sound_empty documented_empty numbered_oneMethod
    have session : ofEvents [.offer oneMethod] = one := by
      rw [ofEvents, List.foldl_cons, List.foldl_nil, perform, applied]
    rw [accepted, applied, ← session]
    dsimp only
    rw [accepted, applied']
    rfl
  · have at_last := at?_push (ofEvents [.offer oneMethod]) last 2
    rw [known_oneMethod.1, if_pos rfl] at at_last
    rw [events]
    exact at_last
  · rw [session]
    rfl
  · cases taken.fate sound numbered_moveDown ⟨1⟩ with
    | redefined row assigned => exact absurd assigned (kept row ⟨1⟩)
    | untouched _ unnamed => exact absurd (List.mem_singleton_self _) unnamed
    | moved _ _ _ _ deltas =>
        rw [deltas, Snapshot.totalWith, known_oneMethod.2.2.1]
        rfl
  · exact only method (same method ▸ Option.isSome_iff_ne_none.1 found)

end SymbolHistory.Session
