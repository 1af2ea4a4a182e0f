import SymbolHistory.Proofs.Machine.Snapshot
import SymbolHistory.Proofs.Metadata.RoundTrip
import SymbolHistory.Proofs.Session.Acceptance

/-!
# Sessions on a machine

From bytes to answers a machine runs into no trap, whatever the bytes say, whatever happened to the
session before, and whatever is asked afterwards. There is no catch: `Exec` has no operation that
goes on after a trap, so a trap anywhere in the root, the tables, the heaps, the names, the line
tables, the registries or the runs would be a trap of the whole.

What this rests on are bounds that a machine has: no object has 2^63 bytes, and 32 bits are enough
to count the generations and the documents.

## Main definitions

* `Safe` : a program does what a function of the library does, without a trap.
* `EventFits` : what happens to a session brings no object that is too large.

## Main results

* `allFit_ofEvents` : line tables and names in a session are objects in memory.
* `safe_from_bytes_to_answers` : reading bytes, taking them in and asking questions afterwards is
  safe.
-/

namespace SymbolHistory.Machine

open Session (Event)

/-- A program is safe that has the results and the errors of a function of the library, and no other
end. -/
structure Safe {α : Type} (program : Exec α) (result : Except Error α) : Prop where
  /-- It does what the function does. -/
  same : program = ofExcept result
  /-- It runs into no trap. -/
  no_trap : ∀ trap, program ≠ stuck trap

/-- A program that does what the function does runs into no trap. -/
theorem safe_of_eq {α : Type} {program : Exec α} {result : Except Error α}
    (h : program = ofExcept result) : Safe program result :=
  ⟨h, ne_trap_of_eq_ofExcept h⟩

/-! ### Objects in a session -/

/-- The names and line tables that an event brings are objects in memory. -/
def EventFits : Event → Prop
  | .offer update => Fits update.metadata
  | .ask _ _ => True

/-- At first there are no generations. -/
theorem allFit_empty : AllFit Session.empty.generations :=
  fun generation mem => absurd mem (Array.not_mem_empty generation)

section Steps

variable {session : Session}

/-- An update adds one generation, with the metadata that it brings. -/
theorem allFit_of_apply (fit : AllFit session.generations) {update : Update}
    (fits : Fits update.metadata) {new : Session} (h : session.apply update = .ok new) :
    AllFit new.generations := by
  obtain ⟨generation, next, rfl⟩ := Session.apply_eq_ok_iff.1 h
  obtain ⟨moves, spans, taken⟩ := Session.next_eq_ok_iff.1 next
  intro other mem
  rcases Array.mem_push.1 mem with earlier | rfl
  · exact fit other earlier
  · exact taken.metadata ▸ fits

/-- Metadata that is parsed from bytes fits, so bytes can be taken in as well. -/
theorem allFit_of_applyBytesInParallel (fit : AllFit session.generations) {lead : Nat}
    {data : List UInt8} {deltas : List (MethodId × LineDeltas)} {new : Session}
    (h : session.applyBytesInParallel lead data deltas = .ok new) : AllFit new.generations := by
  obtain ⟨metadata, parsed, applied⟩ := Outcome.bind_eq_ok_iff.1 h
  exact allFit_of_apply fit (fits_of_parse parsed)
    (Session.applyInParallel_eq_ok_iff_apply.1 applied)

/-- Remembering runs leaves the metadata alone. -/
theorem allFit_remember (fit : AllFit session.generations) (version : Nat)
    (document : DocumentId) : AllFit (session.remember version document).generations := by
  unfold Session.remember
  split
  · exact fit
  · intro generation mem
    obtain ⟨i, lt, rfl⟩ := Array.mem_iff_getElem.1 mem
    rw [Array.size_modify] at lt
    have own := fit session.generations[i] (Array.getElem_mem lt)
    rw [Array.getElem_modify]
    split <;> exact own

/-- An event that fits leaves generations that all fit. -/
theorem allFit_perform (fit : AllFit session.generations) {event : Event}
    (fits : EventFits event) : AllFit (session.perform event).generations := by
  cases event with
  | ask version document => exact allFit_remember fit version document
  | offer update =>
      rw [Session.perform]
      cases applied : session.apply update with
      | error e => exact fit
      | ok new => exact allFit_of_apply fit fits applied

/-- So do any number of them. -/
theorem allFit_foldl_perform (fit : AllFit session.generations) {events : List Event}
    (fits : ∀ event ∈ events, EventFits event) :
    AllFit (events.foldl Session.perform session).generations := by
  induction events generalizing session with
  | nil => exact fit
  | cons event events ih =>
      exact ih (allFit_perform fit (fits event List.mem_cons_self)) fun other mem =>
        fits other (List.mem_cons_of_mem _ mem)

/-- The generations of a version are among those of the session. -/
theorem allFit_of_at? (fit : AllFit session.generations) {version : Nat} {snapshot : Snapshot}
    (h : session.at? version = some snapshot) : AllFit snapshot.generations := by
  obtain ⟨generation, -, rfl⟩ := Option.map_eq_some_iff.1 h
  intro other mem
  obtain ⟨i, lt, rfl⟩ := Array.mem_iff_getElem.1 mem
  dsimp only [Array.take_eq_extract] at lt ⊢
  rw [Array.getElem_extract]
  exact fit _ (Array.getElem_mem _)

end Steps

/-- **The names and line tables in a session are objects in memory**, if those are that events
brought. -/
theorem allFit_ofEvents {events : List Event} (fits : ∀ event ∈ events, EventFits event) :
    AllFit (Session.ofEvents events).generations :=
  allFit_foldl_perform allFit_empty fits

/-! ### From bytes to answers -/

/-- **From bytes to answers there is no trap.** Any bytes are read without a trap. Whatever happened
to a session, it takes them in without a trap, with any line deltas and whatever row is ahead of the
others, as long as 32 bits are enough to count its generations and documents with theirs. And if it
took them in, any question about any of its versions is answered without a trap, whatever happens
before it is asked. What fails, fails with the error of the library. -/
theorem safe_from_bytes_to_answers {data : List UInt8} (bounded : data.length < objectBound) :
    Safe (readMetadata data) (Metadata.parse data) ∧
      ∀ events : List Event, (∀ event ∈ events, EventFits event) →
        (∀ metadata, Metadata.parse data = .ok metadata →
          Room (Session.ofEvents events) metadata) →
        ∀ (lead : Nat) (deltas : List (MethodId × LineDeltas)),
          Safe (applyBytes (Session.ofEvents events) lead data deltas)
            ((Session.ofEvents events).applyBytesInParallel lead data deltas) ∧
          ∀ new, (Session.ofEvents events).applyBytesInParallel lead data deltas = .ok new →
            ∀ later : List Event, (∀ event ∈ later, EventFits event) →
              ∀ version snapshot, (later.foldl Session.perform new).at? version = some snapshot →
                ∀ query : Query, query.Fits →
                  Safe (ask snapshot query) (query.answer snapshot) := by
  refine ⟨safe_of_eq (readMetadata_eq bounded), fun events fits room lead deltas => ?_⟩
  have fit := allFit_ofEvents fits
  refine ⟨safe_of_eq (applyBytes_eq bounded fit room lead deltas), ?_⟩
  intro new applied later later_fits version snapshot shown query query_fits
  have later_fit := allFit_foldl_perform (allFit_of_applyBytesInParallel fit applied) later_fits
  exact safe_of_eq (ask_eq (allFit_of_at? later_fit shown) query_fits)

/-- The symbols of a program with one method fit. -/
theorem eventFits_oneMethod : ∀ event ∈ [Event.offer Session.oneMethod], EventFits event := by
  intro event mem
  obtain rfl := List.mem_singleton.1 mem
  refine ⟨by decide, fun method mem => ?_⟩
  obtain rfl := Array.mem_singleton.1 mem
  rintro stored ⟨⟩
  decide

/-- There is room for one more generation without documents. -/
theorem room_oneMethod : Room (Session.ofEvents [.offer Session.oneMethod])
    Session.moveDown.metadata := by
  obtain ⟨generation, moves, spans, taken, session, -⟩ :=
    Session.admits_oneMethod.exists_first Session.numbered_oneMethod
  have size : generation.state.documents.size ≤ 0 + 1 := (size_of_foldlM taken.documents).2
  rw [session]
  have number : 1 + 1 < UInt32.size := by decide
  refine ⟨number, roomForDocuments_of_lt ?_⟩
  exact Nat.lt_of_le_of_lt size (by decide)

/-- The update that moves the method has a stored form, which is read back. -/
theorem exists_stored_moveDown :
    ∃ data, Metadata.serialize Session.moveDown.metadata = .ok data ∧ data.length < objectBound ∧
      Metadata.parse data = .ok Session.moveDown.metadata := by
  obtain ⟨data, written, small⟩ : ∃ data,
      Metadata.serialize Session.moveDown.metadata = .ok data ∧ data.length < UInt32.size :=
    Metadata.exists_serialize (by decide) (by decide) (by decide) (by decide)
  have storable : Session.moveDown.metadata.Storable := {
    numbered := Session.numbered_moveDown
    tokened := ⟨fun _ mem => absurd mem (Array.not_mem_empty _),
      fun _ mem => absurd mem (Array.not_mem_empty _)⟩
    lineTables := fun _ mem => absurd mem (Array.not_mem_empty _)
    columns := fun _ mem => absurd mem (Array.not_mem_empty _)
    module := fun _ mem => by cases mem }
  exact ⟨data, written, Nat.lt_trans small (by decide),
    Metadata.parse_of_serialize storable written small⟩

/-- A program with one method takes in the stored form of an update that moves it. -/
theorem safe_from_bytes_to_answers_moveDown :
    (∀ event ∈ [Event.offer Session.oneMethod], EventFits event) ∧
      (Query.findDocument "a.cs").Fits ∧
      ∃ data, Metadata.serialize Session.moveDown.metadata = .ok data ∧
        data.length < objectBound ∧
        (∀ metadata, Metadata.parse data = .ok metadata →
          Room (Session.ofEvents [.offer Session.oneMethod]) metadata) ∧
        Safe (readMetadata data) (.ok Session.moveDown.metadata) ∧
        ∃ new snapshot, (Session.ofEvents [.offer Session.oneMethod]).applyBytesInParallel 0 data
            Session.moveDown.deltas = .ok new ∧
          Safe (applyBytes (Session.ofEvents [.offer Session.oneMethod]) 0 data
            Session.moveDown.deltas) (.ok new) ∧
          new.at? 2 = some snapshot ∧
          Safe (ask snapshot (.findDocument "a.cs"))
            ((Query.findDocument "a.cs").answer snapshot) := by
  have query_fits : (Query.findDocument "a.cs").Fits := by
    change "a.cs".utf8ByteSize < objectBound
    decide
  obtain ⟨data, written, bounded, parsed⟩ := exists_stored_moveDown
  have room : ∀ metadata, Metadata.parse data = .ok metadata →
      Room (Session.ofEvents [.offer Session.oneMethod]) metadata := by
    intro metadata read
    obtain rfl := Except.ok.inj (parsed.symm.trans read)
    exact room_oneMethod
  have numbered := Session.numbered_singleton Session.numbered_oneMethod
  obtain ⟨new, applied⟩ := Session.admits_moveDown.exists_apply
    (Session.sound_ofEvents numbered) (Session.documented_ofEvents numbered)
    Session.numbered_moveDown
  have taken : (Session.ofEvents [.offer Session.oneMethod]).applyBytesInParallel 0 data
      Session.moveDown.deltas = .ok new := by
    rw [Session.applyBytesInParallel, parsed]
    exact applied
  have version : new.version = 2 := by
    rw [Session.version_apply applied, Session.known_oneMethod.1]
  have shown : new.at? 2 = some ⟨new.generations, new.state⟩ :=
    version ▸ Session.at?_version (by rw [version]; decide)
  obtain ⟨read, rest⟩ := safe_from_bytes_to_answers bounded
  obtain ⟨applies, answers⟩ := rest _ eventFits_oneMethod room 0 Session.moveDown.deltas
  refine ⟨eventFits_oneMethod, query_fits, data, written, bounded, room, parsed ▸ read, new, _,
    taken, taken ▸ applies, shown, ?_⟩
  exact answers new taken [] (fun _ mem => absurd mem List.not_mem_nil) 2 _ shown _ query_fits

end SymbolHistory.Machine
