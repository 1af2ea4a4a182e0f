import SymbolHistory.Proofs.DocumentRegistry
import SymbolHistory.Proofs.Session.Lines

/-!
# Documents over a session

The documents that a version knows are those that the updates up to it have declared. Each of its
generations gives its rows the numbers of their names, and later updates do not change that.

## Main definitions

* `Declaration.ofUpdates` : what updates declare, in order.
* `Snapshot.Documented` : a version knows the documents that updates have declared.
* `Session.Documented` : so do all versions of a session.

## Main results

* `Snapshot.Documented.map_metadata` : generations have the metadata of the updates.
* `Session.ofEvents_induction` : what the taken updates keep true is true of every session.
* `Session.Documented.apply` : taking in an update keeps it so.
* `Session.documented_ofEvents` : whatever happens to a session, its versions know their documents.
-/

namespace SymbolHistory

namespace Declaration

/-- What updates declare, each as the generation with its number. -/
def ofUpdates (updates : List Update) : List Declaration :=
  (updates.zipIdx 1).flatMap fun (update, number) =>
    update.metadata.documents.toList.map (Declaration.mk number)

theorem ofUpdates_append_singleton (updates : List Update) (update : Update) :
    ofUpdates (updates ++ [update]) =
      ofUpdates updates ++
        update.metadata.documents.toList.map (Declaration.mk (updates.length + 1)) := by
  rw [ofUpdates, List.zipIdx_append, List.flatMap_append, Nat.add_comm 1]
  simp [ofUpdates]

/-- The names that updates declare are those of their documents, in order. -/
theorem map_name_ofUpdates (updates : List Update) :
    (ofUpdates updates).map (·.document.name) =
      updates.flatMap fun update => update.metadata.documents.toList.map (·.name) := by
  induction updates using List.reverseRecOn with
  | nil => rfl
  | append_singleton updates update ih =>
      rw [ofUpdates_append_singleton, List.map_append, ih, List.map_map, List.flatMap_append,
        List.flatMap_singleton]
      rfl

/-- Updates that come later put their declarations behind the others. -/
theorem ofUpdates_prefix {updates later : List Update} (h : updates <+: later) :
    ofUpdates updates <+: ofUpdates later := by
  obtain ⟨more, rfl⟩ := h
  rw [ofUpdates, ofUpdates, List.zipIdx_append, List.flatMap_append]
  exact List.prefix_append _ _

/-- An update declares its documents. -/
theorem mem_ofUpdates_iff {updates : List Update} {declaration : Declaration} :
    declaration ∈ ofUpdates updates ↔
      ∃ i update, updates[i]? = some update ∧ declaration.generation = i + 1 ∧
        declaration.document ∈ update.metadata.documents := by
  rw [ofUpdates, List.mem_flatMap]
  constructor
  · rintro ⟨⟨update, number⟩, entry, mem⟩
    obtain ⟨document, known, rfl⟩ := List.mem_map.1 mem
    obtain ⟨le, found⟩ := List.mem_zipIdx_iff_le_and_getElem?_sub.1 entry
    exact ⟨number - 1, update, found, by dsimp only at le ⊢; omega, Array.mem_toList_iff.1 known⟩
  · rintro ⟨i, update, found, number, known⟩
    refine ⟨(update, i + 1), List.mem_zipIdx_iff_le_and_getElem?_sub.2 ⟨by simp, by simpa⟩, ?_⟩
    exact List.mem_map.2 ⟨_, Array.mem_toList_iff.2 known, by rw [← number]⟩

/-- Updates that declare come one after the other. -/
theorem pairwise_ofUpdates (updates : List Update) :
    (ofUpdates updates).Pairwise (·.generation ≤ ·.generation) := by
  induction updates using List.reverseRecOn with
  | nil => exact List.Pairwise.nil
  | append_singleton updates update ih =>
      rw [ofUpdates_append_singleton, List.pairwise_append]
      refine ⟨ih, List.pairwise_map.2 (List.pairwise_of_forall fun _ _ => Nat.le_refl _), ?_⟩
      intro declaration mem other other_mem
      obtain ⟨i, earlier, found, number, -⟩ := mem_ofUpdates_iff.1 mem
      obtain ⟨document, -, rfl⟩ := List.mem_map.1 other_mem
      have lt : i < updates.length := (List.getElem?_eq_some_iff.1 found).1
      rw [number]
      exact Nat.le_succ_of_le lt

end Declaration

open Declaration

namespace Snapshot

/-- A version knows the documents that updates have declared, and so do its generations. -/
structure Documented (snapshot : Snapshot) (updates : List Update) : Prop where
  /-- Rows of the updates are numbered. -/
  numbered : ∀ update ∈ updates, update.metadata.Numbered
  /-- The registry knows what they declare. -/
  records : snapshot.state.documents.Records (ofUpdates updates)
  /-- Each of them has made a generation, whose rows have the numbers of their names. -/
  generations : ∀ i update, updates[i]? = some update →
    ∃ generation, snapshot.generation? (i + 1) = some generation ∧
      generation.metadata = update.metadata ∧
      ∀ row id, generation.documentId? row = some id ↔
        ∃ document ∈ update.metadata.documents, document.rid = row ∧
          nameOf? (ofUpdates updates) id = some document.name

/-- What updates declare can be read from the generations that they have made. -/
theorem Documented.readable {snapshot : Snapshot} {updates : List Update}
    (h : snapshot.Documented updates) :
    Readable (historyOf snapshot.generations) (ofUpdates updates) := by
  intro declaration mem
  obtain ⟨i, update, found, number, known⟩ := mem_ofUpdates_iff.1 mem
  obtain ⟨generation, owned, metadata, -⟩ := h.generations i update found
  refine ⟨generation.metadata, ?_, ?_⟩
  · rw [number, historyOf]
    exact congrArg _ owned
  · rw [metadata]
    exact (h.numbered update (List.mem_of_getElem? found)).document?_rid known

/-- The generations of a version have the metadata of its updates. -/
theorem Documented.map_metadata {snapshot : Snapshot} {updates : List Update}
    (h : snapshot.Documented updates) (size : snapshot.version = updates.length) :
    snapshot.generations.toList.map (·.metadata) = updates.map (·.metadata) := by
  apply List.ext_getElem?
  intro i
  rw [List.getElem?_map, List.getElem?_map, Array.getElem?_toList]
  cases found : updates[i]? with
  | none =>
      have le : snapshot.generations.size ≤ i := by
        rw [← Snapshot.version, size]
        exact List.getElem?_eq_none_iff.1 found
      rw [Array.getElem?_eq_none le]
      rfl
  | some update =>
      obtain ⟨generation, owned, metadata, -⟩ := h.generations i update found
      have at_index : snapshot.generations[i]? = some generation := owned
      rw [at_index, Option.map_some, Option.map_some, metadata]

/-- The generations of a version may be kept, with other things remembered. -/
theorem Documented.keep {before after : Snapshot} {updates : List Update}
    (h : before.Documented updates) (keeps : Keeps before.generations after.generations)
    (documents : after.state.documents = before.state.documents) : after.Documented updates where
  numbered := h.numbered
  records := documents ▸ h.records
  generations i update found := by
    obtain ⟨generation, owned, metadata, rows⟩ := h.generations i update found
    obtain ⟨same, owned, same_metadata, same_ids⟩ := keeps _ _ owned
    refine ⟨same, owned, same_metadata.trans metadata, fun row id => ?_⟩
    rw [← rows, Generation.documentId?, same_ids]
    rfl

end Snapshot

namespace Session

/-! ### Runs -/

/-- **What the taken updates keep true is true of every session**, with the updates that it has
taken in. -/
theorem ofEvents_induction {motive : Session → List Update → Prop} {events : List Event}
    (start : motive empty [])
    (ask : ∀ session updates version document, motive session updates →
      motive (session.remember version document) updates)
    (offer : ∀ session updates update new, .offer update ∈ events → motive session updates →
      session.apply update = .ok new → motive new (updates ++ [update])) :
    motive (ofEvents events) (empty.accepted events) := by
  have run : ∀ session rest updates, (∀ event ∈ rest, event ∈ events) → motive session updates →
      motive (rest.foldl perform session) (updates ++ session.accepted rest) := by
    intro session rest
    fun_induction accepted session rest with
    | case1 => simp
    | case2 session version document rest ih =>
        intro updates known h
        rw [List.foldl_cons]
        exact ih updates (fun event mem => known event (List.mem_cons_of_mem _ mem))
          (ask session updates version document h)
    | case3 session update rest new eq ih =>
        intro updates known h
        rw [List.foldl_cons, perform, eq, List.append_cons]
        exact ih (updates ++ [update]) (fun event mem => known event (List.mem_cons_of_mem _ mem))
          (offer session updates update new (known _ List.mem_cons_self) h eq)
    | case4 session update rest e eq ih =>
        intro updates known h
        rw [List.foldl_cons, perform, eq]
        exact ih updates (fun event mem => known event (List.mem_cons_of_mem _ mem)) h
  exact run empty events [] (fun _ mem => mem) start

/-- The updates that are taken in first stay the first ones when more happens. -/
theorem accepted_append (session : Session) (events more : List Event) :
    session.accepted (events ++ more) =
      session.accepted events ++ (events.foldl perform session).accepted more := by
  fun_induction accepted session events with
  | case1 => rfl
  | case2 session version document events ih =>
      rw [List.cons_append, accepted, ih, List.foldl_cons, perform]
  | case3 session update events new eq ih =>
      rw [List.cons_append, accepted, eq]
      dsimp only
      rw [ih, List.foldl_cons, perform, eq, List.cons_append]
  | case4 session update events e eq ih =>
      rw [List.cons_append, accepted, eq]
      dsimp only
      rw [ih, List.foldl_cons, perform, eq]

/-- A version has the generations up to it. -/
theorem le_of_at? {session : Session} {version : Nat} {snapshot : Snapshot}
    (known : session.at? version = some snapshot) : version ≤ session.version := by
  rw [at?, Option.map_eq_some_iff] at known
  obtain ⟨generation, found, -⟩ := known
  exact le_size_of_generationAt? found

/-- A version is numbered after its last generation. -/
theorem version_of_at? {session : Session} {version : Nat} {snapshot : Snapshot}
    (known : session.at? version = some snapshot) : snapshot.version = version := by
  have le := le_of_at? known
  rw [at?, Option.map_eq_some_iff] at known
  obtain ⟨generation, -, rfl⟩ := known
  rw [Snapshot.version, Array.take_eq_extract, Array.size_extract]
  rw [Session.version] at le
  omega

/-! ### Documents -/

/-- All versions of a session know the documents that its updates have declared up to then. -/
structure Documented (session : Session) (updates : List Update) : Prop where
  /-- Every update has made a version. -/
  version : session.version = updates.length
  /-- That version knows the documents up to it. -/
  versions : ∀ version snapshot, session.at? version = some snapshot →
    snapshot.Documented (updates.take version)

theorem documented_empty : empty.Documented [] where
  version := rfl
  versions version snapshot known := by
    have := le_of_at? known
    obtain rfl : version = 0 := Nat.le_zero.1 this
    cases known

/-- A session knows the documents that its updates have declared, also before the first one. -/
theorem Documented.state {session : Session} {updates : List Update}
    (h : session.Documented updates) :
    Snapshot.Documented ⟨session.generations, session.state⟩ updates := by
  by_cases first : session.version = 0
  · obtain rfl : updates = [] := List.length_eq_zero_iff.1 (h.version ▸ first)
    obtain ⟨generations⟩ := session
    obtain rfl : generations = #[] := Array.size_eq_zero_iff.1 first
    exact ⟨by simp, DocumentRegistry.records_empty, by simp⟩
  · have last := h.versions _ _ (at?_version first)
    rwa [h.version, List.take_length] at last

theorem Documented.remember {session : Session} {updates : List Update}
    (h : session.Documented updates) (version : Nat) (document : DocumentId) :
    (session.remember version document).Documented updates where
  version := (version_remember session version document).trans h.version
  versions number snapshot known := by
    obtain ⟨before, known, keeps, state⟩ := exists_at?_of_remember known
    refine (h.versions number before known).keep keeps ?_
    rcases state with state | state <;> rw [state]

/-- Generations of a session that knows its documents come before the next one. -/
theorem Documented.generation_lt {session : Session} {updates : List Update}
    (h : session.Documented updates) {declaration : Declaration}
    (mem : declaration ∈ ofUpdates updates) : declaration.generation < session.version + 1 := by
  obtain ⟨i, update, found, number, -⟩ := mem_ofUpdates_iff.1 mem
  have lt : i < updates.length := (List.getElem?_eq_some_iff.1 found).1
  rw [number, h.version]
  omega

/-- The next generation knows the documents of the ones before, and its own. -/
theorem Documented.taken {session : Session} {updates : List Update} {update : Update}
    {generation : Generation} {moves : List Move} {spans : List MethodSpans}
    (h : session.Documented updates) (taken : session.Taken update generation moves spans)
    (numbered : update.metadata.Numbered) :
    Snapshot.Documented ⟨session.generations.push generation, generation.state⟩
      (updates ++ [update]) := by
  have before := h.state
  have own : DocumentRegistry.TakenIn (session.version + 1) (ofUpdates updates)
      update.metadata.documents.toList
      (generation.state.documents, generation.documentIds) := by
    rcases before.records.update_cases before.readable (pairwise_ofUpdates updates)
      (fun _ mem => h.generation_lt mem) numbered with ⟨-, new, eq, own⟩ | ⟨name, -, eq⟩
    · obtain rfl := Except.ok.inj (eq.symm.trans taken.documents)
      exact own
    · cases eq.symm.trans taken.documents
  have declared := ofUpdates_append_singleton updates update
  rw [← h.version] at declared
  constructor
  · intro other mem
    rcases List.mem_append.1 mem with mem | mem
    · exact before.numbered other mem
    · exact List.mem_singleton.1 mem ▸ numbered
  · rw [declared]
    exact own.records
  · intro i other found
    rw [List.getElem?_append] at found
    by_cases lt : i < updates.length
    · -- The rows of an earlier generation keep their numbers.
      rw [if_pos lt] at found
      obtain ⟨earlier, owned, metadata, rows⟩ := before.generations i other found
      obtain ⟨same, owned, same_metadata, same_ids⟩ := keeps_push _ generation _ _ owned
      refine ⟨same, owned, same_metadata.trans metadata, fun row id => ?_⟩
      have ids : same.documentId? row = earlier.documentId? row := by
        rw [Generation.documentId?, same_ids]
        rfl
      rw [ids, rows]
      refine exists_congr fun document => and_congr_right fun mem => and_congr_right fun _ => ?_
      rw [declared, nameOf?_append_iff]
      exact mem_names.2 ⟨⟨i + 1, document⟩, mem_ofUpdates_iff.2 ⟨i, other, found, rfl, mem⟩, rfl⟩
    · rw [if_neg lt] at found
      obtain ⟨last, rfl⟩ : i = updates.length ∧ update = other := by
        rw [List.getElem?_singleton] at found
        split at found
        · exact ⟨by omega, Option.some.inj found⟩
        · cases found
      refine ⟨generation, ?_, taken.metadata, fun row id => ?_⟩
      · rw [last, ← h.version]
        exact generationAt?_push_size _ _
      · rw [declared, Generation.documentId?, own.ids]
        simp only [Array.mem_toList_iff]

/-- **Taking in an update** makes one more version that knows its documents. -/
theorem Documented.apply {session new : Session} {updates : List Update} {update : Update}
    (h : session.Documented updates) (numbered : update.metadata.Numbered)
    (eq : session.apply update = .ok new) : new.Documented (updates ++ [update]) where
  version := by
    rw [version_apply eq, h.version, List.length_append, List.length_singleton]
  versions version snapshot known := by
    obtain ⟨generation, next, rfl⟩ := apply_eq_ok_iff.1 eq
    obtain ⟨moves, spans, taken⟩ := next_eq_ok_iff.1 next
    rw [at?_push] at known
    by_cases last : version = session.version + 1
    · rw [if_pos last, Option.some.injEq] at known
      rw [last, h.version, List.take_of_length_le (by simp)]
      exact known ▸ h.taken taken numbered
    · rw [if_neg last] at known
      have le := le_of_at? known
      rw [List.take_append_of_le_length (h.version ▸ le)]
      exact h.versions version snapshot known

/-- **Whatever happens to a session, its versions know their documents**, as long as the rows of
updates are numbered. -/
theorem documented_ofEvents {events : List Event}
    (numbered : ∀ update, .offer update ∈ events → update.metadata.Numbered) :
    (ofEvents events).Documented (empty.accepted events) :=
  ofEvents_induction documented_empty
    (fun _ _ version document h => h.remember version document)
    (fun _ _ update _ mem h eq => h.apply (numbered update mem) eq)

end Session

end SymbolHistory
