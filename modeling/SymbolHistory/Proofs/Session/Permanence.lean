import SymbolHistory.Proofs.Session.Alike

/-!
# Versions do not change

A version of a session is made once, by the updates up to it. Later updates, refused ones, and
questions about any version leave runs remembered at most. So it answers as it would in a session
that was given its updates and nothing else.

## Main definitions

* `Session.ofUpdates` : the session that is given some updates and nothing else.
* `Session.Settled` : all versions of a session are alike to such ones.

## Main results

* `Session.alike_known` : a version is alike to a session that was given its updates only.
* `Session.at?_induction`, `Session.at?_induction_of_numbered` : what every update keeps true is
  true of every version.
* `Session.versions_answer_as_fresh` : whatever happens, versions answer as they did at first.
-/

namespace SymbolHistory.Session

/-- The session that is given some updates and nothing else. -/
def ofUpdates (updates : List Update) : Session :=
  ofEvents (updates.map .offer)

theorem ofUpdates_append_singleton (updates : List Update) (update : Update) :
    ofUpdates (updates ++ [update]) = (ofUpdates updates).perform (.offer update) := by
  rw [ofUpdates, List.map_append, ofEvents, List.foldl_append]
  rfl

/-- Every version is alike to what a session is that was given its updates and nothing else. -/
structure Settled (session : Session) (updates : List Update) : Prop where
  /-- Every update has made a version. -/
  version : session.version = updates.length
  /-- It is alike to what its updates make. -/
  alike : ∀ version ≤ updates.length, GenerationsAlike (session.generations.take version)
    (ofUpdates (updates.take version)).generations

theorem settled_empty : empty.Settled [] where
  version := rfl
  alike version le := by
    obtain rfl : version = 0 := Nat.le_zero.1 le
    exact ⟨rfl, fun number => by cases number <;> exact .none⟩

theorem Settled.remember {session : Session} {updates : List Update} (h : session.Settled updates)
    (version : Nat) (document : DocumentId) :
    (session.remember version document).Settled updates where
  version := (version_remember session version document).trans h.version
  alike number le := (h.alike number le).remember version document

/-- All generations of a session are alike to those that its updates make. -/
theorem Settled.all_alike {session : Session} {updates : List Update}
    (h : session.Settled updates) :
    GenerationsAlike session.generations (ofUpdates updates).generations := by
  have alike := h.alike updates.length (Nat.le_refl _)
  rwa [List.take_length, ← h.version, Session.version, Array.take_eq_extract,
    Array.extract_size] at alike

/-- **An update that is taken in makes the generation that it always makes.** The versions before
it are what they were. -/
theorem Settled.apply {session new : Session} {updates : List Update} {update : Update}
    (h : session.Settled updates) (eq : session.apply update = .ok new) :
    new.Settled (updates ++ [update]) := by
  obtain ⟨generation, next, rfl⟩ := apply_eq_ok_iff.1 eq
  obtain ⟨moves, spans, taken⟩ := next_eq_ok_iff.1 next
  obtain ⟨same, taken', alike⟩ := taken.alike h.all_alike
  have applied : (ofUpdates updates).apply update =
      .ok ⟨(ofUpdates updates).generations.push same⟩ :=
    apply_eq_ok_iff.2 ⟨same, next_eq_ok_iff.2 ⟨moves, spans, taken'⟩, rfl⟩
  have length : (updates ++ [update]).length = updates.length + 1 := List.length_append
  constructor
  · rw [version_apply eq, h.version, length]
  · intro version le
    -- Adding a generation leaves the ones before it alone, on both sides.
    by_cases last : version = updates.length + 1
    · have size : (session.generations.push generation).size = version := by
        rw [Array.size_push, last, ← h.version]
        rfl
      rw [List.take_of_length_le (by omega), ofUpdates_append_singleton, perform, applied,
        Array.take_eq_extract, ← size, Array.extract_size]
      exact h.all_alike.push alike
    · have earlier : version ≤ updates.length := by omega
      have le : version ≤ session.generations.size := by
        rw [← Session.version, h.version]
        exact earlier
      rw [List.take_append_of_le_length earlier, Array.take_eq_extract,
        Array.extract_push_of_le le, ← Array.take_eq_extract]
      exact h.alike version earlier

/-- **Whatever happens to a session**, its versions are alike to what their updates make. -/
theorem settled_ofEvents (events : List Event) :
    (ofEvents events).Settled (empty.accepted events) :=
  ofEvents_induction settled_empty (fun _ _ version document h => h.remember version document)
    (fun _ _ _ _ _ h eq => h.apply eq)

/-- **A version is alike to a session that was given its updates only**, and took them all in. -/
theorem alike_known {events : List Event} {version : Nat} {snapshot : Snapshot}
    (known : (ofEvents events).at? version = some snapshot) :
    (ofUpdates ((empty.accepted events).take version)).version = version ∧
      snapshot.Alike (ofUpdates ((empty.accepted events).take version)).known := by
  have settled := settled_ofEvents events
  have included : version ≤ (ofEvents events).generations.size := le_of_at? known
  have alike := settled.alike version (settled.version ▸ included)
  have size : ((ofEvents events).generations.take version).size = version := by
    rw [Array.take_eq_extract, Array.size_extract, Nat.sub_zero]
    exact Nat.min_eq_left included
  rw [at?, Option.map_eq_some_iff] at known
  obtain ⟨generation, found, rfl⟩ := known
  refine ⟨alike.size.symm.trans size, alike, ?_⟩
  have state : (Session.mk ((ofEvents events).generations.take version)).state =
      generation.state := by
    rw [state_eq, Session.version, size, generationAt?_take, if_pos (Nat.le_refl _), found]
    rfl
  exact state ▸ state_alike alike

/-- A session has a version for each update that it took in. -/
theorem isSome_at?_iff {session : Session} {version : Nat} :
    (session.at? version).isSome ↔ 1 ≤ version ∧ version ≤ session.version := by
  rw [at?, Option.isSome_map, generationAt?, Session.version]
  by_cases zero : version = 0
  · rw [if_pos zero]
    exact iff_of_false Bool.false_ne_true fun within => by omega
  · rw [if_neg zero, isSome_getElem?]
    omega

/-- No more updates are taken in than there are events. -/
theorem length_accepted_le (session : Session) (events : List Event) :
    (session.accepted events).length ≤ events.length := by
  fun_induction accepted session events with
  | case1 => exact Nat.le_refl _
  | case2 session version document events ih => exact Nat.le_succ_of_le ih
  | case3 session offered events new eq ih => exact Nat.succ_le_succ ih
  | case4 session offered events e eq ih => exact Nat.le_succ_of_le ih

/-- A session that is given some updates takes in as many at most. -/
theorem version_ofUpdates_le (updates : List Update) :
    (ofUpdates updates).version ≤ updates.length := by
  rw [ofUpdates, version_ofEvents]
  exact (length_accepted_le empty _).trans_eq (List.length_map _)

/-- Only updates that are offered are taken in. -/
theorem mem_of_mem_accepted {session : Session} {events : List Event} {update : Update}
    (h : update ∈ session.accepted events) : .offer update ∈ events := by
  fun_induction accepted session events with
  | case1 => exact absurd h List.not_mem_nil
  | case2 session version document events ih => exact List.mem_cons_of_mem _ (ih h)
  | case3 session offered events new eq ih =>
      rcases List.mem_cons.1 h with rfl | mem
      · exact List.mem_cons_self
      · exact List.mem_cons_of_mem _ (ih mem)
  | case4 session offered events e eq ih => exact List.mem_cons_of_mem _ (ih h)

/-- A session that was given updates and took them all in took the last one in, and the ones before
it. -/
theorem exists_taken {updates : List Update} {update : Update}
    (all : (ofUpdates (updates ++ [update])).version = (updates ++ [update]).length) :
    (ofUpdates updates).version = updates.length ∧ ∃ generation moves spans,
      (ofUpdates updates).Taken update generation moves spans ∧
        ofUpdates (updates ++ [update]) =
          ⟨(ofUpdates updates).generations.push generation⟩ := by
  have few := version_ofUpdates_le updates
  have length : (updates ++ [update]).length = updates.length + 1 := List.length_append
  rw [ofUpdates_append_singleton, perform] at all ⊢
  cases applied : (ofUpdates updates).apply update with
  | error e =>
      rw [applied] at all
      dsimp only at all
      omega
  | ok new =>
      rw [applied] at all
      have version := version_apply applied
      obtain ⟨generation, next, rfl⟩ := apply_eq_ok_iff.1 applied
      obtain ⟨moves, spans, taken⟩ := next_eq_ok_iff.1 next
      dsimp only at all
      exact ⟨by omega, generation, moves, spans, taken, rfl⟩

/-- With one more generation, what is known with it is known. -/
theorem known_push (generations : Array Generation) (generation : Generation) :
    known ⟨generations.push generation⟩ = ⟨generations.push generation, generation.state⟩ := by
  rw [known, state, Array.back?_push]

/-- **What every update keeps true is true of every version**, with the updates that made it. It has
to hold of versions that are alike to such ones. -/
theorem at?_induction {motive : Snapshot → List Update → Prop} {events : List Event}
    (start : motive empty.known [])
    (keep : ∀ snapshot fresh updates, snapshot.Alike fresh → motive fresh updates →
      motive snapshot updates)
    (offer : ∀ updates update generation moves spans,
      (∀ other ∈ updates ++ [update], .offer other ∈ events) →
      (ofUpdates updates).version = updates.length → motive (ofUpdates updates).known updates →
      (ofUpdates updates).Taken update generation moves spans →
      motive ⟨(ofUpdates updates).generations.push generation, generation.state⟩
        (updates ++ [update]))
    {version : Nat} {snapshot : Snapshot}
    (known : (ofEvents events).at? version = some snapshot) :
    motive snapshot ((empty.accepted events).take version) := by
  -- A session that takes in all that it is given takes one step for each of its updates.
  have run : ∀ updates : List Update, (∀ other ∈ updates, .offer other ∈ events) →
      (ofUpdates updates).version = updates.length →
      motive (ofUpdates updates).known updates := by
    intro updates
    induction updates using List.reverseRecOn with
    | nil => exact fun _ _ => start
    | append_singleton updates update ih =>
        intro offered all
        obtain ⟨before, generation, moves, spans, taken, eq⟩ := exists_taken all
        rw [eq, known_push]
        exact offer updates update generation moves spans offered before
          (ih (fun other mem => offered other (List.mem_append_left _ mem)) before) taken
  obtain ⟨all, alike⟩ := alike_known known
  refine keep _ _ _ alike (run _ (fun other mem => ?_) ?_)
  · exact mem_of_mem_accepted (List.mem_of_mem_take mem)
  · have le := le_of_at? known
    rw [all, List.length_take, ← version_ofEvents, Nat.min_eq_left le]

/-- A session that is given updates with numbered rows is sound. -/
theorem sound_ofUpdates {updates : List Update}
    (numbered : ∀ update ∈ updates, update.metadata.Numbered) : (ofUpdates updates).Sound := by
  refine sound_ofEvents fun update mem => ?_
  obtain ⟨other, other_mem, ⟨rfl⟩⟩ := List.mem_map.1 mem
  exact numbered _ other_mem

/-- **What numbered updates keep true is true of every version.** Then the sessions that the updates
come to are sound. -/
theorem at?_induction_of_numbered {motive : Snapshot → List Update → Prop} {events : List Event}
    (numbered : ∀ update, .offer update ∈ events → update.metadata.Numbered)
    (start : motive empty.known [])
    (keep : ∀ snapshot fresh updates, snapshot.Alike fresh → motive fresh updates →
      motive snapshot updates)
    (offer : ∀ (session : Session) updates update generation moves spans, session.Sound →
      update.metadata.Numbered → session.version = updates.length →
      motive session.known updates → session.Taken update generation moves spans →
      motive ⟨session.generations.push generation, generation.state⟩ (updates ++ [update]))
    {version : Nat} {snapshot : Snapshot}
    (known : (ofEvents events).at? version = some snapshot) :
    motive snapshot ((empty.accepted events).take version) := by
  refine at?_induction start keep ?_ known
  intro updates update generation moves spans offered length before taken
  have numbered : ∀ other ∈ updates ++ [update], other.metadata.Numbered :=
    fun other mem => numbered other (offered other mem)
  have sound : (ofUpdates updates).Sound :=
    sound_ofUpdates fun other mem => numbered other (List.mem_append_left _ mem)
  have own : update.metadata.Numbered :=
    numbered update (List.mem_append_right _ (List.mem_singleton.2 rfl))
  exact offer _ _ _ _ _ _ sound own length before taken

/-- **Versions are permanent.** Whatever happens to a session, it has one version for each update
that it took in, and answers all questions about a version as a session does that was given the
updates up to it and nothing else. -/
theorem versions_answer_as_fresh (events : List Event) (version : Nat) :
    (((ofEvents events).at? version).isSome ↔
      1 ≤ version ∧ version ≤ (empty.accepted events).length) ∧
    Option.Rel Snapshot.AnswersAlike ((ofEvents events).at? version)
      ((ofUpdates ((empty.accepted events).take version)).at? version) := by
  constructor
  · rw [isSome_at?_iff, version_ofEvents]
  cases known : (ofEvents events).at? version with
  | some snapshot =>
      obtain ⟨all, alike⟩ := alike_known known
      have positive : version ≠ 0 := by
        rintro rfl
        cases known
      have last := at?_version (all.trans_ne positive)
      rw [all] at last
      rw [last]
      exact .some alike.answersAlike
  | none =>
      -- Neither session has that version, for the fresh one has no more than it was given.
      have fresh : (ofUpdates ((empty.accepted events).take version)).at? version = none := by
        by_contra some
        obtain ⟨positive, le⟩ := isSome_at?_iff.1 (Option.isSome_iff_ne_none.2 some)
        have few := le.trans (version_ofUpdates_le _)
        rw [List.length_take, ← version_ofEvents] at few
        have found := isSome_at?_iff.2 ⟨positive, few.trans (Nat.min_le_right _ _)⟩
        rw [known] at found
        cases found
      rw [fresh]
      exact .none

end SymbolHistory.Session
