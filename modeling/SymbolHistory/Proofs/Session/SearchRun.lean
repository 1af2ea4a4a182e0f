import SymbolHistory.Proofs.Session.Offsets

/-!
# The search for the next line comes to an end

The search for the next line with code goes on from round to round until a round settles it. It has
no bound of its own: methods with extents ahead may have no points, and then a round finds nothing
and the search goes on behind the first extent that it looked at. What bounds the rounds are the
extents that are not over by the cursor. All that a round looks at is among them, so each round that
goes on leaves one of them behind.

## Main definitions

* `Snapshot.Searches` : a search without a bound on its rounds, with all its cursors.

## Main results

* `Snapshot.Searches.unique` : there is one way only that a search can go.
* `Snapshot.Sound.lt_of_resume` : a round that goes on moves the cursor ahead.
* `Snapshot.Sound.exists_searches` : every search comes to an end, after no more rounds than there
  are extents ahead, and one.
* `Session.search_ends` : so it is in every session, also where methods have no points.
-/

namespace SymbolHistory

namespace Snapshot

/-- A search for the next line with code from `line` on that starts at a cursor and comes to an end:
the cursors of its rounds, one after the other, and the answer. -/
inductive Searches (snapshot : Snapshot) (document : DocumentId) (line : UInt32) :
    (cursor : UInt32) → (cursors : List UInt32) → (answer : Option UInt32) → Prop
  /-- A round finds the line. -/
  | found {cursor closest : UInt32}
      (round : snapshot.searchFrom document line cursor = .found closest) :
      Searches snapshot document line cursor [cursor] (some closest)
  /-- A round finds that there is no such line. -/
  | exhausted {cursor : UInt32} (round : snapshot.searchFrom document line cursor = .exhausted) :
      Searches snapshot document line cursor [cursor] none
  /-- A round finds nothing, and the search goes on. -/
  | resume {cursor next : UInt32} {cursors : List UInt32} {answer : Option UInt32}
      (round : snapshot.searchFrom document line cursor = .resume next)
      (rest : Searches snapshot document line next cursors answer) :
      Searches snapshot document line cursor (cursor :: cursors) answer

variable {snapshot : Snapshot} {document : DocumentId} {line cursor : UInt32}
  {cursors others : List UInt32} {answer other : Option UInt32}

/-- **There is one way only that a search can go.** -/
theorem Searches.unique (h : snapshot.Searches document line cursor cursors answer)
    (h' : snapshot.Searches document line cursor others other) :
    cursors = others ∧ answer = other := by
  induction h generalizing others other with
  | found round =>
      cases h' with
      | found round' =>
          obtain rfl := Search.found.inj (round.symm.trans round')
          exact ⟨rfl, rfl⟩
      | exhausted round' => cases round.symm.trans round'
      | resume round' => cases round.symm.trans round'
  | exhausted round =>
      cases h' with
      | found round' => cases round.symm.trans round'
      | exhausted round' => exact ⟨rfl, rfl⟩
      | resume round' => cases round.symm.trans round'
  | resume round rest ih =>
      cases h' with
      | found round' => cases round.symm.trans round'
      | exhausted round' => cases round.symm.trans round'
      | resume round' rest' =>
          obtain rfl := Search.resume.inj (round.symm.trans round')
          obtain ⟨rfl, rfl⟩ := ih rest'
          exact ⟨rfl, rfl⟩

/-- A search starts at its first cursor. -/
theorem Searches.exists_cons (h : snapshot.Searches document line cursor cursors answer) :
    ∃ later, cursors = cursor :: later := by
  cases h <;> exact ⟨_, rfl⟩

/-- The answer of a search is what a bounded one finds that may go through as many rounds. -/
theorem Searches.searchRounds_eq (h : snapshot.Searches document line cursor cursors answer)
    {rounds : Nat} (enough : cursors.length ≤ rounds) :
    snapshot.searchRounds document line rounds cursor = answer := by
  induction h generalizing rounds with
  | found round =>
      obtain ⟨rounds, rfl⟩ := Nat.exists_eq_add_one_of_ne_zero (Nat.ne_of_gt enough)
      rw [searchRounds, round]
  | exhausted round =>
      obtain ⟨rounds, rfl⟩ := Nat.exists_eq_add_one_of_ne_zero (Nat.ne_of_gt enough)
      rw [searchRounds, round]
  | resume round rest ih =>
      rw [List.length_cons] at enough
      obtain ⟨rounds, rfl⟩ := Nat.exists_eq_add_one_of_ne_zero (n := rounds) (by omega)
      rw [searchRounds, round]
      exact ih (Nat.le_of_succ_le_succ enough)

/-- **A round that goes on moves the cursor ahead**, for no extent that it looks at is over by the
cursor. -/
theorem Sound.lt_of_resume (h : snapshot.Sound) {next : UInt32}
    (round : snapshot.searchFrom document line cursor = .resume next) : cursor < next := by
  obtain ⟨left, mem, after⟩ := exists_mem_nextExtents_of_resume round
  have ahead := UInt32.le_iff_toNat_le.1 (h.of_mem_nextExtents mem).2
  rw [UInt32.lt_iff_toNat_lt]
  omega

/-- A round that finds that there is no such line looks at no extent, or at one up to the last line
that there can be. -/
theorem of_exhausted (round : snapshot.searchFrom document line cursor = .exhausted) :
    snapshot.state.lines.nextExtents document cursor = [] ∨
      ∃ extent ∈ snapshot.state.lines.nextExtents document cursor,
        UInt32.size ≤ extent.maxLine.toNat + 1 := by
  rw [searchFrom] at round
  split at round
  · cases round
  · split at round
    · next none =>
      exact .inl (List.map_eq_nil_iff.1 (List.min?_eq_none_iff.1 none))
    · next last least =>
      obtain ⟨extent, mem, rfl⟩ := List.mem_map.1 (List.min?_eq_some_iff.1 least).1
      split at round
      · cases round
      · next outside => exact .inr ⟨extent, mem, Nat.not_lt.1 outside⟩

/-- **Every search comes to an end.** Its cursors ascend, and there is one for each extent that is
ahead of the first of them at most, and one more. -/
theorem Sound.exists_searches (h : snapshot.Sound) (document : DocumentId) (line cursor : UInt32) :
    ∃ cursors answer, snapshot.Searches document line cursor cursors answer ∧
      (∀ later ∈ cursors, cursor ≤ later) ∧ cursors.Pairwise (· < ·) ∧
      cursors.length ≤ (snapshot.extentsFrom document cursor).length + 1 := by
  -- Rounds that go on leave ever fewer extents ahead.
  induction ahead : (snapshot.extentsFrom document cursor).length using Nat.strong_induction_on
    generalizing cursor with
  | _ ahead ih =>
      subst ahead
      have alone : ∀ later ∈ [cursor], cursor ≤ later :=
        List.forall_mem_singleton.2 (UInt32.le_refl cursor)
      cases round : snapshot.searchFrom document line cursor with
      | found closest =>
          exact ⟨_, _, .found round, alone, List.pairwise_singleton _ _, Nat.succ_le_succ (by simp)⟩
      | exhausted =>
          exact ⟨_, _, .exhausted round, alone, List.pairwise_singleton _ _,
            Nat.succ_le_succ (by simp)⟩
      | resume next =>
          have fewer := h.length_extentsFrom_lt round
          have further := h.lt_of_resume round
          obtain ⟨cursors, answer, rest, from_next, ascending, few⟩ := ih _ fewer next rfl
          refine ⟨cursor :: cursors, answer, .resume round rest, ?_, ?_, ?_⟩
          · exact List.forall_mem_cons.2 ⟨UInt32.le_refl cursor, fun later mem =>
              UInt32.le_trans (UInt32.le_of_lt further) (from_next later mem)⟩
          · exact List.pairwise_cons.2
              ⟨fun later mem => UInt32.lt_of_lt_of_le further (from_next later mem), ascending⟩
          · rw [List.length_cons]
            omega

end Snapshot

namespace Session

/-- **The search for the next line with code comes to an end**, in every version of a session whose
updates have numbered rows, whichever methods have points. It goes in one way only, and answers what
the version answers. Its cursors ascend, and it goes through one round more than the document has
extents at most. -/
theorem search_ends {events : List Event}
    (numbered : ∀ update, .offer update ∈ events → update.metadata.Numbered) {version : Nat}
    {snapshot : Snapshot} (known : (ofEvents events).at? version = some snapshot)
    (document : DocumentId) (line : UInt32) :
    ∃ cursors,
      snapshot.Searches document line line cursors (snapshot.nextCodeLine? document line) ∧
      (∀ others answer, snapshot.Searches document line line others answer → others = cursors) ∧
      cursors.Pairwise (· < ·) ∧
      cursors.length ≤ (snapshot.state.lines.extentsIn document).length + 1 := by
  have sound := sound_ofEvents numbered version snapshot known
  obtain ⟨cursors, answer, search, -, ascending, few⟩ := sound.exists_searches document line line
  have fewer : (snapshot.extentsFrom document line).length ≤
      (snapshot.state.lines.extentsIn document).length := List.length_filter_le _ _
  have bounded : cursors.length ≤ (snapshot.state.lines.extentsIn document).length + 1 := by omega
  have answers : snapshot.nextCodeLine? document line = answer := search.searchRounds_eq bounded
  exact ⟨cursors, answers ▸ search, fun _ _ search' => (search'.unique search).1, ascending,
    bounded⟩

/-- What is known of a program with one method, on line 10, whose points cannot be had because a
hidden one is in a document row that is not there: no method has points. -/
theorem exists_at?_hiddenElsewhere : ∃ snapshot,
    (ofEvents [.offer hiddenElsewhere]).at? 1 = some snapshot ∧
      snapshot.visibleRanges? ⟨1⟩ = some [(⟨1⟩, ⟨10, 1, 10, 5⟩)] ∧
      (∀ method, snapshot.points? method = none) ∧
      ∀ method, (snapshot.visibleRanges? method).isSome → method = ⟨1⟩ := by
  have decoded : (MethodDebug.ofLineTable 1 1 (some [0, 0, 0, 4, 10, 1, 0, 2, 1, 0, 0])).points =
      .ok [⟨0, 1, some ⟨10, 1, 10, 5⟩⟩, ⟨1, 2, none⟩] := by decide +kernel
  obtain ⟨owner, session, metadata, placed, still, only⟩ :=
    exists_known_ofLineTable decoded (by decide)
  have known : (ofEvents [.offer hiddenElsewhere]).at? 1 = some ⟨#[owner], owner.state⟩ :=
    at?_of_ofEvents_eq session
  have numbered : ∀ update, .offer update ∈ [Event.offer hiddenElsewhere] →
      update.metadata.Numbered := numbered_singleton (numbered_ofLineTable _)
  have sound := sound_ofEvents numbered 1 _ known
  have identifies := (documented_ofEvents numbered).identifiesDocuments known
  have owned : Snapshot.generation? ⟨#[owner], owner.state⟩ 1 = some owner := rfl
  have found : owner.metadata.method? 1 =
      some (.ofLineTable 1 1 (some [0, 0, 0, 4, 10, 1, 0, 2, 1, 0, 0])) := by
    rw [metadata]
    rfl
  refine ⟨_, known,
    visibleRanges?_ofLineTable decoded rfl metadata identifies placed still, fun method => ?_,
    fun method visible => only method
      (Option.isSome_iff_ne_none.1 ((sound.isSome_visibleRanges?_iff method).1 visible))⟩
  by_contra had
  have points := Option.isSome_iff_ne_none.2 had
  obtain rfl := only method (Option.isSome_iff_ne_none.1 (sound.offsetsAnswered.known _ points))
  obtain ⟨stored, decoded', answered⟩ := sound.pointsAnswered identifies placed owned found rfl
  obtain rfl := Except.ok.inj (decoded'.symm.trans decoded)
  have declared := answered.isSome_iff.1 points ⟨1, 2, none⟩ (by decide) rfl
  rw [metadata] at declared
  exact absurd declared (by decide)

/-- A program with one method on line 10 whose points cannot be had. Asked about that line, the
search goes on behind it before it comes to its end. -/
theorem search_ends_hiddenElsewhere :
    (∀ update, .offer update ∈ [Event.offer hiddenElsewhere] → update.metadata.Numbered) ∧
      ∃ snapshot, (ofEvents [.offer hiddenElsewhere]).at? 1 = some snapshot ∧
        snapshot.points? ⟨1⟩ = none ∧ ∃ next cursors,
          snapshot.Searches ⟨1⟩ 10 10 (10 :: next :: cursors) (snapshot.nextCodeLine? ⟨1⟩ 10) ∧
          10 < next := by
  have numbered : ∀ update, .offer update ∈ [Event.offer hiddenElsewhere] →
      update.metadata.Numbered := numbered_singleton (numbered_ofLineTable _)
  obtain ⟨snapshot, known, visible, no_points, only⟩ := exists_at?_hiddenElsewhere
  have sound := sound_ofEvents numbered 1 snapshot known
  obtain ⟨cursors, search, -, ascending, -⟩ := search_ends numbered known ⟨1⟩ 10
  refine ⟨numbered, snapshot, known, no_points _, ?_⟩
  generalize snapshot.nextCodeLine? ⟨1⟩ 10 = answer at search ⊢
  cases search with
  | found round =>
      obtain ⟨-, method, entries, points, -⟩ := Snapshot.exists_isOn_of_searchFrom round
      cases (no_points method).symm.trans points
  | exhausted round =>
      -- The extent of the method is looked at, and it does not end on the last line of all.
      obtain ⟨extent, mem, -, starts, ends⟩ :=
        sound.exists_extent visible (List.mem_singleton_self _)
      have looked_at := sound.mem_nextExtents_of_covers mem (Extent.covers_iff.2 ⟨starts, ends⟩)
      rcases Snapshot.of_exhausted round with nothing | ⟨last, last_mem, size⟩
      · rw [nothing] at looked_at
        exact absurd looked_at List.not_mem_nil
      · obtain ⟨ranges, own, bounds⟩ := sound.mem_extentsIn (sound.of_mem_nextExtents last_mem).1
        rw [only _ (Option.isSome_of_mem own), visible] at own
        obtain rfl := Option.some.inj own
        obtain ⟨range, range_mem, maxLine⟩ := bounds.maxLine_mem
        obtain ⟨-, rfl⟩ := Prod.mk.inj (List.mem_singleton.1 range_mem)
        have maxLine : (10 : UInt32) = last.maxLine := maxLine
        rw [← maxLine] at size
        exact absurd size (by decide)
  | @resume _ next _ _ round rest =>
      have further := sound.lt_of_resume round
      obtain ⟨_, rfl⟩ := rest.exists_cons
      exact ⟨next, _, .resume round rest, further⟩

end Session

end SymbolHistory
