import SymbolHistory.Proofs.Session.Step

/-!
# Rows in any order

The rows of an update are worked on in parallel, and nobody knows which of them is done first. If
the update is taken in, that does not show. If it is refused before its rows are looked at, it does
not show either. Only if rows fail, the error is that of one of them, and it can be any.

## Main definitions

* `Session.RowFails` : a row of an update fails with an error.

## Main results

* `Session.applyInParallel_eq_apply_or` : what the order of rows decides.
* `Session.applyInParallel_eq_or` : two orders come to the same, or both to errors of rows.
-/

namespace SymbolHistory.Session

/-- One of the rows fails with this error, once the documents and the methods are taken in. -/
def RowFails (session : Session) (metadata : Metadata) (e : Error) : Prop :=
  ∃ documents methods,
    session.state.documents.update metadata (session.version + 1)
      (historyOf session.generations) = .ok documents ∧
    session.state.methods.update metadata (session.version + 1) = .ok methods ∧
    ∃ record ∈ metadata.methods, MethodSpans.ofRecord (session.version + 1) (documents.2[·]?)
      (methods.2[·]?) record = .error e

variable {session : Session} {update : Update} {lead : Nat} {e : Error}

/-- Adding a generation does not fail. -/
theorem applyInParallel_eq_error_iff :
    session.applyInParallel lead update = .error e ↔
      session.nextInParallel lead update = .error e :=
  Outcome.bind_ok_eq_error_iff

/-- An update fails before its rows are looked at, or exactly if these fail. -/
theorem nextInParallel_eq_next_or (session : Session) (update : Update) :
    (∀ lead, session.nextInParallel lead update = session.next update) ∨
      ∃ documents methods,
        session.state.documents.update update.metadata (session.version + 1)
          (historyOf session.generations) = .ok documents ∧
        session.state.methods.update update.metadata (session.version + 1) = .ok methods ∧
        ∀ lead e, session.nextInParallel lead update = .error e ↔
          MethodSpans.ofMetadata lead update.metadata (session.version + 1) (documents.2[·]?)
            (methods.2[·]?) = .error e := by
  simp only [next, nextInParallel]
  by_cases baseline : session.version + 1 = 1 ∧ update.deltas ≠ []
  · exact .inl fun _ => by rw [if_pos baseline, if_pos baseline]
  simp only [if_neg baseline]
  cases session.state.documents.update update.metadata (session.version + 1)
    (historyOf session.generations) with
  | error e => exact .inl fun _ => rfl
  | ok documents =>
  cases session.state.methods.update update.metadata (session.version + 1) with
  | error e => exact .inl fun _ => rfl
  | ok methods =>
  cases planned : Move.planAll session.generations { session.state with methods := methods.1 }
    (redefinedMethods methods.2) update.deltas with
  | error e =>
    exact .inl fun _ => (Outcome.bind_of_error planned).trans (Outcome.bind_of_error planned).symm
  | ok moves =>
  refine .inr ⟨documents, methods, rfl, rfl, fun lead e => ?_⟩
  rw [Outcome.bind_of_ok rfl, Outcome.bind_of_ok rfl, Outcome.bind_of_ok planned]
  exact Outcome.bind_ok_eq_error_iff

/-- **What the order of rows decides.** It makes no difference to how an update fares, or all orders
come to errors, which are those of the rows that fail. -/
theorem applyInParallel_eq_apply_or (session : Session) (update : Update) :
    (∀ lead, session.applyInParallel lead update = session.apply update) ∨
      (∀ lead, ∃ e, session.applyInParallel lead update = .error e) ∧
        ∀ e, (∃ lead, session.applyInParallel lead update = .error e) ↔
          session.RowFails update.metadata e := by
  rcases nextInParallel_eq_next_or session update with
    same | ⟨documents, methods, documented, assigned, rows⟩
  · refine .inl fun lead => ?_
    rw [apply, applyInParallel, applyInParallel, same]
    rfl
  have fails : ∀ e, session.RowFails update.metadata e ↔ ∃ record ∈ update.metadata.methods.toList,
      MethodSpans.ofRecord (session.version + 1) (documents.2[·]?) (methods.2[·]?) record =
        .error e := by
    intro e
    constructor
    · rintro ⟨documents', methods', documented', assigned', record, mem, failed⟩
      obtain rfl := Except.ok.inj (documented.symm.trans documented')
      obtain rfl := Except.ok.inj (assigned.symm.trans assigned')
      exact ⟨record, Array.mem_toList_iff.2 mem, failed⟩
    · rintro ⟨record, mem, failed⟩
      exact ⟨documents, methods, documented, assigned, record, Array.mem_toList_iff.1 mem, failed⟩
  simp only [applyInParallel_eq_error_iff, rows, fails]
  by_cases failing : ∃ e, session.RowFails update.metadata e
  · obtain ⟨e, failing⟩ := failing
    obtain ⟨record, mem, failed⟩ := (fails e).1 failing
    refine .inr ⟨fun lead => ?_, fun e => Outcome.exists_mapParallel_eq_error_iff⟩
    rcases Outcome.mapParallel_cases lead _ _ with ⟨each, -⟩ | ⟨-, -, e, -, eq⟩
    · obtain ⟨new, measured⟩ := each record mem
      cases failed.symm.trans measured
    · exact ⟨e, eq⟩
  · -- No order fails, so all of them come to the session that one row after the other comes to.
    refine .inl fun lead => ?_
    cases applied : session.applyInParallel lead update with
    | ok new => exact (applyInParallel_eq_ok_iff_apply.1 applied).symm
    | error e =>
      rw [applyInParallel_eq_error_iff, rows] at applied
      exact absurd ⟨e, (fails e).2 (Outcome.exists_mapParallel_eq_error_iff.1 ⟨lead, applied⟩)⟩
        failing

/-- **Two orders of rows come to the same, or both to errors of rows.** -/
theorem applyInParallel_eq_or (session : Session) (update : Update) (lead other : Nat) :
    session.applyInParallel lead update = session.applyInParallel other update ∨
      ∃ e e', session.applyInParallel lead update = .error e ∧
        session.applyInParallel other update = .error e' ∧
        session.RowFails update.metadata e ∧ session.RowFails update.metadata e' := by
  rcases applyInParallel_eq_apply_or session update with same | ⟨refused, fails⟩
  · exact .inl ((same lead).trans (same other).symm)
  · obtain ⟨e, failed⟩ := refused lead
    obtain ⟨e', failed'⟩ := refused other
    exact .inr ⟨e, e', failed, failed', (fails e).1 ⟨lead, failed⟩, (fails e').1 ⟨other, failed'⟩⟩

end SymbolHistory.Session
