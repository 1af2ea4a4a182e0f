import SymbolHistory.Session.Basic

/-!
# Histories of sessions

What happens to a session, as data. Updates are offered, and are taken in or refused. Questions are
asked, about any version and at any time, and what their answers need is remembered.

## Main definitions

* `Session.Event` : one thing that happens.
* `Session.perform`, `Session.ofEvents` : the session after events.
* `Session.accepted` : the updates among events that are taken in.
* `Session.InOrder` : generations are numbered in order.

## Main results

* `Session.version_ofEvents` : the version counts the updates that were taken in.
* `Session.inOrder_ofEvents` : generations are numbered in order, from 1.
-/

namespace SymbolHistory.Session

/-- One thing that happens to a session. -/
inductive Event where
  /-- An update is offered. -/
  | offer (update : Update)
  /-- Somebody asks what is in a document at a version. -/
  | ask (version : Nat) (document : DocumentId)
  deriving DecidableEq

/-- The session after an event; an update that is refused leaves no trace. It makes no difference in
which order the rows of an update are worked on. -/
def perform (session : Session) : Event → Session
  | .offer update =>
    match session.apply update with
    | .ok new => new
    | .error _ => session
  | .ask version document => session.remember version document

/-- The session after events, from the empty one on. -/
def ofEvents (events : List Event) : Session :=
  events.foldl perform empty

/-- The updates that a session takes in when these events happen to it. -/
def accepted (session : Session) : List Event → List Update
  | [] => []
  | .ask version document :: events => accepted (session.remember version document) events
  | .offer update :: events =>
    match session.apply update with
    | .ok new => update :: accepted new events
    | .error _ => accepted session events

/-- Remembering runs does not make a version. -/
@[simp] theorem version_remember (session : Session) (version : Nat) (document : DocumentId) :
    (session.remember version document).version = session.version := by
  unfold remember
  split
  · rfl
  · simp [Session.version]

/-- Each update that is taken in makes one. -/
theorem version_foldl_perform (session : Session) (events : List Event) :
    (events.foldl perform session).version =
      session.version + (session.accepted events).length := by
  fun_induction accepted session events with
  | case1 => rfl
  | case2 session version document events ih => simpa [perform] using ih
  | case3 session update events new eq ih =>
    rw [List.foldl_cons, perform, eq, ih, version_apply eq, List.length_cons]
    omega
  | case4 session update events e eq ih => rw [List.foldl_cons, perform, eq, ih]

/-- The version counts the updates that were taken in. -/
theorem version_ofEvents (events : List Event) :
    (ofEvents events).version = (empty.accepted events).length := by
  rw [ofEvents, version_foldl_perform]
  exact Nat.zero_add _

/-- The next generation has the next number. -/
theorem number_of_next {session : Session} {update : Update} {generation : Generation}
    (h : session.next update = .ok generation) : generation.number = session.version + 1 := by
  unfold next nextInParallel at h
  simp only [bind, Except.bind, pure, Except.pure, throw, throwThe, MonadExceptOf.throw] at h
  split at h
  · cases h
  · repeat' split at h
    all_goals cases h
    rfl

/-- Generations are numbered in order, from 1. -/
def InOrder (session : Session) : Prop :=
  ∀ i (h : i < session.generations.size), session.generations[i].number = i + 1

/-- At first there are no generations. -/
theorem inOrder_empty : empty.InOrder := fun i h => absurd h (Nat.not_lt_zero i)

/-- An update that is taken in has the next number. -/
theorem InOrder.apply {session new : Session} {update : Update} (h : session.InOrder)
    (eq : session.apply update = .ok new) : new.InOrder := by
  obtain ⟨generation, next, rfl⟩ := apply_eq_ok_iff.1 eq
  intro i lt
  rw [Array.size_push] at lt
  rw [Array.getElem_push]
  split
  · exact h i _
  · rw [number_of_next next, version]
    omega

/-- Remembering runs leaves the numbers alone. -/
theorem InOrder.remember {session : Session} (h : session.InOrder) (version : Nat)
    (document : DocumentId) : (session.remember version document).InOrder := by
  unfold Session.remember
  split
  · exact h
  · intro i lt
    rw [Array.getElem_modify]
    split <;> exact h i (by simpa using lt)

/-- So events keep generations in order. -/
theorem InOrder.perform {session : Session} (h : session.InOrder) (event : Event) :
    (session.perform event).InOrder := by
  unfold Session.perform
  split
  · split
    · exact h.apply (by assumption)
    · exact h
  · exact h.remember _ _

/-- Whatever happens to a session, its generations are numbered in order. -/
theorem inOrder_ofEvents (events : List Event) : (ofEvents events).InOrder :=
  List.foldlRecOn events perform inOrder_empty fun _ h event _ => h.perform event

end SymbolHistory.Session
