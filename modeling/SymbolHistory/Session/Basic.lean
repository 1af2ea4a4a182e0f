import SymbolHistory.Session.Snapshot
import SymbolHistory.Session.Move
import SymbolHistory.Metadata.Parse

/-!
# Sessions

A session follows a program that is edited while it runs. It starts empty, takes in the symbols of
the program and then one update after the other. An update that cannot be taken in leaves no trace.

## Main definitions

* `Update` : what a session takes in.
* `Session` : the generations so far.
* `Session.applyInParallel`, `Session.applyBytesInParallel` : take in the next generation.
* `Session.apply` : the same, one row after the other.
* `Session.at?`, `Session.current?` : what the session knew at a version, and what it knows.
* `Session.remember` : prepares the answers about a document at a version.

## Main results

* `Session.version_apply` : an update that is taken in makes the version one higher.
-/

namespace SymbolHistory

/-- How far a session is. -/
inductive Phase where
  /-- Nothing is applied. -/
  | empty
  /-- The first symbols are applied. -/
  | baseline
  /-- Updates are applied, up to this generation. -/
  | generation (number : Nat)
  deriving DecidableEq, Repr

/-- The name of a phase. -/
def Phase.text : Phase → String
  | empty => "Empty"
  | baseline => "Baseline"
  | generation number => s!"Generation({number})"

/-- What a session takes in: the first symbols, or an update of them. -/
structure Update where
  /-- The documents and methods that are new or replaced. -/
  metadata : Metadata
  /-- By how many lines methods move that keep their body. -/
  deltas : List (MethodId × LineDeltas)
  deriving DecidableEq

/-- The generations that a program went through so far. -/
structure Session where
  /-- The generations, in order. -/
  generations : Array Generation

namespace Session

/-- Nothing is applied. -/
def empty : Session :=
  ⟨#[]⟩

/-- The number of the last generation, 0 if there is none. -/
def version (session : Session) : Nat :=
  session.generations.size

/-- How far a session is. -/
def phase (session : Session) : Phase :=
  match session.version with
  | 0 => .empty
  | 1 => .baseline
  | number => .generation number

/-- The generation with a number, from 1. -/
def generation (session : Session) (number : Nat) : Except Error Generation :=
  generationOf session.generations number

/-- What the session knew when generation `version` was the last. -/
def at? (session : Session) (version : Nat) : Option Snapshot :=
  (generationAt? session.generations version).map fun generation =>
    ⟨session.generations.take version, generation.state⟩

/-- What the session knows. -/
def current? (session : Session) : Option Snapshot :=
  session.at? session.version

/-- What is known with the last generation. -/
def state (session : Session) : State :=
  match session.generations.back? with
  | some generation => generation.state
  | none => .empty

/-- The methods that get a new body. -/
def redefinedMethods (ids : Std.HashMap UInt32 MethodId) : Std.HashSet MethodId :=
  Std.HashSet.ofList (ids.toList.map (·.2))

/-- The deltas after an update: methods with a new body have none, moved ones have new totals. -/
def updateDeltas (deltas : Std.HashMap MethodId LineDeltas) (redefined : Std.HashSet MethodId)
    (moves : List Move) : Std.HashMap MethodId LineDeltas :=
  let kept := redefined.toList.foldl (fun deltas method => deltas.erase method) deltas
  moves.foldl (fun deltas move => deltas.insert move.method move.total) kept

/-- Works out the next generation. The rows of methods are worked on in parallel, with row `lead`
ahead of the others. -/
def nextInParallel (session : Session) (lead : Nat) (update : Update) :
    Except Error Generation := do
  let ⟨metadata, deltas⟩ := update
  let number := session.version + 1
  if number = 1 ∧ deltas ≠ [] then
    throw (.identityConflict .deltasWithBaseline)
  else
    let state := session.state
    let (documents, documentIds) ←
      state.documents.update metadata number (historyOf session.generations)
    let (methods, methodIds) ← state.methods.update metadata number
    let redefined := redefinedMethods methodIds
    let moves ← Move.planAll session.generations { state with methods } redefined deltas
    let spans ← MethodSpans.ofMetadata lead metadata number (documentIds[·]?) (methodIds[·]?)
    return {
      number
      metadata
      documentsBefore := state.documents.size
      documentIds
      methodIds
      state := {
        documents
        methods
        lines := (Move.performAll state.lines moves).replaceAll spans
        deltas := updateDeltas state.deltas redefined moves } }

/-- Works out the next generation, one row after the other. -/
def next (session : Session) (update : Update) : Except Error Generation :=
  session.nextInParallel 0 update

/-- Takes in an update, which makes the next generation. Row `lead` is worked on ahead of the
others. If several rows fail, then the error depends on it, and nothing else ever does. -/
def applyInParallel (session : Session) (lead : Nat) (update : Update) : Except Error Session := do
  return ⟨session.generations.push (← session.nextInParallel lead update)⟩

/-- Takes in an update, one row after the other. -/
def apply (session : Session) (update : Update) : Except Error Session :=
  session.applyInParallel 0 update

/-- Reads the metadata of an update and takes it in. -/
def applyBytesInParallel (session : Session) (lead : Nat) (data : List UInt8)
    (deltas : List (MethodId × LineDeltas)) : Except Error Session := do
  session.applyInParallel lead ⟨← Metadata.parse data, deltas⟩

/-- Divides the extents of a document at a version into runs and remembers these, which makes later
answers cheaper and changes none of them. -/
def remember (session : Session) (version : Nat) (document : DocumentId) : Session :=
  if version = 0 then session
  else
    ⟨session.generations.modify (version - 1) fun generation =>
      { generation with state.lines := generation.state.lines.remember document }⟩

/-- An update is taken in exactly if its generation can be worked out, which then comes last. -/
theorem applyInParallel_eq_ok_iff {session new : Session} {lead : Nat} {update : Update} :
    session.applyInParallel lead update = .ok new ↔
      ∃ generation, session.nextInParallel lead update = .ok generation ∧
        new = ⟨session.generations.push generation⟩ := by
  unfold applyInParallel
  cases session.nextInParallel lead update with
  | error e => simp [bind, Except.bind]
  | ok generation =>
    simp [bind, Except.bind, pure, Except.pure, eq_comm]

/-- An update is taken in exactly if it makes a generation, which is then the last one. -/
theorem apply_eq_ok_iff {session new : Session} {update : Update} :
    session.apply update = .ok new ↔
      ∃ generation, session.next update = .ok generation ∧
        new = ⟨session.generations.push generation⟩ :=
  applyInParallel_eq_ok_iff

/-- An update that is taken in makes the version one higher. -/
theorem version_apply {session new : Session} {update : Update}
    (h : session.apply update = .ok new) : new.version = session.version + 1 := by
  obtain ⟨generation, -, rfl⟩ := apply_eq_ok_iff.1 h
  simp [version]

end Session

end SymbolHistory
