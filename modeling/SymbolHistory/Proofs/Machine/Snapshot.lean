import SymbolHistory.Proofs.Machine.Runs
import SymbolHistory.Proofs.Machine.Update

/-!
# Questions on a machine

What a machine does to answer a question about a snapshot. Line tables are decoded again when their
points are asked for; one that cannot be read has no points.

## Main definitions

* `attempt` : an error in place of which there is no result.
* `points`, `offsetsOn`, `nextCodeLine` : the questions that decode line tables.
* `Query` : every question, with `Query.answer` for its answer and `ask` for what a machine does.

## Main results

* `ask_eq` : a machine answers every question as the library does.
-/

namespace SymbolHistory.Machine

open Snapshot (Search)

/-- The result of a program, none if it fails. A trap stays one. -/
def attempt {α : Type} : Exec α → Exec (Option α)
  | .ok a => pure (some a)
  | .error (.error _) => pure none
  | .error (.trap trap) => stuck trap

/-- An attempt turns an error into no result. -/
theorem attempt_ofExcept {α : Type} (result : Except Error α) :
    attempt (ofExcept result) = pure result.toOption := by
  cases result <;> rfl

/-- The debug information of a method, with the generation that it belongs to, if it has a line
table. -/
def owned? (snapshot : Snapshot) (method : MethodId) : Option (Generation × MethodDebug) := do
  let place ← snapshot.place? method
  let owner ← snapshot.generation? place.generation
  let record ← owner.metadata.method? place.row
  let _ ← record.lineTable
  return (owner, record)

/-- Points where they are now, with their documents. -/
def located? (snapshot : Snapshot) (method : MethodId) (owner : Generation)
    (points : List SequencePoint) : Option (List (DocumentId × SequencePoint)) :=
  (Snapshot.moved (snapshot.deltas? method) points).mapM fun point => do
    return (← owner.documentId? point.document, point)

/-- The points of a method where they are now, with their documents. -/
def points (snapshot : Snapshot) (method : MethodId) :
    Exec (Option (List (DocumentId × SequencePoint))) := do
  match owned? snapshot method with
  | none => return none
  | some (owner, record) =>
    match ← attempt (pointsOf record) with
    | none => return none
    | some points => return located? snapshot method owner points

/-- For every method on a line the offset of its first point there. -/
def offsetsOn (snapshot : Snapshot) (document : DocumentId) (line : UInt32) :
    Exec (List (MethodId × UInt32)) := do
  let methods ← hits snapshot.state.lines document line
  let found ← methods.mapM fun hit => do
    let points ← points snapshot hit.1
    return points.bind fun points =>
      (points.find? (Snapshot.isOn document line)).map fun entry => (hit.1, entry.2.codeOffset)
  return found.filterMap id

/-- One round of the search for the next line with code. -/
def searchFrom (snapshot : Snapshot) (document : DocumentId) (line cursor : UInt32) :
    Exec Search := do
  let candidates ← nextExtents snapshot.state.lines document cursor
  let found ← candidates.mapM fun extent => points snapshot extent.method
  let lines : List UInt32 := found.flatMap fun points =>
    (points.getD []).filterMap (Snapshot.coveredLine? document line)
  match lines.min? with
  | some closest => return .found closest
  | none =>
    match (candidates.map (·.maxLine)).min? with
    | none => return .exhausted
    | some last =>
      match checkedAdd UInt32.size last.toNat 1 with
      | some next => return .resume (UInt32.ofNat next)
      | none => return .exhausted

/-- At most `rounds` rounds of the search for the next line with code. -/
def searchRounds (snapshot : Snapshot) (document : DocumentId) (line : UInt32) :
    (rounds : Nat) → (cursor : UInt32) → Exec (Option UInt32)
  | 0, _ => pure none
  | rounds + 1, cursor => do
    match ← searchFrom snapshot document line cursor with
    | .found closest => return some closest
    | .exhausted => return none
    | .resume next => searchRounds snapshot document line rounds next

/-- The first line from `line` on that has a visible point in a document. -/
def nextCodeLine (snapshot : Snapshot) (document : DocumentId) (line : UInt32) :
    Exec (Option UInt32) :=
  searchRounds snapshot document line ((snapshot.state.lines.extentsIn document).length + 1) line

/-! ### What the library answers -/

section Answers

variable {snapshot : Snapshot}

/-- Points are had in two steps: whose they are, and where they are now. -/
theorem points?_eq (snapshot : Snapshot) (method : MethodId) :
    snapshot.points? method = (owned? snapshot method).bind fun owned =>
      owned.2.points.toOption.bind (located? snapshot method owned.1) := by
  simp only [Snapshot.points?, owned?, Option.bind_eq_bind, Option.bind_assoc, Option.pure_def,
    Option.bind_some]
  rfl

/-- What belongs to a method is in one of the generations. -/
theorem mem_of_owned? {method : MethodId} {owner : Generation} {record : MethodDebug}
    (h : owned? snapshot method = some (owner, record)) :
    owner ∈ snapshot.generations ∧ record ∈ owner.metadata.methods := by
  obtain ⟨place, -, h⟩ := Option.bind_eq_some_iff.1 h
  obtain ⟨generation, at_number, h⟩ := Option.bind_eq_some_iff.1 h
  obtain ⟨found, record_eq, h⟩ := Option.bind_eq_some_iff.1 h
  obtain ⟨table, -, h⟩ := Option.bind_eq_some_iff.1 h
  cases h
  exact ⟨mem_of_generationAt? at_number, mem_of_method? record_eq⟩

/-- **A machine finds the points that the library finds.** -/
theorem points_eq (fit : AllFit snapshot.generations) (method : MethodId) :
    points snapshot method = pure (snapshot.points? method) := by
  rw [points, points?_eq]
  cases found : owned? snapshot method with
  | none => rfl
  | some owned =>
      obtain ⟨owner, record⟩ := owned
      obtain ⟨owner_mem, record_mem⟩ := mem_of_owned? found
      dsimp only
      rw [pointsOf_eq ((fit owner owner_mem).lineTables record record_mem), attempt_ofExcept,
        pure_bind, Option.bind_some]
      cases record.points <;> rfl

/-- Offsets on a line are looked up without a trap. -/
theorem offsetsOn_eq (fit : AllFit snapshot.generations) (document : DocumentId) (line : UInt32) :
    offsetsOn snapshot document line = pure (snapshot.offsetsOn document line) := by
  simp only [offsetsOn, hits_eq, points_eq fit, pure_bind, List.mapM_pure, List.filterMap_map]
  refine congrArg pure (List.filterMap_congr fun hit _ => ?_)
  obtain ⟨method, version⟩ := hit
  dsimp only [Function.comp_apply, id]
  cases snapshot.points? method with
  | none => rfl
  | some points =>
      rw [Option.bind_some, Option.bind_eq_bind, Option.bind_some]
      cases points.find? (Snapshot.isOn document line) <;> rfl

/-- So is one round of the search for the next line with code. -/
theorem searchFrom_eq (fit : AllFit snapshot.generations) (document : DocumentId)
    (line cursor : UInt32) :
    searchFrom snapshot document line cursor =
      pure (snapshot.searchFrom document line cursor) := by
  simp only [searchFrom, nextExtents_eq, points_eq fit, pure_bind, List.mapM_pure,
    List.flatMap_map, Snapshot.searchFrom]
  generalize (List.flatMap _ _ : List UInt32).min? = closest?
  generalize (List.map _ _ : List UInt32).min? = last?
  cases closest? with
  | some closest => rfl
  | none =>
      cases last? with
      | none => rfl
      | some last =>
          dsimp only
          by_cases fits : last.toNat + 1 < UInt32.size
          · rw [checkedAdd_of_lt fits, if_pos fits]
            dsimp only
            rw [UInt32.ofNat_add, UInt32.ofNat_toNat]
            rfl
          · rw [checkedAdd, if_neg fits, if_neg fits]

/-- So are all rounds of it. -/
theorem searchRounds_eq (fit : AllFit snapshot.generations) (document : DocumentId)
    (line : UInt32) (rounds : Nat) (cursor : UInt32) :
    searchRounds snapshot document line rounds cursor =
      pure (snapshot.searchRounds document line rounds cursor) := by
  induction rounds generalizing cursor with
  | zero => rfl
  | succ rounds ih =>
    rw [searchRounds, searchFrom_eq fit, pure_bind, Snapshot.searchRounds]
    cases snapshot.searchFrom document line cursor with
    | found closest => rfl
    | exhausted => rfl
    | resume next => exact ih next

/-- So is the next line with code. -/
theorem nextCodeLine_eq (fit : AllFit snapshot.generations) (document : DocumentId)
    (line : UInt32) :
    nextCodeLine snapshot document line = pure (snapshot.nextCodeLine? document line) :=
  searchRounds_eq fit document line _ line

end Answers

/-! ### Every question -/

/-- A question about a snapshot. -/
inductive Query where
  /-- The version that the snapshot shows. -/
  | version
  /-- The number of documents. -/
  | documentCount
  /-- The number of methods with debug information. -/
  | methodCount
  /-- All documents. -/
  | documents
  /-- The document that a path stands for. -/
  | findDocument (path : String)
  /-- The current version of a document. -/
  | document (id : DocumentId)
  /-- The path of a document. -/
  | path (id : DocumentId)
  /-- Where the current debug information of a method is. -/
  | place (method : MethodId)
  /-- The current debug information of a method. -/
  | record (method : MethodId)
  /-- The points in the line table of a method. -/
  | storedPoints (method : MethodId)
  /-- The local signature in the line table of a method. -/
  | localSignature (method : MethodId)
  /-- By how many lines a method moved. -/
  | deltas (method : MethodId)
  /-- The points of a method where they are now. -/
  | points (method : MethodId)
  /-- The documents that a method has visible points in. -/
  | documentsOf (method : MethodId)
  /-- The first and last line of a method in a document. -/
  | lines (method : MethodId) (document : DocumentId)
  /-- The methods on a line. -/
  | methodsOn (document : DocumentId) (line : UInt32)
  /-- The first method on a line. -/
  | firstMethodOn (document : DocumentId) (line : UInt32)
  /-- The code offsets on a line. -/
  | offsetsOn (document : DocumentId) (line : UInt32)
  /-- The first line from a given one on that code belongs to. -/
  | nextCodeLine (document : DocumentId) (line : UInt32)
  deriving DecidableEq, Repr

namespace Query

/-- What a question asks for. -/
def Answer : Query → Type
  | version | documentCount | methodCount => Nat
  | documents | documentsOf _ => List DocumentId
  | findDocument _ => Option DocumentId
  | document _ => Option Document
  | path _ => Option String
  | place _ => Option MethodPlace
  | record _ => Option MethodDebug
  | storedPoints _ => Option (List SequencePoint)
  | localSignature _ => Option (Option Token)
  | deltas _ => Option LineDeltas
  | points _ => Option (List (DocumentId × SequencePoint))
  | lines _ _ => Option (UInt32 × UInt32)
  | methodsOn _ _ => List (MethodId × Nat)
  | firstMethodOn _ _ => Option (MethodId × Nat)
  | offsetsOn _ _ => List (MethodId × UInt32)
  | nextCodeLine _ _ => Option UInt32

/-- The answer to a question. Only those about a line table as it is stored can fail. -/
def answer (snapshot : Snapshot) : (query : Query) → Except Error query.Answer
  | version => .ok snapshot.version
  | documentCount => .ok snapshot.documentCount
  | methodCount => .ok snapshot.methodCount
  | documents => .ok snapshot.documents
  | findDocument name => .ok (snapshot.findDocument? name)
  | document id => .ok (snapshot.document? id)
  | path id => .ok (snapshot.path? id)
  | place method => .ok (snapshot.place? method)
  | record method => .ok (snapshot.record? method)
  | storedPoints method => (snapshot.record? method).mapM MethodDebug.points
  | localSignature method => (snapshot.record? method).mapM MethodDebug.localSignature
  | deltas method => .ok (snapshot.deltas? method)
  | points method => .ok (snapshot.points? method)
  | documentsOf method => .ok (snapshot.documentsOf method)
  | lines method id => .ok (snapshot.lines? method id)
  | methodsOn id line => .ok (snapshot.methodsOn id line)
  | firstMethodOn id line => .ok (snapshot.firstMethodOn? id line)
  | offsetsOn id line => .ok (snapshot.offsetsOn id line)
  | nextCodeLine id line => .ok (snapshot.nextCodeLine? id line)

/-- The texts in a question are objects in memory. -/
def Fits : Query → Prop
  | findDocument name => name.utf8ByteSize < objectBound
  | _ => True

end Query

/-- What a machine does to answer a question. Looking something up in a map or a vector by a key or
a number that may be unknown is safe; everything else is spelled out. -/
def ask (snapshot : Snapshot) : (query : Query) → Exec query.Answer
  | .findDocument path =>
    findDocument snapshot.state.documents (historyOf snapshot.generations) path
  | .storedPoints method => (snapshot.record? method).mapM pointsOf
  | .localSignature method => (snapshot.record? method).mapM localSignatureOf
  | .points method => points snapshot method
  | .methodsOn document line => hits snapshot.state.lines document line
  | .firstMethodOn document line => firstHit snapshot.state.lines document line
  | .offsetsOn document line => offsetsOn snapshot document line
  | .nextCodeLine document line => nextCodeLine snapshot document line
  | query => ofExcept (query.answer snapshot)

/-- The line table of a known method is an object in memory. -/
theorem fits_of_record? {snapshot : Snapshot} (fit : AllFit snapshot.generations)
    {method : MethodId} {record : MethodDebug} (h : snapshot.record? method = some record) :
    ∀ stored ∈ record.lineTable, stored.length < objectBound := by
  obtain ⟨place, -, h⟩ := Option.bind_eq_some_iff.1 h
  obtain ⟨owner, at_number, h⟩ := Option.bind_eq_some_iff.1 h
  exact (fit owner (mem_of_generationAt? at_number)).lineTables record (mem_of_method? h)

/-- What is done to an item, if there is one, is safe if it is safe for that item. -/
theorem ofExcept_mapM_option {α β : Type} {step : α → Exec β} {function : α → Except Error β}
    {item : Option α} (h : ∀ a ∈ item, step a = ofExcept (function a)) :
    item.mapM step = ofExcept (item.mapM function) := by
  cases item with
  | none => rfl
  | some a =>
      change some <$> step a = ofExcept (some <$> function a)
      rw [h a rfl, ofExcept_map]

/-- **A machine answers every question as the library does, or fails as it does.** -/
theorem ask_eq {snapshot : Snapshot} (fit : AllFit snapshot.generations) {query : Query}
    (fits : query.Fits) : ask snapshot query = ofExcept (query.answer snapshot) := by
  cases query with
  | findDocument path => exact findDocument_eq fits
  | storedPoints method =>
      exact ofExcept_mapM_option fun record found => pointsOf_eq (fits_of_record? fit found)
  | localSignature method =>
      exact ofExcept_mapM_option fun record found => localSignatureOf_eq (fits_of_record? fit found)
  | points method => exact points_eq fit method
  | methodsOn document line => exact hits_eq _ _ _
  | firstMethodOn document line => exact firstHit_eq _ _ _
  | offsetsOn document line => exact offsetsOn_eq fit document line
  | nextCodeLine document line => exact nextCodeLine_eq fit document line
  | _ => rfl

end SymbolHistory.Machine
