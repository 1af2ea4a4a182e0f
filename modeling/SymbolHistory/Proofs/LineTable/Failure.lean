import SymbolHistory.MethodDebug

/-!
# How reading a line table fails

A line table is read from stored bytes alone, so whatever goes wrong is the fault of these: they end
early, or they break the format. No other error comes up.

## Main definitions

* `Error.FromData` : data that ends early or breaks the format.
* `Bytes.FailsOnData` : a reader that fails in no other way.

## Main results

* `LineTable.fromData_of_decode` : that is how reading a line table fails.
* `MethodDebug.fromData_of_points` : and so does asking a method for its points.
-/

namespace SymbolHistory

/-- What bytes can get wrong: they end early, or they break the format. -/
inductive Error.FromData : Error → Prop
  /-- They end before what has to be read. -/
  | outOfBounds : Error.FromData .outOfBounds
  /-- They break the format. -/
  | malformed (defect : Defect) : Error.FromData (.malformed defect)

namespace Bytes

/-- A reader whose errors are the fault of the bytes. -/
def FailsOnData {α : Type} (reader : Reader α) : Prop :=
  ∀ bytes e, reader bytes = .error e → e.FromData

/-- A reader that reads nothing does not fail. -/
theorem failsOnData_pure {α : Type} (a : α) : FailsOnData (pure a : Reader α) := by
  intro bytes e h
  cases h

/-- A defect of the format is the fault of the bytes. -/
theorem failsOnData_throw {α : Type} (defect : Defect) :
    FailsOnData (throw (.malformed defect) : Reader α) := by
  intro bytes e h
  cases h
  exact .malformed defect

/-- Two readers one after the other fail as one of them does. -/
theorem FailsOnData.bind {α β : Type} {first : Reader α} {next : α → Reader β}
    (h₁ : FailsOnData first) (h₂ : ∀ a, FailsOnData (next a)) : FailsOnData (first >>= next) := by
  intro bytes e h
  cases read : first bytes with
  | error e₁ =>
      rw [bind_of_error read] at h
      cases h
      exact h₁ bytes e read
  | ok result =>
      rw [bind_of_ok read] at h
      exact h₂ result.1 result.2 e h

/-- If both branches fail on data only, so does the choice between them. -/
theorem FailsOnData.ite {α : Type} {c : Prop} [Decidable c] {first second : Reader α}
    (h₁ : FailsOnData first) (h₂ : FailsOnData second) :
    FailsOnData (if c then first else second) := by
  split <;> assumption

/-- A compressed number can end early or have a first byte that no form has. -/
theorem failsOnData_compressed : FailsOnData compressed := by
  have scanned : ∀ bytes e looked, scan bytes = .error (e, looked) → e.FromData := by
    intro bytes e looked h
    unfold scan at h
    repeat' split at h
    all_goals cases h
    all_goals first | exact .outOfBounds | exact .malformed _
  intro bytes e h
  rw [compressed] at h
  cases read : scan bytes with
  | error failure =>
      rw [read] at h
      cases h
      exact scanned bytes failure.1 failure.2 read
  | ok found =>
      rw [read] at h
      cases h

/-- An unsigned number can have a longer form than it needs as well. -/
theorem failsOnData_minimalUnsigned : FailsOnData minimalUnsigned :=
  failsOnData_compressed.bind fun _ => .ite (failsOnData_pure _) (failsOnData_throw _)

/-- So can a signed one. -/
theorem failsOnData_minimalSigned : FailsOnData minimalSigned :=
  failsOnData_compressed.bind fun _ => .ite (failsOnData_pure _) (failsOnData_throw _)

end Bytes

namespace LineTable

open Bytes

/-- A header fails as its numbers do, or because of its document. -/
theorem failsOnData_readHeader (column : Option UInt32) : FailsOnData (readHeader column) := by
  refine failsOnData_minimalUnsigned.bind fun signature => ?_
  cases column with
  | some document => exact .ite (failsOnData_throw _) (failsOnData_pure _)
  | none =>
      exact failsOnData_minimalUnsigned.bind fun document =>
        .ite (failsOnData_throw _) (failsOnData_pure _)

/-- The document or the offset of a record can be one that is not allowed. -/
theorem failsOnData_readPlace (context : Context) : FailsOnData (readPlace context) := by
  unfold readPlace
  split
  · exact failsOnData_minimalUnsigned.bind fun _ => failsOnData_pure _
  · refine failsOnData_minimalUnsigned.bind fun step => .ite ?_ (failsOnData_pure _)
    refine failsOnData_minimalUnsigned.bind fun document => .ite (failsOnData_throw _)
      (.ite (failsOnData_throw _) ?_)
    exact failsOnData_minimalUnsigned.bind fun step =>
      .ite (failsOnData_throw _) (failsOnData_pure _)

/-- Column deltas fail as the number does that they are stored as. -/
theorem failsOnData_readColumns (lines : Nat) : FailsOnData (readColumns lines) :=
  .ite (failsOnData_minimalUnsigned.bind fun _ => failsOnData_pure _) failsOnData_minimalSigned

/-- So do start positions, whether they are deltas or the position itself. -/
theorem failsOnData_readStart (anchor : Option (UInt32 × UInt16)) :
    FailsOnData (readStart anchor) := by
  rcases anchor with _ | ⟨line, column⟩
  · exact failsOnData_minimalUnsigned.bind fun _ =>
      failsOnData_minimalUnsigned.bind fun _ => failsOnData_pure _
  · exact failsOnData_minimalSigned.bind fun _ =>
      failsOnData_minimalSigned.bind fun _ => failsOnData_pure _

/-- A range that is refused has a line or a column out of bounds. -/
theorem fromData_of_checkRange {start : Int × Int} {lines : Nat} {columns : Int} {e : Error}
    (h : checkRange start lines columns = .error e) : e.FromData := by
  simp only [checkRange, checkLine, checkColumn, bind, Except.bind, pure, Except.pure] at h
  repeat' split at h
  all_goals grind [Error.FromData]

/-- A range fails as one of its parts does, or because it is out of bounds. -/
theorem failsOnData_readRange (anchor : Option (UInt32 × UInt16)) :
    FailsOnData (readRange anchor) := by
  refine failsOnData_minimalUnsigned.bind fun lines =>
    (failsOnData_readColumns lines).bind fun columns => .ite (failsOnData_pure _) ?_
  refine (failsOnData_readStart anchor).bind fun start => ?_
  split
  · exact failsOnData_pure _
  · next e refused =>
    intro bytes e' h
    cases h
    exact fromData_of_checkRange refused

/-- Reading the record of a point fails on its bytes alone. -/
theorem failsOnData_readPoint (context : Context) : FailsOnData (readPoint context) :=
  (failsOnData_readPlace context).bind fun _ =>
    .ite ((failsOnData_readRange _).bind fun _ => failsOnData_pure _) (failsOnData_throw _)

/-- The error that ends the points is that of a record. -/
theorem fromData_of_readPoints {context : Context} {bytes : List UInt8} {e : Error}
    (h : (readPoints context bytes).2 = some e) : e.FromData := by
  fun_induction readPoints context bytes with
  | case1 => cases h
  | case2 context b bs failure read =>
      obtain rfl := Option.some.inj h
      exact failsOnData_readPoint context _ _ read
  | case3 context b bs point rest read _ points failure _ ih =>
      exact ih (by simp_all)

/-- **Reading a line table fails** only on bytes that end early or break the format. -/
theorem fromData_of_decode {bytes : List UInt8} {column : Option UInt32} {e : Error}
    (h : decode bytes column = .error e) : e.FromData := by
  rw [decode] at h
  cases header : readHeader column bytes with
  | error e₁ =>
      rw [header] at h
      cases h
      exact failsOnData_readHeader column bytes e header
  | ok result =>
      rcases result with ⟨header', rest⟩
      simp only [header] at h
      cases read : readPoints (.initial header'.initialDocument) rest with
      | mk points failure =>
          rw [read] at h
          cases failure with
          | none => cases h
          | some e₂ =>
              cases h
              exact fromData_of_readPoints (congrArg Prod.snd read)

end LineTable

/-- A method whose points cannot be read has a line table that ends early or breaks the format. -/
theorem MethodDebug.fromData_of_points {record : MethodDebug} {e : Error}
    (h : record.points = .error e) : e.FromData := by
  rw [points] at h
  cases stored : record.lineTable with
  | none =>
      rw [stored] at h
      cases h
  | some bytes =>
      rw [stored] at h
      cases read : LineTable.decode bytes record.column with
      | error e₁ =>
          simp only [read] at h
          cases h
          exact LineTable.fromData_of_decode read
      | ok table =>
          simp only [read] at h
          cases h

end SymbolHistory
