import SymbolHistory.LineTable.Decode
import SymbolHistory.LineTable.Encode
import SymbolHistory.Proofs.Bytes.Compressed
import SymbolHistory.Proofs.Outcome

/-!
# Places of points

The record of a point starts with its place, which is its document and its code offset. What forms a
place has is said here once. Writing a place yields its form and reading it accepts its forms, and
there is never a choice between two of them.

## Main definitions

* `LineTable.PlaceForm` : how a place is written.

## Main results

* `LineTable.placeForm_of_readPlace`, `LineTable.PlaceForm.read` : reading accepts exactly that.
* `LineTable.placeForm_of_encodePlace`, `LineTable.PlaceForm.encodePlace_eq` : writing yields it.
-/

namespace SymbolHistory.LineTable

open Bytes

/-! ### Numbers -/

/-- Zero takes one byte. -/
theorem encodeUnsigned_zero : encodeUnsigned 0 = .ok [0] := rfl

/-- A number is read and worked on exactly if a form of it is there, and then the rest is. -/
theorem minimalUnsigned_bind_eq_ok_iff {α : Type} {next : Nat → Reader α}
    {bytes rest : List UInt8} {a : α} :
    (minimalUnsigned >>= next) bytes = .ok (a, rest) ↔
      ∃ n form mid, encodeUnsigned n = .ok form ∧ bytes = form ++ mid ∧
        next n mid = .ok (a, rest) := by
  rw [bind_eq_ok_iff]
  simp only [minimalUnsigned_eq_ok_iff]
  constructor
  · rintro ⟨n, mid, ⟨form, written, eq⟩, h⟩
    exact ⟨n, form, mid, written, eq, h⟩
  · rintro ⟨n, form, mid, written, eq, h⟩
    exact ⟨n, mid, ⟨form, written, eq⟩, h⟩

/-- A signed number is read and worked on exactly if a form of it is there, and then the rest is. -/
theorem minimalSigned_bind_eq_ok_iff {α : Type} {next : Int → Reader α}
    {bytes rest : List UInt8} {a : α} :
    (minimalSigned >>= next) bytes = .ok (a, rest) ↔
      ∃ n form mid, encodeSigned n = .ok form ∧ bytes = form ++ mid ∧
        next n mid = .ok (a, rest) := by
  rw [bind_eq_ok_iff]
  simp only [minimalSigned_eq_ok_iff]
  constructor
  · rintro ⟨n, mid, ⟨form, written, eq⟩, h⟩
    exact ⟨n, form, mid, written, eq, h⟩
  · rintro ⟨n, form, mid, written, eq, h⟩
    exact ⟨n, mid, ⟨form, written, eq⟩, h⟩

/-- Numbers that have a form are below 2^29. -/
theorem lt_of_encodeUnsigned {n : Nat} {form : List UInt8} (h : encodeUnsigned n = .ok form) :
    n < 0x20000000 :=
  encodeUnsigned_eq_ok_iff.1 ⟨form, h⟩

/-- So they fit into words. -/
theorem toNat_ofNat_of_encodeUnsigned {n : Nat} {form : List UInt8}
    (h : encodeUnsigned n = .ok form) : (UInt32.ofNat n).toNat = n := by
  have := lt_of_encodeUnsigned h
  exact UInt32.toNat_ofNat_of_lt' (by rw [UInt32.size]; omega)

/-- Numbers below 2^29 have a form. -/
theorem exists_encodeUnsigned {n : Nat} (h : n < 0x20000000) :
    ∃ form, encodeUnsigned n = .ok form :=
  encodeUnsigned_eq_ok_iff.2 h

/-- A signed number far below 2^28 has a form. -/
theorem exists_encodeSigned {n : Int} (lower : -0x10000 ≤ n) (upper : n ≤ 0x10000) :
    ∃ form, encodeSigned n = .ok form := by
  refine encodeSigned_eq_ok_iff.2 ⟨?_, ?_⟩ <;> rw [Width.half] <;> omega

/-! ### Forms of places -/

/-- How the place of a point is written. -/
inductive PlaceForm (context : Context) (document : UInt32) (offset : Nat) : List UInt8 → Prop where
  /-- The first offset is written as it is, and lies in the initial document. -/
  | first {form : List UInt8} (start : context.offset = none) (same : document = context.document)
      (written : encodeUnsigned offset = .ok form) : PlaceForm context document offset form
  /-- A later offset is written as the distance from the one before. -/
  | later {previous : UInt32} {step : Nat} {form : List UInt8}
      (behind : context.offset = some previous) (same : document = context.document)
      (far : offset = previous.toNat + step) (ne : step ≠ 0)
      (written : encodeUnsigned step = .ok form) : PlaceForm context document offset form
  /-- Another document is announced by a distance of 0. -/
  | elsewhere {previous : UInt32} {step : Nat} {record form : List UInt8}
      (behind : context.offset = some previous) (other : document ≠ context.document)
      (named : document ≠ 0) (announced : encodeUnsigned document.toNat = .ok record)
      (far : offset = previous.toNat + step) (ne : step ≠ 0)
      (written : encodeUnsigned step = .ok form) :
      PlaceForm context document offset ((0 :: record) ++ form)

/-- What is read as a place is a form of it. -/
theorem placeForm_of_readPlace {context : Context} {bytes rest : List UInt8} {document : UInt32}
    {offset : Nat} (h : readPlace context bytes = .ok ((document, offset), rest)) :
    ∃ form, PlaceForm context document offset form ∧ bytes = form ++ rest := by
  rw [readPlace] at h
  cases start : context.offset with
  | none =>
      simp only [start] at h
      rw [minimalUnsigned_bind_eq_ok_iff] at h
      obtain ⟨first, form, mid, written, rfl, h⟩ := h
      obtain ⟨eq, rfl⟩ := pure_eq_ok_iff.1 h
      obtain ⟨rfl, rfl⟩ := Prod.mk.inj eq
      exact ⟨form, .first start rfl written, rfl⟩
  | some previous =>
      simp only [start] at h
      rw [minimalUnsigned_bind_eq_ok_iff] at h
      obtain ⟨step, form, mid, written, rfl, h⟩ := h
      by_cases zero : step = 0
      · rw [if_pos zero] at h
        rw [zero, encodeUnsigned_zero] at written
        obtain rfl := Except.ok.inj written
        rw [minimalUnsigned_bind_eq_ok_iff] at h
        obtain ⟨row, record, mid, announced, rfl, h⟩ := h
        by_cases nil : row = 0
        · rw [if_pos nil] at h
          cases h
        · rw [if_neg nil] at h
          by_cases again : row = context.document.toNat
          · rw [if_pos again] at h
            cases h
          · rw [if_neg again] at h
            rw [minimalUnsigned_bind_eq_ok_iff] at h
            obtain ⟨step, form, mid, written, rfl, h⟩ := h
            by_cases adjacent : step = 0
            · rw [if_pos adjacent] at h
              cases h
            · rw [if_neg adjacent] at h
              obtain ⟨eq, rfl⟩ := pure_eq_ok_iff.1 h
              obtain ⟨rfl, rfl⟩ := Prod.mk.inj eq
              have exact := toNat_ofNat_of_encodeUnsigned announced
              refine ⟨(0 :: record) ++ form, .elsewhere start ?_ ?_ ?_ rfl adjacent written, ?_⟩
              · rintro same
                exact again (exact ▸ congrArg UInt32.toNat same)
              · intro zero
                exact nil (exact ▸ congrArg UInt32.toNat zero)
              · rw [exact, announced]
              · simp
      · rw [if_neg zero] at h
        obtain ⟨eq, rfl⟩ := pure_eq_ok_iff.1 h
        obtain ⟨rfl, rfl⟩ := Prod.mk.inj eq
        exact ⟨form, .later start rfl rfl zero written, rfl⟩

/-- A form of a place is read as that, whatever follows. -/
theorem PlaceForm.read {context : Context} {document : UInt32} {offset : Nat} {form : List UInt8}
    (h : PlaceForm context document offset form) (rest : List UInt8) :
    readPlace context (form ++ rest) = .ok ((document, offset), rest) := by
  rw [readPlace]
  cases h with
  | first start same written =>
      simp only [start]
      exact minimalUnsigned_bind_eq_ok_iff.2 ⟨_, _, _, written, rfl,
        pure_eq_ok_iff.2 ⟨by rw [same], rfl⟩⟩
  | @later previous step _ start same far ne written =>
      simp only [start]
      refine minimalUnsigned_bind_eq_ok_iff.2 ⟨_, _, _, written, rfl, ?_⟩
      rw [if_neg ne]
      exact pure_eq_ok_iff.2 ⟨by rw [same, far], rfl⟩
  | @elsewhere previous step record form start other named announced far ne written =>
      simp only [start]
      have split : (0 :: record) ++ form ++ rest = [0] ++ (record ++ (form ++ rest)) := by simp
      have nil : document.toNat ≠ 0 := fun eq => named (UInt32.toNat_inj.1 eq)
      have again : document.toNat ≠ context.document.toNat := fun eq =>
        other (UInt32.toNat_inj.1 eq)
      refine minimalUnsigned_bind_eq_ok_iff.2 ⟨_, _, _, encodeUnsigned_zero, split, ?_⟩
      rw [if_pos rfl]
      refine minimalUnsigned_bind_eq_ok_iff.2 ⟨_, _, _, announced, rfl, ?_⟩
      rw [if_neg nil, if_neg again]
      refine minimalUnsigned_bind_eq_ok_iff.2 ⟨_, _, _, written, rfl, ?_⟩
      rw [if_neg ne]
      exact pure_eq_ok_iff.2 ⟨by rw [UInt32.ofNat_toNat, far], rfl⟩

/-- The distance from the offset before is written behind what announces another document. -/
theorem step_eq_ok_iff {previous offset : UInt32} {change form : List UInt8} {e : Error} :
    (if previous < offset then do
        return change ++ (← encodeUnsigned (offset.toNat - previous.toNat))
      else throw e : Except Error (List UInt8)) = .ok form ↔
      ∃ step stepForm, offset.toNat = previous.toNat + step ∧ step ≠ 0 ∧
        encodeUnsigned step = .ok stepForm ∧ form = change ++ stepForm := by
  by_cases behind : previous < offset
  · rw [if_pos behind, Outcome.bind_eq_ok_iff]
    rw [UInt32.lt_iff_toNat_lt] at behind
    constructor
    · rintro ⟨stepForm, written, h⟩
      exact ⟨_, stepForm, by omega, by omega, written, (Outcome.pure_eq_ok_iff.1 h).symm⟩
    · rintro ⟨step, stepForm, far, ne, written, rfl⟩
      refine ⟨stepForm, ?_, rfl⟩
      rw [show offset.toNat - previous.toNat = step by omega, written]
  · rw [if_neg behind]
    rw [UInt32.lt_iff_toNat_lt] at behind
    constructor
    · intro h
      cases h
    · rintro ⟨step, stepForm, far, ne, -, -⟩
      omega

/-- What is written for a place is a form of it. -/
theorem placeForm_of_encodePlace {context : Context} {point : SequencePoint} {form : List UInt8}
    (h : encodePlace context point = .ok form) :
    PlaceForm context point.document point.codeOffset.toNat form := by
  rw [encodePlace] at h
  cases start : context.offset with
  | none =>
      simp only [start] at h
      by_cases same : point.document = context.document
      · rw [if_pos same] at h
        exact .first start same h
      · rw [if_neg same] at h
        cases h
  | some previous =>
      simp only [start] at h
      by_cases same : point.document = context.document
      · rw [if_pos same, Outcome.bind_eq_ok_iff] at h
        obtain ⟨change, changed, h⟩ := h
        obtain rfl := Outcome.pure_eq_ok_iff.1 changed
        obtain ⟨step, stepForm, far, ne, written, rfl⟩ := step_eq_ok_iff.1 h
        exact .later start same far ne written
      · rw [if_neg same] at h
        by_cases zero : point.document = 0
        · rw [if_pos zero] at h
          cases h
        · rw [if_neg zero, Outcome.bind_eq_ok_iff] at h
          obtain ⟨change, changed, h⟩ := h
          obtain ⟨record, announced, rfl⟩ := Outcome.map_eq_ok_iff.1 changed
          obtain ⟨step, stepForm, far, ne, written, rfl⟩ := step_eq_ok_iff.1 h
          exact .elsewhere start same zero announced far ne written

/-- A form of a place is what is written for it. -/
theorem PlaceForm.encodePlace_eq {context : Context} {point : SequencePoint} {form : List UInt8}
    (h : PlaceForm context point.document point.codeOffset.toNat form) :
    encodePlace context point = .ok form := by
  rw [encodePlace]
  cases h with
  | first start same written =>
      simp only [start]
      rw [if_pos same, written]
  | @later previous step stepForm start same far ne written =>
      simp only [start]
      rw [if_pos same]
      exact Outcome.bind_eq_ok_iff.2 ⟨[], rfl,
        step_eq_ok_iff.2 ⟨step, form, far, ne, written, rfl⟩⟩
  | @elsewhere previous step record stepForm start other named announced far ne written =>
      simp only [start]
      rw [if_neg other, if_neg named]
      exact Outcome.bind_eq_ok_iff.2 ⟨0 :: record, Outcome.map_eq_ok_iff.2 ⟨record, announced, rfl⟩,
        step_eq_ok_iff.2 ⟨step, stepForm, far, ne, written, rfl⟩⟩

end SymbolHistory.LineTable
