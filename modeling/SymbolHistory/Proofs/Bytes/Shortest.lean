import SymbolHistory.Bytes.Cursor
import SymbolHistory.Proofs.Bytes.WordForms

/-!
# Written forms are the shortest ones

A number of any width is read by a cursor, so it can stand in the bytes in more than one way. What
is written of it is the shortest of these ways, and the only one that is accepted where the
narrowest width is asked for. It is read back between any other bytes, and none of them is touched.

## Main definitions

* `Storage` : how the numbers of a kind are stored in the widths, with `Storage.unsigned` and
  `Storage.signed`.
* `ShortestForms` : a way of writing produces the shortest of the forms that are read.

## Main results

* `Storage.shortestForms` : this holds of every kind of numbers that the widths can store.
* `written_forms_are_shortest` : this holds of both kinds of compressed numbers.
-/

namespace SymbolHistory.Bytes

/-! ### Numbers in widths -/

/-- How the numbers of a kind are stored in the widths. -/
structure Storage (α : Type) where
  /-- Whether a width has room for a number. -/
  Holds : Width → α → Prop
  /-- What is stored of a number in a width. -/
  store : Width → α → Nat
  /-- The number that is stored in a width. -/
  load : Width → Nat → α
  /-- The narrowest width that has room for a number. -/
  narrowest? : α → Option Width
  /-- What is stored fits. -/
  store_lt : ∀ {w a}, Holds w a → store w a < w.bound
  /-- What was stored is loaded. -/
  load_store : ∀ {w a}, Holds w a → load w (store w a) = a
  /-- What is loaded from a width has room in it. -/
  holds_load : ∀ {w : Width} {stored}, stored < w.bound → Holds w (load w stored)
  /-- What was loaded is stored. -/
  store_load : ∀ {w : Width} {stored}, stored < w.bound → store w (load w stored) = stored
  /-- The narrowest width has room. -/
  holds_of_narrowest? : ∀ {w a}, narrowest? a = some w → Holds w a
  /-- A number that has room somewhere has a narrowest width, and no width with room is shorter. -/
  exists_narrowest? : ∀ {w a}, Holds w a → ∃ v, narrowest? a = some v ∧ v.length ≤ w.length

/-- Numbers stand for themselves. -/
def Storage.unsigned : Storage Nat where
  Holds w n := n < w.bound
  store _ n := n
  load _ stored := stored
  narrowest? := Width.ofUnsigned?
  store_lt h := h
  load_store _ := rfl
  holds_load h := h
  store_load _ := rfl
  holds_of_narrowest? := Width.lt_bound_of_ofUnsigned?
  exists_narrowest? := Width.exists_ofUnsigned?_of_lt

/-- Signed numbers are stored with their sign below their other bits. -/
def Storage.signed : Storage Int where
  Holds := Width.Holds
  store := Width.rotate
  load := Width.unrotate
  narrowest? := Width.ofSigned?
  store_lt _ := Width.rotate_lt _ _
  load_store := Width.unrotate_rotate
  holds_load := Width.holds_unrotate
  store_load := Width.rotate_unrotate
  holds_of_narrowest? := Width.holds_of_ofSigned?
  exists_narrowest? := Width.exists_ofSigned?_of_holds

/-! ### Shortest forms -/

/-- A way of writing produces the shortest of the forms that are read. -/
structure ShortestForms {α : Type} (encode : α → Except Error (List UInt8))
    (read : Cursor → Except Error α × Cursor) (minimal : Reader α) : Prop where
  /-- A form is read back between any other bytes, and the cursor moves over the form alone. -/
  read_form : ∀ {a form}, encode a = .ok form → ∀ before rest,
    read ⟨before ++ (form ++ rest), before.length⟩ =
      (.ok a, ⟨before ++ (form ++ rest), before.length + form.length⟩)
  /-- The reader of narrowest forms takes a form off the front, and nothing else. -/
  minimal_eq_ok_iff : ∀ {a bytes rest}, minimal bytes = .ok (a, rest) ↔
    ∃ form, encode a = .ok form ∧ bytes = form ++ rest
  /-- Bytes that are read as a number are no shorter than its form, and only the form itself is as
  short. -/
  shortest : ∀ {a c d}, read c = (.ok a, d) → ∃ form consumed, encode a = .ok form ∧
    c.rest = consumed ++ d.rest ∧ d = { c with position := c.position + consumed.length } ∧
    form.length ≤ consumed.length ∧ (form.length = consumed.length → form = consumed)

theorem length_injective {v w : Width} (h : v.length = w.length) : v = w := by
  cases v <;> cases w <;> first | rfl | cases h

/-- **Writing in the narrowest width produces the shortest forms.** -/
theorem Storage.shortestForms {α : Type} (storage : Storage α)
    {encode : α → Except Error (List UInt8)} {read : Cursor → Except Error α × Cursor}
    {minimal : Reader α}
    (encode_eq : ∀ {a form}, encode a = .ok form ↔
      ∃ w, storage.narrowest? a = some w ∧ form = w.put (storage.store w a))
    (read_eq : ∀ {c a d}, read c = (.ok a, d) ↔
      ∃ stored w, scan c.rest = .ok (stored, w) ∧ a = storage.load w stored ∧
        d = { c with position := c.position + w.length })
    (minimal_eq : ∀ {a bytes rest}, minimal bytes = .ok (a, rest) ↔
      ∃ form, encode a = .ok form ∧ bytes = form ++ rest) :
    ShortestForms encode read minimal where
  read_form {a form} written before rest := by
    obtain ⟨w, narrow, rfl⟩ := encode_eq.1 written
    have held := storage.holds_of_narrowest? narrow
    refine read_eq.2 ⟨storage.store w a, w, ?_, (storage.load_store held).symm, ?_⟩
    · rw [Cursor.rest, List.drop_left]
      exact scan_put (storage.store_lt held) rest
    · rw [length_put]
  minimal_eq_ok_iff := minimal_eq
  shortest {a c d} h := by
    obtain ⟨stored, w, scanned, rfl, rfl⟩ := read_eq.1 h
    obtain ⟨lt, eq⟩ := scan_eq_ok scanned
    obtain ⟨v, narrow, le⟩ := storage.exists_narrowest? (storage.holds_load lt)
    refine ⟨_, w.put stored, encode_eq.2 ⟨v, narrow, rfl⟩, ?_, ?_, ?_, fun same => ?_⟩
    · rw [eq]
      simp only [Cursor.rest, List.drop_drop]
    · rw [length_put]
    · rw [length_put, length_put]
      exact le
    · rw [length_put, length_put] at same
      obtain rfl := length_injective same
      rw [storage.store_load lt]

/-! ### Both kinds of numbers -/

/-- What cursors read of compressed numbers. -/
theorem Cursor.readUnsigned_eq_ok_iff {c d : Cursor} {n : Nat} :
    c.readUnsigned = (.ok n, d) ↔
      ∃ stored w, scan c.rest = .ok (stored, w) ∧ n = stored ∧
        d = { c with position := c.position + w.length } := by
  rw [readUnsigned]
  rcases scan c.rest with ⟨e, looked⟩ | ⟨stored, w⟩ <;> simp [eq_comm]

theorem Cursor.readSigned_eq_ok_iff {c d : Cursor} {n : Int} :
    c.readSigned = (.ok n, d) ↔
      ∃ stored w, scan c.rest = .ok (stored, w) ∧ n = w.unrotate stored ∧
        d = { c with position := c.position + w.length } := by
  rw [readSigned]
  rcases scan c.rest with ⟨e, looked⟩ | ⟨stored, w⟩ <;> simp [eq_comm]

theorem shortestForms_unsigned :
    ShortestForms encodeUnsigned Cursor.readUnsigned minimalUnsigned :=
  Storage.unsigned.shortestForms encodeUnsigned_eq_ok_iff_put Cursor.readUnsigned_eq_ok_iff
    minimalUnsigned_eq_ok_iff

theorem shortestForms_signed : ShortestForms encodeSigned Cursor.readSigned minimalSigned :=
  Storage.signed.shortestForms encodeSigned_eq_ok_iff_put Cursor.readSigned_eq_ok_iff
    minimalSigned_eq_ok_iff

/-- **Words below 2^29, and signed words from -2^28 up to 2^28, have forms, and these are the
shortest ones that are read.** They are what one gets with masks. -/
theorem written_forms_are_shortest :
    (∀ word : UInt32, wordForm word = encodeUnsigned word.toNat ∧
      ((∃ form, wordForm word = .ok form) ↔ word ≤ 0x1FFFFFFF)) ∧
    (∀ word : Int32, signedWordForm word = encodeSigned word.toInt ∧
      ((∃ form, signedWordForm word = .ok form) ↔
        -(2 ^ 28) ≤ word.toInt ∧ word.toInt < 2 ^ 28)) ∧
    ShortestForms encodeUnsigned Cursor.readUnsigned minimalUnsigned ∧
    ShortestForms encodeSigned Cursor.readSigned minimalSigned := by
  refine ⟨fun word => ⟨wordForm_eq word, ?_⟩, fun word => ⟨signedWordForm_eq word, ?_⟩,
    shortestForms_unsigned, shortestForms_signed⟩
  · rw [wordForm_eq, encodeUnsigned_eq_ok_iff, UInt32.le_iff_toNat_le]
    exact Nat.lt_succ_iff
  · rw [signedWordForm_eq, encodeSigned_eq_ok_iff]
    rfl

/-- A number that is written too wide is read all the same; its form is shorter. -/
example : (Cursor.start [0x80, 0x03]).readUnsigned = (.ok 3, ⟨[0x80, 0x03], 2⟩) ∧
    encodeUnsigned 3 = .ok [0x03] :=
  ⟨rfl, rfl⟩

end SymbolHistory.Bytes
