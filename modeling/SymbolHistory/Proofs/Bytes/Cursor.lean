import SymbolHistory.Bytes.Operation
import SymbolHistory.Proofs.Bytes.Compressed

/-!
# Cursors stay inside their data

A cursor is never behind the end of its data, whatever it is asked and whatever of that fails. Moves
and reads of fixed size happen as a whole or not at all. Reads of compressed numbers look at the
next four bytes at most, and nothing else decides what comes of them. So the bytes in front of a
cursor make no difference to what it answers from there on.

## Main definitions

* `ByteOrder.Spells`, `ByteOrder.SpellsSigned` : bytes are the form of a word.
* `Cursor.Inside` : a cursor is not behind the end.
* `Cursor.ReadsWhole` : a read takes a number of bytes, or nothing.
* `Cursor.LooksAtFour` : the next four bytes decide what comes of a read.
* `Cursor.behind` : a cursor with more bytes in front of its data.

## Main results

* `Cursor.readsWhole_readWord`, `Cursor.readsWhole_readSignedWord` : words are read as a whole.
* `Cursor.looksAtFour_readUnsigned`, `Cursor.looksAtFour_readSigned` : compressed numbers.
* `Cursor.Inside.of_mem_trace` : no operations lead out of the data.
* `Cursor.trace_behind` : bytes in front shift positions, and change no answer.
-/

namespace SymbolHistory.Bytes

/-! ### Forms of words -/

namespace ByteOrder

/-- The bytes of a word in an order. -/
def encode : ByteOrder → (width n : Nat) → List UInt8
  | .little, width, n => toLittle width n
  | .big, width, n => (toLittle width n).reverse

/-- Bytes are the form of a word. -/
def Spells (order : ByteOrder) (width n : Nat) (bytes : List UInt8) : Prop :=
  n < capacity width ∧ bytes = order.encode width n

/-- Bytes are the form of a signed word: of its remainder by the number of words. -/
def SpellsSigned (order : ByteOrder) (width : Nat) (n : Int) (bytes : List UInt8) : Prop :=
  -(capacity width : Int) ≤ n * 2 ∧ n * 2 < capacity width ∧
    bytes = order.encode width (n % capacity width).toNat

variable {order : ByteOrder} {width : Nat} {bytes : List UInt8}

/-- Bytes stand for the word that they are the form of, and for no other. -/
theorem decode_eq_iff {n : Nat} (length : bytes.length = width) :
    order.decode bytes = n ↔ order.Spells width n bytes := by
  subst length
  cases order with
  | little =>
      change ofLittle bytes = n ↔ n < capacity bytes.length ∧ bytes = toLittle bytes.length n
      constructor
      · rintro rfl
        exact ⟨ofLittle_lt bytes, (toLittle_ofLittle bytes).symm⟩
      · rintro ⟨lt, eq⟩
        rw [eq, ofLittle_toLittle_of_lt lt]
  | big =>
      change ofLittle bytes.reverse = n ↔
        n < capacity bytes.length ∧ bytes = (toLittle bytes.length n).reverse
      rw [← List.length_reverse]
      constructor
      · rintro rfl
        exact ⟨ofLittle_lt _, by rw [toLittle_ofLittle, List.reverse_reverse]⟩
      · rintro ⟨lt, eq⟩
        rw [List.reverse_eq_iff.2 eq, ofLittle_toLittle_of_lt lt]

/-- The same for signed words. -/
theorem bmod_decode_eq_iff {n : Int} (length : bytes.length = width) :
    Int.bmod (order.decode bytes) (capacity width) = n ↔ order.SpellsSigned width n bytes := by
  obtain ⟨lt, eq⟩ := (decode_eq_iff length).1 (rfl : order.decode bytes = order.decode bytes)
  have remainder : ((order.decode bytes : Nat) : Int) % capacity width = order.decode bytes :=
    Int.emod_eq_of_lt (by omega) (by omega)
  constructor
  · rintro rfl
    have lower := Int.le_bmod (x := order.decode bytes) (m := capacity width) (by omega)
    have upper := Int.bmod_lt (x := order.decode bytes) (m := capacity width) (by omega)
    refine ⟨by omega, by omega, ?_⟩
    rw [Int.bmod_emod, remainder, Int.toNat_natCast]
    exact eq
  · rintro ⟨lower, upper, eq'⟩
    have nonneg := Int.emod_nonneg n (b := capacity width) (by omega)
    have small := Int.emod_lt_of_pos n (b := capacity width) (by omega)
    have same : order.decode bytes = (n % capacity width).toNat :=
      (decode_eq_iff length).2 ⟨by omega, eq'⟩
    rw [same, Int.toNat_of_nonneg nonneg, Int.emod_bmod]
    exact Int.bmod_eq_of_le_mul_two lower upper

end ByteOrder

namespace Cursor

variable {c d : Cursor}

/-- A cursor is not behind the end of its data. -/
def Inside (c : Cursor) : Prop :=
  c.position ≤ c.data.length

instance (c : Cursor) : Decidable c.Inside :=
  inferInstanceAs (Decidable (_ ≤ _))

/-! ### Moves and reads of fixed size -/

/-- Moves over `size` bytes and makes a value of them. -/
def readAs {α : Type} (size : Nat) (value : List UInt8 → α) (c : Cursor) :
    Except Error α × Cursor :=
  if c.position + size ≤ c.data.length then
    (.ok (value (c.rest.take size)), { c with position := c.position + size })
  else
    (.error .outOfBounds, c)

/-- What is made of a value that is read may be made of its bytes at once. -/
theorem map_readAs {α β : Type} (size : Nat) (value : List UInt8 → α) (f : α → β) :
    (c.readAs size value).map (·.map f) id = c.readAs size fun bytes => f (value bytes) := by
  rw [readAs, readAs]
  split <;> rfl

/-- Advancing reads bytes for nothing. -/
theorem advance_eq (step : Nat) : c.advance step = c.readAs step fun _ => () := rfl

/-- Reading bytes reads them as they are. -/
theorem read_eq (length : Nat) : c.read length = c.readAs length id := by
  by_cases room : c.position + length ≤ c.data.length <;> simp [read, advance, readAs, room]

/-- A word is read as a number in its byte order. -/
theorem readWord_eq (order : ByteOrder) (width : Nat) :
    c.readWord order width = c.readAs width order.decode := by
  by_cases room : c.position + width ≤ c.data.length <;> simp [readWord, read_eq, readAs, room]

/-- A signed word is read as the same number, taken around zero. -/
theorem readSignedWord_eq (order : ByteOrder) (width : Nat) :
    c.readSignedWord order width =
      c.readAs width fun bytes => Int.bmod (order.decode bytes) (capacity width) := by
  by_cases room : c.position + width ≤ c.data.length <;>
    simp [readSignedWord, readWord_eq, readAs, room]

/-- A read takes `size` bytes, those from the old position to the new one, and they are the form of
its value. If there are not so many, it is out of bounds and takes nothing. -/
structure ReadsWhole {α : Type} (size : Nat) (Form : α → List UInt8 → Prop)
    (read : Cursor → Except Error α × Cursor) : Prop where
  /-- When a read succeeds, and with what. -/
  eq_ok_iff : ∀ {c d a}, read c = (.ok a, d) ↔
    d = { c with position := c.position + size } ∧ d.Inside ∧
      Form a (c.data.extract c.position d.position)
  /-- When a read fails. -/
  eq_error_iff : ∀ {c d e}, read c = (.error e, d) ↔
    e = .outOfBounds ∧ d = c ∧ c.data.length < c.position + size

/-- **Whatever makes its value of the bytes that it moves over reads as a whole.** -/
theorem readsWhole_readAs {α : Type} {size : Nat} {Form : α → List UInt8 → Prop}
    {value : List UInt8 → α}
    (form : ∀ {a bytes}, bytes.length = size → (value bytes = a ↔ Form a bytes)) :
    ReadsWhole size Form (readAs size value) := by
  constructor
  · intro c d a
    rw [readAs]
    split
    · next room =>
      have length : (c.rest.take size).length = size := by
        rw [rest, List.length_take, List.length_drop]
        omega
      rw [Prod.mk.injEq, Except.ok.injEq, form length]
      constructor
      · rintro ⟨formed, rfl⟩
        refine ⟨rfl, room, ?_⟩
        rwa [List.extract_eq_take_drop, Nat.add_sub_cancel_left]
      · rintro ⟨rfl, -, formed⟩
        rw [List.extract_eq_take_drop, Nat.add_sub_cancel_left] at formed
        exact ⟨formed, rfl⟩
    · next short =>
      constructor
      · intro h
        cases h
      · rintro ⟨rfl, inside, -⟩
        exact absurd inside short
  · intro c d e
    rw [readAs]
    split
    · next room =>
      constructor
      · intro h
        cases h
      · rintro ⟨-, -, short⟩
        omega
    · next short => simp [eq_comm, Nat.not_le.1 short]

/-- Advancing succeeds exactly if all of the bytes are there. -/
theorem readsWhole_advance (step : Nat) :
    ReadsWhole step (fun _ _ => True) (·.advance step) := by
  change ReadsWhole step _ (readAs step fun _ => ())
  exact readsWhole_readAs fun _ => by simp

/-- So does reading them. -/
theorem readsWhole_read (length : Nat) : ReadsWhole length Eq (·.read length) := by
  simp only [read_eq]
  exact readsWhole_readAs fun _ => eq_comm

/-- Words are read as a whole. -/
theorem readsWhole_readWord (order : ByteOrder) (width : Nat) :
    ReadsWhole width (order.Spells width) (·.readWord order width) := by
  simp only [readWord_eq]
  exact readsWhole_readAs order.decode_eq_iff

/-- Signed words are read as a whole. -/
theorem readsWhole_readSignedWord (order : ByteOrder) (width : Nat) :
    ReadsWhole width (order.SpellsSigned width) (·.readSignedWord order width) := by
  simp only [readSignedWord_eq]
  exact readsWhole_readAs order.bmod_decode_eq_iff

/-- A cursor goes to every place in front of a byte. -/
theorem seek_eq_ok_iff {position : Nat} :
    c.seek position = (.ok (), d) ↔ position < c.data.length ∧ d = { c with position } := by
  rw [seek]
  split <;> simp [*, eq_comm]

/-- Seeking fails exactly at the end of the data and behind it. -/
theorem seek_eq_error_iff {position : Nat} {e : Error} :
    c.seek position = (.error e, d) ↔
      e = .outOfBounds ∧ d = c ∧ c.data.length ≤ position := by
  rw [seek]
  split
  · simp; omega
  · next far => simp [eq_comm, Nat.not_lt.1 far]

/-- The byte behind the cursor is the next one. -/
theorem peek_eq_ok_iff {b : UInt8} :
    c.peek = .ok b ↔ c.data.extract c.position (c.position + 1) = [b] := by
  rw [peek, List.extract_eq_take_drop, Nat.add_sub_cancel_left, ← rest]
  cases c.rest <;> simp

/-- So does looking at the next byte. -/
theorem peek_eq_error_iff {e : Error} :
    c.peek = .error e ↔ e = .outOfBounds ∧ c.data.length ≤ c.position := by
  rw [peek, ← List.drop_eq_nil_iff, ← rest]
  cases c.rest <;> simp [eq_comm]

/-! ### Compressed numbers -/

/-- What a read looks at before it fails: all bytes that are there, if some are missing, and the
first one alone, if it starts no number. -/
theorem scan_eq_error {bytes : List UInt8} {e : Error} {looked : Nat}
    (h : scan bytes = .error (e, looked)) :
    (e = .outOfBounds ∧ looked = bytes.length) ∨
      ∃ lead rest, bytes = lead :: rest ∧ e = .malformed (.compressedLead lead) ∧ looked = 1 := by
  unfold scan at h
  split at h
  · cases h
    exact .inl ⟨rfl, rfl⟩
  · next lead rest =>
    split at h
    · cases h
    · split at h
      · split at h <;> cases h
        exact .inl ⟨rfl, rfl⟩
      · split at h
        · split at h <;> cases h <;> exact .inl ⟨rfl, rfl⟩
        · cases h
          exact .inr ⟨lead, rest, rfl, rfl, rfl⟩

/-- How many bytes are looked at for a compressed number. -/
def lookedAt (bytes : List UInt8) : Nat :=
  match scan bytes with
  | .ok (_, w) => w.length
  | .error (_, looked) => looked

/-- What is looked at is there. -/
theorem lookedAt_le (bytes : List UInt8) : lookedAt bytes ≤ bytes.length := by
  unfold lookedAt
  split
  · next scanned => exact length_le_of_scan scanned
  · next scanned =>
    obtain ⟨-, rfl⟩ | ⟨lead, rest, rfl, -, rfl⟩ := scan_eq_error scanned
    · exact Nat.le_refl _
    · exact Nat.le_add_left 1 _

/-- Moves over the bytes that are looked at for a compressed number, and makes a value of it. -/
def scanAs {α : Type} (value : Nat × Width → α) (c : Cursor) : Except Error α × Cursor :=
  (((scan c.rest).mapError Prod.fst).map value,
    { c with position := c.position + lookedAt c.rest })

/-- What is made of a number that is read may be made of what is scanned. -/
theorem map_scanAs {α β : Type} (value : Nat × Width → α) (f : α → β) :
    (c.scanAs value).map (·.map f) id = c.scanAs fun found => f (value found) := by
  rw [scanAs, scanAs]
  cases scan c.rest <;> rfl

/-- An unsigned number is what is scanned. -/
theorem readUnsigned_eq : c.readUnsigned = c.scanAs Prod.fst := by
  rw [readUnsigned, scanAs, lookedAt]
  rcases scan c.rest with ⟨e, looked⟩ | ⟨n, w⟩ <;> rfl

/-- A signed number is what is scanned, rotated back. -/
theorem readSigned_eq : c.readSigned = c.scanAs fun found => found.2.unrotate found.1 := by
  rw [readSigned, scanAs, lookedAt]
  rcases scan c.rest with ⟨e, looked⟩ | ⟨n, w⟩ <;> rfl

/-- The next four bytes, or those that are left, decide what comes of a read: its answer, and how
many of them it moves over, whether it succeeds or fails. -/
def LooksAtFour {α : Type} (read : Cursor → Except Error α × Cursor) : Prop :=
  ∃ (answer : List UInt8 → Except Error α) (step : List UInt8 → Nat),
    (∀ next, step next ≤ next.length) ∧
      ∀ c : Cursor, read c = (answer (c.rest.take 4),
        { c with position := c.position + step (c.rest.take 4) })

/-- **Four bytes are enough to tell what comes of reading a compressed number.** -/
theorem looksAtFour_scanAs {α : Type} (value : Nat × Width → α) : LooksAtFour (scanAs value) := by
  refine ⟨fun next => ((scan next).mapError Prod.fst).map value, lookedAt, lookedAt_le,
    fun c => ?_⟩
  simp only [scanAs, lookedAt, scan_take_four]

/-- An unsigned number is told from four bytes at most. -/
theorem looksAtFour_readUnsigned : LooksAtFour readUnsigned := by
  rw [show readUnsigned = scanAs Prod.fst from funext fun _ => readUnsigned_eq]
  exact looksAtFour_scanAs _

/-- So is a signed one. -/
theorem looksAtFour_readSigned : LooksAtFour readSigned := by
  rw [show readSigned = scanAs _ from funext fun _ => readSigned_eq]
  exact looksAtFour_scanAs _

/-! ### What operations do -/

/-- An operation takes one byte after the other. If it fails, the cursor stays behind those that it
has taken. -/
def Operation.GoesByteByByte (operation : Operation) : Prop :=
  operation ∈ [.readUnsigned, .readSigned]

instance : DecidablePred Operation.GoesByteByByte := fun operation =>
  inferInstanceAs (Decidable (operation ∈ _))

/-- **What an operation does.** It asks and stays, it goes to a place, it takes a number of bytes as
a whole, or it looks for a compressed number. -/
theorem perform_cases (operation : Operation) :
    (∃ answer : Cursor → Except Error Value, ∀ c, perform c operation = (answer c, c)) ∨
      (∃ position, operation = .seek position) ∨
      (∃ size value, ∀ c, perform c operation = readAs size value c) ∨
      operation.GoesByteByByte ∧ ∃ value, ∀ c, perform c operation = scanAs value c := by
  cases operation with
  | length | isEmpty | data | position | hasMore | peek => exact .inl ⟨_, fun _ => rfl⟩
  | seek position => exact .inr (.inl ⟨position, rfl⟩)
  | advance step =>
      exact .inr (.inr (.inl ⟨step, _, fun c => by rw [perform, advance_eq, map_readAs]⟩))
  | read length =>
      exact .inr (.inr (.inl ⟨length, _, fun c => by rw [perform, read_eq, map_readAs]⟩))
  | readWord order width =>
      exact .inr (.inr (.inl ⟨width, _, fun c => by rw [perform, readWord_eq, map_readAs]⟩))
  | readSignedWord order width =>
      exact .inr (.inr (.inl ⟨width, _, fun c => by rw [perform, readSignedWord_eq, map_readAs]⟩))
  | readUnsigned =>
      exact .inr (.inr (.inr ⟨by decide, _, fun c => by rw [perform, readUnsigned_eq, map_scanAs]⟩))
  | readSigned =>
      exact .inr (.inr (.inr ⟨by decide, _, fun c => by rw [perform, readSigned_eq, map_scanAs]⟩))

/-- No operation changes the data. -/
theorem data_perform (c : Cursor) (operation : Operation) :
    (c.perform operation).2.data = c.data := by
  obtain ⟨answer, eq⟩ | ⟨position, rfl⟩ | ⟨size, value, eq⟩ | ⟨-, value, eq⟩ :=
    perform_cases operation
  · rw [eq]
  · rw [perform, seek]
    split <;> rfl
  · rw [eq, readAs]
    split <;> rfl
  · rw [eq, scanAs]

/-- **No operation leads out of the data**, whether it succeeds or fails. -/
theorem Inside.perform (h : c.Inside) (operation : Operation) : (c.perform operation).2.Inside := by
  obtain ⟨answer, eq⟩ | ⟨position, rfl⟩ | ⟨size, value, eq⟩ | ⟨-, value, eq⟩ :=
    perform_cases operation
  · rwa [eq]
  · rw [Cursor.perform, seek]
    split
    · next before => exact Nat.le_of_lt before
    · exact h
  · rw [eq, readAs]
    split
    · next room => exact room
    · exact h
  · -- What is looked at is behind the cursor, so it ends inside.
    have behind := lookedAt_le c.rest
    rw [rest, List.length_drop] at behind
    rw [Inside] at h
    rw [eq, scanAs, Inside]
    change c.position + lookedAt c.rest ≤ c.data.length
    rw [rest]
    omega

/-- An operation that fails leaves the cursor where it is, unless it goes byte by byte. -/
theorem perform_of_error {operation : Operation} {e : Error} (whole : ¬ operation.GoesByteByByte)
    (h : (c.perform operation).1 = .error e) : (c.perform operation).2 = c := by
  obtain ⟨answer, eq⟩ | ⟨position, rfl⟩ | ⟨size, value, eq⟩ | ⟨bytewise, -⟩ :=
    perform_cases operation
  · rw [eq]
  · rw [perform, seek] at h ⊢
    split at h
    · cases h
    · next far => rw [if_neg far]; rfl
  · rw [eq, readAs] at h ⊢
    split at h
    · cases h
    · next short => rw [if_neg short]
  · exact absurd bytewise whole

/-! ### One operation after the other -/

/-- So it is the same data all the way. -/
theorem data_of_mem_trace {operations : List Operation} {r : Except Error Value × Cursor}
    (mem : r ∈ c.trace operations) : r.2.data = c.data := by
  induction operations generalizing c with
  | nil => cases mem
  | cons operation operations ih =>
      obtain rfl | later := List.mem_cons.1 mem
      · exact c.data_perform operation
      · exact (ih later).trans (c.data_perform operation)

/-- **No operations lead out of the data**, and none of them does on the way. -/
theorem Inside.of_mem_trace (h : c.Inside) {operations : List Operation}
    {r : Except Error Value × Cursor} (mem : r ∈ c.trace operations) : r.2.Inside := by
  induction operations generalizing c with
  | nil => cases mem
  | cons operation operations ih =>
      obtain rfl | later := List.mem_cons.1 mem
      · exact h.perform operation
      · exact ih (h.perform operation) later

/-- A cursor starts inside its data. -/
theorem inside_start (data : List UInt8) : (start data).Inside :=
  Nat.zero_le _

/-! ### Bytes in front -/

/-- A cursor with more bytes in front of its data. -/
def behind (before : List UInt8) (c : Cursor) : Cursor :=
  ⟨before ++ c.data, before.length + c.position⟩

/-- The same operation for a cursor with more bytes in front: positions are counted from there. -/
def Operation.behind (offset : Nat) : Operation → Operation
  | .seek place => .seek (offset + place)
  | operation => operation

/-- An operation does not ask about what is in front of the cursor. -/
def Operation.LooksAhead (operation : Operation) : Prop :=
  operation ∉ [.length, .isEmpty, .data, .position]

instance : DecidablePred Operation.LooksAhead := fun operation =>
  inferInstanceAs (Decidable (operation ∉ _))

variable (before : List UInt8)

/-- What is put in front of the data does not change the rest. -/
theorem rest_behind : (c.behind before).rest = c.rest :=
  List.drop_length_add_append c.position

/-- So what is read is the same. -/
theorem readAs_behind {α : Type} (size : Nat) (value : List UInt8 → α) :
    (c.behind before).readAs size value = (c.readAs size value).map id (behind before) := by
  rw [readAs, readAs, rest_behind]
  simp only [behind, List.length_append, Nat.add_assoc, Nat.add_le_add_iff_left]
  split <;> rfl

/-- So are compressed numbers. -/
theorem scanAs_behind {α : Type} (value : Nat × Width → α) :
    (c.behind before).scanAs value = (c.scanAs value).map id (behind before) := by
  rw [scanAs, scanAs, rest_behind, behind, Nat.add_assoc]
  rfl

/-- Places move by as much as is put in front. -/
theorem seek_behind (position : Nat) :
    (c.behind before).seek (before.length + position) =
      (c.seek position).map id (behind before) := by
  rw [seek, seek]
  simp only [behind, List.length_append, Nat.add_lt_add_iff_left]
  split <;> rfl

/-- **Bytes in front change no answer**, and the cursor moves alike. -/
theorem perform_behind {operation : Operation} (ahead : operation.LooksAhead) :
    (c.behind before).perform (operation.behind before.length) =
      (c.perform operation).map id (behind before) := by
  cases operation with
  | length | isEmpty | data | position => simp [Operation.LooksAhead] at ahead
  | hasMore =>
      simp only [Operation.behind, perform, hasMore, behind, List.length_append,
        Nat.add_lt_add_iff_left]
      rfl
  | peek =>
      simp only [Operation.behind, perform, peek, rest_behind]
      rfl
  | seek position => simp only [Operation.behind, perform, seek_behind]; rfl
  | advance step => simp only [Operation.behind, perform, advance_eq, readAs_behind]; rfl
  | read length => simp only [Operation.behind, perform, read_eq, readAs_behind]; rfl
  | readWord order width =>
      simp only [Operation.behind, perform, readWord_eq, readAs_behind]
      rfl
  | readSignedWord order width =>
      simp only [Operation.behind, perform, readSignedWord_eq, readAs_behind]
      rfl
  | readUnsigned => simp only [Operation.behind, perform, readUnsigned_eq, scanAs_behind]; rfl
  | readSigned => simp only [Operation.behind, perform, readSigned_eq, scanAs_behind]; rfl

/-- **Bytes in front shift positions, and change no answer.** -/
theorem trace_behind {operations : List Operation}
    (ahead : ∀ operation ∈ operations, operation.LooksAhead) :
    (c.behind before).trace (operations.map (·.behind before.length)) =
      (c.trace operations).map (·.map id (behind before)) := by
  induction operations generalizing c with
  | nil => rfl
  | cons operation operations ih =>
      have first := perform_behind (c := c) before (ahead _ List.mem_cons_self)
      rw [List.map_cons, trace, trace, first, List.map_cons]
      congr 1
      exact ih fun other mem => ahead other (List.mem_cons_of_mem _ mem)

/-- **Reading on from a place is reading what stands behind it.** -/
theorem trace_drop {data : List UInt8} {offset : Nat} (inside : offset ≤ data.length)
    {operations : List Operation} (ahead : ∀ operation ∈ operations, operation.LooksAhead) :
    trace ⟨data, offset⟩ (operations.map (·.behind offset)) =
      ((start (data.drop offset)).trace operations).map
        fun r => (r.1, ⟨data, offset + r.2.position⟩) := by
  have length : (data.take offset).length = offset := List.length_take_of_le inside
  have same : (start (data.drop offset)).behind (data.take offset) = ⟨data, offset⟩ := by
    rw [behind, start, List.take_append_drop, length, Nat.add_zero]
  have traced := trace_behind (c := start (data.drop offset)) (data.take offset) ahead
  rw [length, same] at traced
  refine traced.trans (List.map_congr_left fun r mem => ?_)
  have kept : r.2.data = data.drop offset := data_of_mem_trace mem
  rw [Prod.map, behind, kept, List.take_append_drop, length]
  rfl

end Cursor

end SymbolHistory.Bytes
