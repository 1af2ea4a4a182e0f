import SymbolHistory.Proofs.Bytes.Cursor
import SymbolHistory.Proofs.Machine.Compressed

/-!
# Cursors on a machine

A machine has a position of 64 bits for a cursor. It adds to it with a check, and takes slices and
indices behind guards of its own. A failure does not undo what was done before it: the position
stays behind the bytes that were taken one by one for a number that turns out to be none.

## Main definitions

* `Walk` : a program that has a position, also after it fails.
* `Walk.Follows` : a walk does what a cursor does.
* `Walk.perform`, `Walk.trace` : the operations of a cursor as walks.

## Main results

* `Walk.follows_perform` : every operation of a machine does what a cursor does.
* `cursors_stay_inside` : what cursors do, and that machines do it without a trap.
-/

namespace SymbolHistory.Machine

open Bytes

/-- A program that reads bytes from a position on. It has a position also after it fails. -/
abbrev Walk := ExceptT Stop (StateM Nat)

namespace Walk

variable {α β : Type}

/-- A scan, which moves the position only if it succeeds. -/
def ofScan (scan : Scan α) : Walk α := fun position =>
  match scan position with
  | .ok (a, stop) => (.ok a, stop)
  | .error stop => (.error stop, position)

/-- Moves to a position. -/
def seek (data : List UInt8) (position : Nat) : Walk Unit := do
  if data.length ≤ position then
    fail .outOfBounds
  set position

/-- Moves over `step` bytes. -/
def advance (data : List UInt8) (step : Nat) : Walk Unit := do
  match checkedAdd UInt64.size (← get) step with
  | none => fail .outOfBounds
  | some stop => if stop ≤ data.length then set stop else fail .outOfBounds

/-- The next byte. -/
def peek (data : List UInt8) : Walk UInt8 := do
  let position ← get
  if data.length ≤ position then
    fail .outOfBounds
  index data position

/-- Reads `length` bytes. -/
def read (data : List UInt8) (length : Nat) : Walk (List UInt8) := do
  let start ← get
  advance data length
  let stop ← get
  slice data start stop

/-- Reads a word of `width` bytes. -/
def readWord (data : List UInt8) (order : ByteOrder) (width : Nat) : Walk Nat :=
  order.decode <$> ofScan (takeBytes data width)

/-- Reads a word of `width` bytes whose top bit is its sign. -/
def readSignedWord (data : List UInt8) (order : ByteOrder) (width : Nat) : Walk Int :=
  (fun n : Nat => Int.bmod n (capacity width)) <$> readWord data order width

/-- Reads a compressed number with the number of its bytes, as the scan of that name does. Every
byte that is taken moves the position, also if a later one is missing. -/
def readCompressed (data : List UInt8) : Walk (Nat × Nat) := do
  let lead ← readWord data .little 1
  if lead &&& 0x80 = 0 then
    return (lead, 1)
  else if lead &&& 0xC0 = 0x80 then
    let b ← readWord data .little 1
    let high ← shiftLeft 32 (lead &&& 0x3F) 8
    return (high ||| b, 2)
  else if lead &&& 0xE0 = 0xC0 then
    let b₁ ← readWord data .little 1
    let b₂ ← readWord data .little 1
    let b₃ ← readWord data .little 1
    let high ← shiftLeft 32 (lead &&& 0x1F) 24
    let upper ← shiftLeft 32 b₁ 16
    let lower ← shiftLeft 32 b₂ 8
    return (high ||| upper ||| lower ||| b₃, 4)
  else
    fail (.malformed (.compressedLead (UInt8.ofNat lead)))

/-- Reads a compressed number. -/
def readUnsigned (data : List UInt8) : Walk Nat :=
  Prod.fst <$> readCompressed data

/-- Reads a signed compressed number. -/
def readSigned (data : List UInt8) : Walk Int := do
  let (stored, width) ← readCompressed data
  let half ← shiftRight 32 stored 1
  return if stored &&& 1 ≠ 0 then Int.bmod (half ||| signBits width : Nat) UInt32.size else half

open Cursor in
/-- An operation of a cursor. -/
def perform (data : List UInt8) : Operation → Walk Value
  | .length => return .number data.length
  | .isEmpty => return .truth data.isEmpty
  | .data => return .bytes data
  | .position => .number <$> get
  | .hasMore => (fun position => .truth (position < data.length)) <$> get
  | .seek place => (fun _ => .moved) <$> seek data place
  | .advance step => (fun _ => .moved) <$> advance data step
  | .peek => .byte <$> peek data
  | .read length => .bytes <$> read data length
  | .readWord order width => .number <$> readWord data order width
  | .readSignedWord order width => .signed <$> readSignedWord data order width
  | .readUnsigned => .number <$> readUnsigned data
  | .readSigned => .signed <$> readSigned data

open Cursor in
/-- What comes of operations, each with the position after it. -/
def trace (data : List UInt8) : List Operation → Nat → List (Exec Value × Nat)
  | [], _ => []
  | operation :: operations, position =>
    let result := perform data operation position
    result :: trace data operations result.2

/-! ### Walks -/

/-- A walk with a value hands it on, with its position. -/
theorem bind_apply {walk : Walk α} {a : α} {position stop : Nat}
    (h : walk position = (.ok a, stop)) (next : α → Walk β) :
    (walk >>= next) position = next a stop := by
  change ((fun r : Except Stop α × Nat => ExceptT.bindCont next r.1 r.2) (walk position)) = _
  rw [h]
  rfl

/-- Nothing follows a walk that stops, and its position is kept. -/
theorem bind_apply_error {walk : Walk α} {reason : Stop} {position stop : Nat}
    (h : walk position = (.error reason, stop)) (next : α → Walk β) :
    (walk >>= next) position = (.error reason, stop) := by
  change ((fun r : Except Stop α × Nat => ExceptT.bindCont next r.1 r.2) (walk position)) = _
  rw [h]
  rfl

/-- The position is handed on. -/
theorem get_bind_apply (next : Nat → Walk β) (position : Nat) :
    (get >>= next) position = next position position := rfl

/-- An operation that goes through hands its result on. -/
theorem exec_bind {operation : Exec α} {a : α} (through : operation = pure a) (next : α → Walk β) :
    (liftM operation >>= next) = next a := by
  subst through
  rfl

/-- From every position in the data, a walk does what a cursor does: its answer is the same, and so
is the position after it. -/
def Follows (data : List UInt8) (walk : Walk α) (read : Cursor → Except Error α × Cursor) : Prop :=
  ∀ position ≤ data.length,
    walk position = (ofExcept (read ⟨data, position⟩).1, (read ⟨data, position⟩).2.position)

/-- What is made of a value is made of it in both. -/
theorem Follows.map {data : List UInt8} {walk : Walk α} {read : Cursor → Except Error α × Cursor}
    (h : Follows data walk read) (f : α → β) :
    Follows data (f <$> walk) fun c => (read c).map (·.map f) id := by
  intro position le
  have eq := h position le
  rcases result : (read ⟨data, position⟩).1 with e | a
  · rw [result] at eq
    simp only [Prod.map_fst, Prod.map_snd, result]
    exact bind_apply_error eq _
  · rw [result] at eq
    simp only [Prod.map_fst, Prod.map_snd, result]
    exact bind_apply eq _

/-! ### Moves and reads of fixed size -/

section Fixed

variable {data : List UInt8}

/-- Seeking is safe anywhere. -/
theorem follows_seek (place : Nat) : Follows data (seek data place) (·.seek place) := by
  intro position le
  by_cases far : data.length ≤ place
  · simp only [Cursor.seek, if_neg (Nat.not_lt.2 far)]
    rw [seek, if_pos far]
    rfl
  · simp only [Cursor.seek, if_pos (Nat.not_le.1 far)]
    rw [seek, if_neg far]
    rfl

/-- So is advancing, since the sum is checked. -/
theorem follows_advance (bounded : data.length < objectBound) (step : Nat) :
    Follows data (advance data step) (·.advance step) := by
  intro position le
  rw [advance, get_bind_apply]
  by_cases room : position + step ≤ data.length
  · have fits : position + step < UInt64.size := by
      simp only [objectBound, UInt64.size] at bounded ⊢
      omega
    simp only [Cursor.advance, if_pos room]
    rw [checkedAdd_of_lt fits]
    dsimp only
    rw [if_pos room]
    rfl
  · -- The sum may be too large for 64 bits, or only too large for the data.
    simp only [Cursor.advance, if_neg room]
    rw [checkedAdd]
    by_cases fits : position + step < UInt64.size
    · rw [if_pos fits]
      dsimp only
      rw [if_neg room]
      rfl
    · rw [if_neg fits]
      rfl

/-- So is looking at the next byte. -/
theorem follows_peek (data : List UInt8) :
    Follows data (peek data) fun c => (c.peek, c) := by
  intro position le
  dsimp only
  rw [peek, get_bind_apply, Cursor.peek, Cursor.rest]
  by_cases more : position < data.length
  · rw [if_neg (Nat.not_le.2 more), List.drop_eq_getElem_cons more,
      index_of_getElem? (List.getElem?_eq_getElem more)]
    rfl
  · rw [if_pos (Nat.not_lt.1 more), List.drop_eq_nil_of_le (Nat.not_lt.1 more)]
    rfl

/-- Bytes are read from inside the data only. -/
theorem follows_read (bounded : data.length < objectBound) (length : Nat) :
    Follows data (read data length) (·.read length) := by
  intro position le
  have moved := follows_advance bounded length position le
  rw [read, get_bind_apply]
  by_cases room : position + length ≤ data.length
  · simp only [Cursor.advance, if_pos room] at moved
    simp only [Cursor.read_eq, Cursor.readAs, if_pos room]
    rw [bind_apply moved, get_bind_apply, slice_of_le (Nat.le_add_right ..) room,
      Nat.add_sub_cancel_left]
    rfl
  · simp only [Cursor.advance, if_neg room] at moved
    simp only [Cursor.read_eq, Cursor.readAs, if_neg room]
    exact bind_apply_error moved _

/-- A machine takes the bytes of a word with a check of its own. -/
theorem follows_takeBytes (bounded : data.length < objectBound) (width : Nat) :
    Follows data (ofScan (takeBytes data width)) (·.read width) := by
  intro position le
  rw [ofScan]
  by_cases room : position + width ≤ data.length
  · rw [takeBytes_of_le bounded room]
    simp only [Cursor.read_eq, Cursor.readAs, if_pos room]
    rfl
  · rw [takeBytes_of_lt (Nat.not_le.1 room)]
    simp only [Cursor.read_eq, Cursor.readAs, if_neg room]
    rfl

/-- So are words. -/
theorem follows_readWord (bounded : data.length < objectBound) (order : ByteOrder) (width : Nat) :
    Follows data (readWord data order width) (·.readWord order width) := by
  have followed := (follows_takeBytes bounded width).map order.decode
  simp only [Cursor.read_eq, Cursor.map_readAs] at followed
  simp only [Cursor.readWord_eq]
  exact followed

/-- So are signed words. -/
theorem follows_readSignedWord (bounded : data.length < objectBound) (order : ByteOrder)
    (width : Nat) :
    Follows data (readSignedWord data order width) (·.readSignedWord order width) := by
  have followed := (follows_readWord bounded order width).map
    fun n : Nat => Int.bmod n (capacity width)
  simp only [Cursor.readWord_eq, Cursor.map_readAs] at followed
  simp only [Cursor.readSignedWord_eq]
  exact followed

end Fixed

/-! ### Compressed numbers -/

section Compressed

variable {data rest : List UInt8} {b : UInt8} {position : Nat}

/-- The next byte is taken if there is one. -/
theorem readByte_bind (bounded : data.length < objectBound) (h : data.drop position = b :: rest)
    (next : Nat → Walk α) :
    (readWord data .little 1 >>= next) position = next b.toNat (position + 1) ∧
      data.drop (position + 1) = rest := by
  have more : position + 1 ≤ data.length := by
    have length := congrArg List.length h
    rw [List.length_drop, List.length_cons] at length
    omega
  have read := follows_readWord bounded .little 1 position (Nat.le_of_succ_le more)
  simp only [Cursor.readWord_eq, Cursor.readAs, if_pos more, Cursor.rest, h, List.take_succ_cons,
    List.take_zero, ByteOrder.decode, ofLittle, Nat.mul_zero, Nat.add_zero] at read
  refine ⟨bind_apply read next, ?_⟩
  rw [← List.drop_drop, h]
  rfl

/-- At the end of the data there is none. -/
theorem readByte_bind_end (h : data.drop position = []) (next : Nat → Walk α) :
    (readWord data .little 1 >>= next) position = (fail .outOfBounds, position) := by
  have short : data.length < position + 1 := Nat.lt_succ_of_le (List.drop_eq_nil_iff.1 h)
  have taken : ofScan (takeBytes data 1) position = (fail .outOfBounds, position) := by
    rw [ofScan, takeBytes_of_lt short]
    rfl
  exact bind_apply_error (bind_apply_error taken _) next

/-- **Reading byte by byte looks at the same bytes**, whether there is a number or not. -/
theorem follows_readCompressed (bounded : data.length < objectBound) :
    Follows data (readCompressed data) (Cursor.scanAs fun found => (found.1, found.2.length)) := by
  intro position le
  change readCompressed data position =
    (ofExcept (((scan (data.drop position)).mapError Prod.fst).map _),
      position + Cursor.lookedAt (data.drop position))
  rw [readCompressed, Cursor.lookedAt]
  rcases eq : data.drop position with _ | ⟨b, rest⟩
  · rw [readByte_bind_end eq]
    rfl
  obtain ⟨one, two, low, four, low'⟩ := lead_cases b.toNat b.toNat_lt
  obtain ⟨taken, eq⟩ := readByte_bind (α := Nat × Nat) bounded eq _
  rw [taken, scan.eq_def]
  dsimp only
  by_cases h : b.toNat < 0x80
  · rw [if_pos (one.2 h), if_pos h]
    rfl
  rw [if_neg (mt one.1 h), if_neg h]
  by_cases h' : b.toNat < 0xC0
  · rw [if_pos ((two h).2 h'), if_pos h', low h h']
    rcases rest with _ | ⟨b₁, rest⟩
    · rw [readByte_bind_end eq]
      rfl
    · obtain ⟨taken, -⟩ := readByte_bind (α := Nat × Nat) bounded eq _
      rw [taken, exec_bind (shiftLeft_of_lt (by decide)), two_bytes (by omega) b₁.toNat_lt]
      rfl
  rw [if_neg (mt (two h).1 h'), if_neg h']
  by_cases h'' : b.toNat < 0xE0
  · rw [if_pos ((four h').2 h''), if_pos h'', low' h' h'']
    rcases rest with _ | ⟨b₁, rest⟩
    · rw [readByte_bind_end eq]
      rfl
    obtain ⟨taken, eq⟩ := readByte_bind (α := Nat × Nat) bounded eq _
    rw [taken]
    rcases rest with _ | ⟨b₂, rest⟩
    · rw [readByte_bind_end eq]
      rfl
    obtain ⟨taken, eq⟩ := readByte_bind (α := Nat × Nat) bounded eq _
    rw [taken]
    rcases rest with _ | ⟨b₃, rest⟩
    · rw [readByte_bind_end eq]
      rfl
    obtain ⟨taken, eq⟩ := readByte_bind (α := Nat × Nat) bounded eq _
    rw [taken, exec_bind (shiftLeft_of_lt (by decide)), exec_bind (shiftLeft_of_lt (by decide)),
      exec_bind (shiftLeft_of_lt (by decide)),
      four_bytes (by omega) b₁.toNat_lt b₂.toNat_lt b₃.toNat_lt]
    rfl
  · rw [if_neg (mt (four h').1 h''), if_neg h'', UInt8.ofNat_toNat]
    rfl

/-- Compressed numbers are read without a trap. -/
theorem follows_readUnsigned (bounded : data.length < objectBound) :
    Follows data (readUnsigned data) (·.readUnsigned) := by
  have followed := (follows_readCompressed bounded).map Prod.fst
  simp only [Cursor.map_scanAs] at followed
  simp only [Cursor.readUnsigned_eq]
  exact followed

/-- So are signed ones. -/
theorem follows_readSigned (bounded : data.length < objectBound) :
    Follows data (readSigned data) (·.readSigned) := by
  intro position le
  have read := follows_readCompressed bounded position le
  simp only [Cursor.readSigned_eq, Cursor.scanAs, Cursor.rest] at read ⊢
  rcases scanned : scan (data.drop position) with ⟨e, looked⟩ | ⟨stored, w⟩
  · rw [scanned] at read
    exact bind_apply_error read _
  · rw [scanned] at read
    rw [readSigned, bind_apply read]
    dsimp only
    rw [exec_bind (shiftRight_of_lt (by decide)), signed_of_stored (scan_eq_ok scanned).1]
    rfl

end Compressed

/-! ### Operations -/

section Operations

open Cursor

variable {data : List UInt8}

/-- **Every operation of a machine does what a cursor does.** -/
theorem follows_perform (bounded : data.length < objectBound) (operation : Operation) :
    Follows data (perform data operation) (Cursor.perform · operation) := by
  cases operation with
  | length | isEmpty | data | position | hasMore => exact fun _ _ => rfl
  | seek place => exact (follows_seek place).map _
  | advance step => exact (follows_advance bounded step).map _
  | peek => exact (follows_peek data).map _
  | read length => exact (follows_read bounded length).map _
  | readWord order width => exact (follows_readWord bounded order width).map _
  | readSignedWord order width => exact (follows_readSignedWord bounded order width).map _
  | readUnsigned => exact (follows_readUnsigned bounded).map _
  | readSigned => exact (follows_readSigned bounded).map _

/-- And so do operations one after the other, failed ones among them. -/
theorem trace_eq (bounded : data.length < objectBound) (operations : List Operation)
    {c : Cursor} (same : c.data = data) (inside : c.Inside) :
    trace data operations c.position =
      (c.trace operations).map fun r => (ofExcept r.1, r.2.position) := by
  induction operations generalizing c with
  | nil => rfl
  | cons operation operations ih =>
      obtain ⟨bytes, position⟩ := c
      obtain rfl : bytes = data := same
      have first := follows_perform bounded operation position inside
      have rest := ih (data_perform ⟨bytes, position⟩ operation) (inside.perform operation)
      rw [trace, first, Cursor.trace, List.map_cons]
      exact congrArg _ rest

end Operations

end Walk

open Cursor

/-- **Whatever a cursor is asked, it stays inside its data.** No operations change the data or lead
out of it, and a machine with positions of 64 bits answers alike, without a trap. Reading on from a
place is reading what stands behind it. What fails moves the cursor only if it goes byte by byte.
Otherwise the cursor goes to a place, looks at a byte, or takes all bytes from its old position to
its new one. The next four bytes decide what comes of a compressed number, and the cursor moves over
no more than these. -/
theorem cursors_stay_inside (data : List UInt8) (operations : List Operation) :
    (∀ r ∈ (start data).trace operations, r.2.data = data ∧ r.2.Inside) ∧
      (data.length < objectBound → Walk.trace data operations 0 =
        ((start data).trace operations).map fun r => (ofExcept r.1, r.2.position)) ∧
      ((∀ operation ∈ operations, operation.LooksAhead) → ∀ offset ≤ data.length,
        Cursor.trace ⟨data, offset⟩ (operations.map (·.behind offset)) =
          ((start (data.drop offset)).trace operations).map
            fun r => (r.1, ⟨data, offset + r.2.position⟩)) ∧
      (∀ (c : Cursor) operation e, ¬ operation.GoesByteByByte →
        (c.perform operation).1 = .error e → (c.perform operation).2 = c) ∧
      (∀ (c d : Cursor) place,
        (c.seek place = (.ok (), d) ↔ place < c.data.length ∧ d = { c with position := place }) ∧
        ∀ e, c.seek place = (.error e, d) ↔
          e = .outOfBounds ∧ d = c ∧ c.data.length ≤ place) ∧
      (∀ c : Cursor,
        (∀ b, c.peek = .ok b ↔ c.data.extract c.position (c.position + 1) = [b]) ∧
        ∀ e, c.peek = .error e ↔ e = .outOfBounds ∧ c.data.length ≤ c.position) ∧
      (∀ step, ReadsWhole step (fun _ _ => True) (·.advance step)) ∧
      (∀ length, ReadsWhole length Eq (·.read length)) ∧
      (∀ order width, ReadsWhole width (order.Spells width) (·.readWord order width)) ∧
      (∀ order width, ReadsWhole width (order.SpellsSigned width) (·.readSignedWord order width)) ∧
      LooksAtFour Cursor.readUnsigned ∧ LooksAtFour Cursor.readSigned := by
  have inside := inside_start data
  refine ⟨fun r mem => ⟨data_of_mem_trace mem, inside.of_mem_trace mem⟩,
    fun bounded => ?_, fun ahead offset le => ?_,
    fun c operation e whole failed => perform_of_error whole failed,
    fun c d place => ⟨seek_eq_ok_iff, fun e => seek_eq_error_iff⟩,
    fun c => ⟨fun b => peek_eq_ok_iff, fun e => peek_eq_error_iff⟩,
    readsWhole_advance, readsWhole_read, readsWhole_readWord, readsWhole_readSignedWord,
    looksAtFour_readUnsigned, looksAtFour_readSigned⟩
  · exact Walk.trace_eq bounded operations rfl inside
  · exact trace_drop le ahead

/-- The first byte is a number, and the second one starts another one that is cut off. Then come
places behind the end: one byte behind, and as far as 64 bits go. -/
theorem cursors_stay_inside_cutNumber :
    [0x7F, 0xC1, 0x02].length < objectBound ∧
      Walk.trace [0x7F, 0xC1, 0x02]
          [.readUnsigned, .readSigned, .seek 3, .advance 0xFFFFFFFFFFFFFFFF] 0 =
        [(.ok (.number 0x7F), 1), (fail .outOfBounds, 3), (fail .outOfBounds, 3),
          (fail .outOfBounds, 3)] ∧
      (∀ operation ∈ ([.readSigned, .seek 0, .readWord .big 2] : List Operation),
        operation.LooksAhead) ∧
      1 ≤ [0x7F, 0xC1, 0x02].length ∧
      Cursor.trace ⟨[0x7F, 0xC1, 0x02], 1⟩ [.readSigned, .seek 1, .readWord .big 2] =
        [(.error .outOfBounds, ⟨[0x7F, 0xC1, 0x02], 3⟩), (.ok .moved, ⟨[0x7F, 0xC1, 0x02], 1⟩),
          (.ok (.number 0xC102), ⟨[0x7F, 0xC1, 0x02], 3⟩)] ∧
      ¬ (Operation.seek 3).GoesByteByByte ∧
      (Cursor.perform ⟨[0x7F, 0xC1, 0x02], 3⟩ (.seek 3)).2 = ⟨[0x7F, 0xC1, 0x02], 3⟩ := by
  obtain ⟨-, machine, -⟩ := cursors_stay_inside [0x7F, 0xC1, 0x02]
    [.readUnsigned, .readSigned, .seek 3, .advance 0xFFFFFFFFFFFFFFFF]
  obtain ⟨-, -, onward, stays, -⟩ := cursors_stay_inside [0x7F, 0xC1, 0x02]
    [.readSigned, .seek 0, .readWord .big 2]
  have whole : ¬ (Operation.seek 3).GoesByteByByte := by decide
  have ahead : ∀ operation ∈ ([.readSigned, .seek 0, .readWord .big 2] : List Operation),
      operation.LooksAhead := by decide
  exact ⟨by decide, (machine (by decide)).trans rfl, ahead, by decide,
    (onward ahead 1 (by decide)).trans rfl, whole, stays _ _ .outOfBounds whole rfl⟩

end SymbolHistory.Machine
