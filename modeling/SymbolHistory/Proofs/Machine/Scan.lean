import SymbolHistory.Proofs.Machine.Basic
import SymbolHistory.Proofs.Bytes.Compressed
import SymbolHistory.Proofs.Outcome

/-!
# Scans

A reader of the library takes bytes off the front of a list. A machine has all bytes and a position,
takes slices behind the position and moves it. A scan performs a reader if it gives, from every
position in the data, what the reader gives for the bytes behind it.

## Main definitions

* `Scan` : a program that reads bytes from a position on.
* `Agrees`, `Performs` : a scan gives what a reader gives.
* `Advances`, `Moves` : a scan that succeeds moves the position on.
* `takeBytes`, `readWord`, `wordAt`, `wordFrom` : reads of fixed size.
* `whileMore` : repeats a step as long as there are bytes.

## Main results

* `Performs.bind` : scans one after the other perform readers one after the other.
* `performs_word` : reading a word of the machine performs reading a word.
-/

namespace SymbolHistory.Machine

open Bytes

/-- A program that reads bytes from a position on. -/
abbrev Scan := StateT Nat Exec

/-- From a position in the data, a scan gives what a reader gives for the bytes behind it: the same
error, or the same value and a position with the bytes behind it that the reader leaves. -/
inductive Agrees {α : Type} (data : List UInt8) (position : Nat) :
    Exec (α × Nat) → Except Error (α × List UInt8) → Prop where
  /-- Both fail. -/
  | failed (e : Error) : Agrees data position (fail e) (.error e)
  /-- Both have a value. -/
  | done (a : α) {stop : Nat} (le : position ≤ stop) (inside : stop ≤ data.length) :
    Agrees data position (pure (a, stop)) (.ok (a, data.drop stop))

/-- From every position in the data, a scan gives what a reader gives. -/
def Performs {α : Type} (data : List UInt8) (scan : Scan α) (reader : Reader α) : Prop :=
  ∀ position ≤ data.length, Agrees data position (scan position) (reader (data.drop position))

section Rules

variable {α β : Type} {data : List UInt8}

/-- What is given from a position on may be seen from an earlier one. -/
theorem Agrees.earlier {position later : Nat} {found : Exec (α × Nat)}
    {result : Except Error (α × List UInt8)} (h : Agrees data later found result)
    (le : position ≤ later) : Agrees data position found result := by
  cases h with
  | failed e => exact .failed e
  | done a le' inside => exact .done a (Nat.le_trans le le') inside

/-- Where both have a value, what follows from the new position on decides. -/
theorem Agrees.bind {position : Nat} {found : Exec (α × Nat)}
    {result : Except Error (α × List UInt8)} {next : α → Scan β} {following : α → Reader β}
    (h : Agrees data position found result) (h' : ∀ a, Performs data (next a) (following a)) :
    Agrees data position (found >>= fun r => next r.1 r.2)
      (result >>= fun r => following r.1 r.2) := by
  cases h with
  | failed e => exact .failed e
  | done a le inside => exact (h' a _ inside).earlier le

/-- What a machine does behind a scan has to mirror what the library does behind the reader. -/
theorem Agrees.mirrors_bind {γ δ : Type} {Belongs : γ → δ → Prop} {position : Nat}
    {found : Exec (α × Nat)} {result : Except Error (α × List UInt8)} {next : α × Nat → Exec γ}
    {following : α × List UInt8 → Except Error δ} (h : Agrees data position found result)
    (h' : ∀ a stop, position ≤ stop → stop ≤ data.length →
      Mirrors Belongs (next (a, stop)) (following (a, data.drop stop))) :
    Mirrors Belongs (found >>= next) (result >>= following) := by
  cases h with
  | failed e => exact .failed e
  | done a le inside => exact h' a _ le inside

/-- A scan fails where the reader does. -/
theorem Agrees.eq_fail {position : Nat} {found : Exec (α × Nat)} {e : Error}
    (h : Agrees data position found (.error e)) : found = fail e := by
  cases h
  rfl

/-- A scan has a value where the reader has one. -/
theorem Agrees.exists_stop {position : Nat} {found : Exec (α × Nat)} {a : α} {rest : List UInt8}
    (h : Agrees data position found (.ok (a, rest))) :
    ∃ stop, position ≤ stop ∧ stop ≤ data.length ∧ rest = data.drop stop ∧
      found = pure (a, stop) := by
  cases h with
  | done a le inside => exact ⟨_, le, inside, rfl, rfl⟩

/-- A scan that looks at nothing performs a reader that reads nothing. -/
theorem performs_pure (a : α) : Performs data (pure a) (pure a) := fun _ le =>
  .done a (Nat.le_refl _) le

/-- A scan that fails performs a reader that fails alike. -/
theorem performs_fail (e : Error) : Performs data (liftM (fail e : Exec α)) (throw e) := fun _ _ =>
  .failed e

/-- Scans one after the other perform readers one after the other. -/
theorem Performs.bind {first : Scan α} {next : α → Scan β} {reader : Reader α}
    {following : α → Reader β} (h : Performs data first reader)
    (h' : ∀ a, Performs data (next a) (following a)) :
    Performs data (first >>= next) (reader >>= following) :=
  fun position le => (h position le).bind h'

/-- What follows a reader has to be performed for the values only that it can give. -/
theorem Performs.bind_of {Given : α → Prop} {first : Scan α} {next : α → Scan β}
    {reader : Reader α} {following : α → Reader β} (h : Performs data first reader)
    (given : ∀ bytes a rest, reader bytes = .ok (a, rest) → Given a)
    (h' : ∀ a, Given a → Performs data (next a) (following a)) :
    Performs data (first >>= next) (reader >>= following) := by
  intro position le
  have agrees := h position le
  change Agrees data position (first position >>= _) (reader (data.drop position) >>= _)
  cases result : reader (data.drop position) with
  | error e =>
      rw [result] at agrees
      rw [agrees.eq_fail]
      exact .failed e
  | ok r =>
      obtain ⟨a, rest⟩ := r
      rw [result] at agrees
      obtain ⟨stop, le', inside, rfl, found⟩ := agrees.exists_stop
      rw [found]
      exact (h' a (given _ _ _ result) stop inside).earlier le'

/-- A choice between scans performs the same choice between readers. -/
theorem Performs.ite {c : Prop} [Decidable c] {first second : Scan α} {reader other : Reader α}
    (h : Performs data first reader) (h' : Performs data second other) :
    Performs data (if c then first else second) (if c then reader else other) := by
  split <;> assumption

/-- An operation that goes through changes nothing about what follows it. -/
theorem Performs.exec_bind {operation : Exec α} {a : α} {next : α → Scan β} {reader : Reader β}
    (through : operation = pure a) (h : Performs data (next a) reader) :
    Performs data (liftM operation >>= next) reader := by
  subst through
  exact h

/-- An operation that goes through hands its result on. -/
theorem exec_bind_apply {operation : Exec α} {a : α} (through : operation = pure a)
    (next : α → Scan β) (position : Nat) :
    (liftM operation >>= next) position = next a position := by
  subst through
  rfl

/-- The position is handed on. -/
theorem get_bind_apply (next : Nat → Scan β) (position : Nat) :
    (get >>= next) position = next position position := rfl

/-- A scan with a value hands it on. -/
theorem bind_apply {first : Scan α} {a : α} {position stop : Nat}
    (h : first position = pure (a, stop)) (next : α → Scan β) :
    (first >>= next) position = next a stop := by
  change first position >>= _ = _
  rw [h]
  rfl

/-- Nothing follows a scan that fails. -/
theorem bind_apply_fail {first : Scan α} {e : Error} {position : Nat}
    (h : first position = fail e) (next : α → Scan β) : (first >>= next) position = fail e := by
  change first position >>= _ = _
  rw [h]
  rfl

/-- What is done to every item may be done one item after the other. -/
theorem Performs.foldlM {σ ι : Type} {step : σ → ι → Scan σ} {reader : σ → ι → Reader σ}
    (h : ∀ s i, Performs data (step s i) (reader s i)) (items : List ι) (s : σ) :
    Performs data (items.foldlM step s) (items.foldlM reader s) := by
  induction items generalizing s with
  | nil => exact performs_pure s
  | cons item items ih =>
      rw [List.foldlM_cons, List.foldlM_cons]
      exact (h s item).bind ih

/-- A scan that succeeds moves the position on, by `least` at least. -/
def Advances (least : Nat) (scan : Scan α) : Prop :=
  ∀ position a stop, scan position = .ok (a, stop) → position + least ≤ stop

/-- A scan that succeeds moves the position on by `width`. -/
def Moves (width : Nat) (scan : Scan α) : Prop :=
  ∀ position a stop, scan position = .ok (a, stop) → stop = position + width

/-- A scan that looks at nothing does not move the position. -/
theorem moves_pure (a : α) : Moves 0 (pure a : Scan α) := by
  intro position b stop h
  cases h
  rfl

/-- The position does not move when it is looked at. -/
theorem moves_get : Moves 0 (get : Scan Nat) := by
  intro position a stop h
  cases h
  rfl

/-- An operation does not move the position. -/
theorem moves_exec (operation : Exec α) : Moves 0 (liftM operation : Scan α) := by
  intro position a stop h
  obtain ⟨b, -, eq⟩ := Outcome.bind_eq_ok_iff.1 h
  cases eq
  rfl

/-- Scans one after the other move the position by the sum of their widths. -/
theorem Moves.bind {m n : Nat} {first : Scan α} {next : α → Scan β} (h : Moves m first)
    (h' : ∀ a, Moves n (next a)) : Moves (m + n) (first >>= next) := by
  intro position b stop eq
  obtain ⟨⟨a, middle⟩, eq₁, eq₂⟩ := Outcome.bind_eq_ok_iff.1 eq
  rw [h' a _ _ _ eq₂, h _ _ _ eq₁, Nat.add_assoc]

/-- A scan that moves by a width moves by that width at least. -/
theorem Moves.advances {width : Nat} {scan : Scan α} (h : Moves width scan) :
    Advances width scan := fun position a stop eq => Nat.le_of_eq (h position a stop eq).symm

/-- A scan that looks at nothing advances by nothing. -/
theorem advances_pure (a : α) : Advances 0 (pure a : Scan α) :=
  (moves_pure a).advances

/-- A scan that always fails advances by whatever is asked for. -/
theorem advances_fail (least : Nat) (e : Error) :
    Advances least (liftM (fail e : Exec α) : Scan α) := by
  intro position a stop h
  cases h

/-- Scans one after the other advance by the sum of what each advances by. -/
theorem Advances.bind {m n : Nat} {first : Scan α} {next : α → Scan β} (h : Advances m first)
    (h' : ∀ a, Advances n (next a)) : Advances (m + n) (first >>= next) := by
  intro position b stop eq
  obtain ⟨⟨a, middle⟩, eq₁, eq₂⟩ := Outcome.bind_eq_ok_iff.1 eq
  have := h _ _ _ eq₁
  have := h' a _ _ _ eq₂
  omega

/-- A choice between scans advances by what both branches advance by. -/
theorem Advances.ite {least : Nat} {c : Prop} [Decidable c] {first second : Scan α}
    (h : Advances least first) (h' : Advances least second) :
    Advances least (if c then first else second) := by
  split <;> assumption

/-- An operation advances by nothing. -/
theorem advances_exec (operation : Exec α) : Advances 0 (liftM operation : Scan α) :=
  (moves_exec operation).advances

/-- What advances by some bytes advances by fewer. -/
theorem Advances.mono {m n : Nat} {scan : Scan α} (h : Advances n scan) (le : m ≤ n) :
    Advances m scan := fun position a stop eq =>
  Nat.le_trans (Nat.add_le_add_left le _) (h position a stop eq)

end Rules

/-! ### Words -/

/-- The next `width` bytes. -/
def takeBytes (data : List UInt8) (width : Nat) : Scan (List UInt8) := fun position =>
  match checkedAdd UInt64.size position width with
  | none => fail .outOfBounds
  | some stop =>
    if data.length < stop then fail .outOfBounds
    else do
      let bytes ← slice data position stop
      if bytes.length = width then return (bytes, stop) else fail .outOfBounds

/-- The next word of `width` bytes. -/
def readWord (data : List UInt8) (width : Nat) : Scan Nat := do
  return ofLittle (← takeBytes data width)

/-- The word of `width` bytes at a position. -/
def wordAt (data : List UInt8) (position width : Nat) : Exec Nat := do
  let (n, _) ← readWord data width position
  return n

/-- The word of `width` bytes at the front of a slice. -/
def wordFrom (data : List UInt8) (start width : Nat) : Exec Nat := do
  wordAt (← sliceFrom data start) 0 width

section Words

variable {data : List UInt8}

/-- Taking bytes gives those behind the position if there are enough of them. -/
theorem takeBytes_of_le {position width : Nat} (bounded : data.length < objectBound)
    (le : position + width ≤ data.length) :
    takeBytes data width position =
      pure ((data.drop position).take width, position + width) := by
  have fits : position + width < UInt64.size := by
    unfold objectBound at bounded
    simp only [UInt64.size]
    omega
  have length : ((data.drop position).take width).length = width := by
    rw [List.length_take, List.length_drop]
    omega
  rw [takeBytes, checkedAdd_of_lt fits]
  dsimp only
  rw [if_neg (by omega), slice_of_le (Nat.le_add_right ..) le, pure_bind, Nat.add_sub_cancel_left,
    if_pos length]

/-- Taking bytes fails if there are not enough of them. -/
theorem takeBytes_of_lt {position width : Nat} (lt : data.length < position + width) :
    takeBytes data width position = fail .outOfBounds := by
  unfold takeBytes checkedAdd
  split
  · rfl
  · next stop eq =>
    split at eq
    · cases eq
      rw [if_pos lt]
    · cases eq

/-- Taking bytes at the position is taking them from the rest. -/
theorem performs_take (bounded : data.length < objectBound) (width : Nat) :
    Performs data (takeBytes data width) (take width) := by
  intro position le
  unfold take
  rcases Nat.lt_or_ge data.length (position + width) with lt | fits
  · have short : ((data.drop position).take width).length ≠ width := by
      rw [List.length_take, List.length_drop]
      omega
    rw [takeBytes_of_lt lt, if_neg short]
    exact .failed _
  · have length : ((data.drop position).take width).length = width := by
      rw [List.length_take, List.length_drop]
      omega
    rw [takeBytes_of_le bounded fits, if_pos length, List.drop_drop]
    exact .done _ (Nat.le_add_right ..) fits

/-- Bytes that are taken are behind the position then. -/
theorem moves_takeBytes (width : Nat) : Moves width (takeBytes data width) := by
  intro position bytes stop h
  unfold takeBytes checkedAdd at h
  split at h
  · cases h
  · next sum eq =>
    split at eq
    · cases eq
      split at h
      · cases h
      · obtain ⟨found, -, h⟩ := Outcome.bind_eq_ok_iff.1 h
        split at h
        · cases h
          rfl
        · cases h
    · cases eq

/-- So it is with words of any width. -/
theorem performs_word (bounded : data.length < objectBound) (width : Nat) :
    Performs data (readWord data width) (word width) :=
  (performs_take bounded width).bind fun _ => performs_pure _

/-- A word that is read moves the position by its width. -/
theorem moves_readWord (width : Nat) : Moves width (readWord data width) :=
  (moves_takeBytes width).bind fun _ => moves_pure _

/-- So it advances by its width, which loops over words rely on. -/
theorem advances_readWord (width : Nat) : Advances width (readWord data width) :=
  (moves_readWord width).advances

/-- A word inside the data is read. -/
theorem readWord_of_le {position width : Nat} (bounded : data.length < objectBound)
    (le : position + width ≤ data.length) :
    readWord data width position =
      pure (ofLittle ((data.drop position).take width), position + width) :=
  bind_apply (takeBytes_of_le bounded le) _

/-- A word at a place inside the data is read. -/
theorem wordAt_of_le {position width : Nat} (bounded : data.length < objectBound)
    (le : position + width ≤ data.length) :
    wordAt data position width = pure (ofLittle ((data.drop position).take width)) := by
  rw [wordAt, readWord_of_le bounded le]
  rfl

/-- So is the first word of a part of the data. -/
theorem wordFrom_of_le {start width : Nat} (bounded : data.length < objectBound)
    (le : start + width ≤ data.length) :
    wordFrom data start width = pure (ofLittle ((data.drop start).take width)) := by
  have length := List.length_drop (i := start) (l := data)
  rw [wordFrom, sliceFrom_of_le (by omega), pure_bind, wordAt_of_le (by omega) (by omega),
    List.drop_zero]

end Words

/-! ### Loops -/

section Loops

variable {σ : Type} {data : List UInt8} {step : σ → Scan σ}

/-- Repeats a step as long as there are bytes behind the position. -/
def whileMore (data : List UInt8) (step : σ → Scan σ) (advances : ∀ s, Advances 1 (step s)) (s : σ)
    (position : Nat) : Exec σ :=
  if position < data.length then
    match eq : step s position with
    | .error stop => .error stop
    | .ok (s', position') =>
      have : position + 1 ≤ position' := advances s _ _ _ eq
      whileMore data step advances s' position'
  else pure s
termination_by data.length - position

/-- At the end of the data nothing is repeated. -/
theorem whileMore_of_end (advances : ∀ s, Advances 1 (step s)) (s : σ) {position : Nat}
    (h : data.length ≤ position) : whileMore data step advances s position = pure s := by
  rw [whileMore, if_neg (Nat.not_lt.2 h)]

/-- The first step that fails ends the repetition with its failure. -/
theorem whileMore_of_fail (advances : ∀ s, Advances 1 (step s)) {s : σ} {position : Nat}
    {e : Error} (more : position < data.length) (h : step s position = fail e) :
    whileMore data step advances s position = fail e := by
  rw [whileMore, if_pos more]
  split
  · next stop eq =>
    cases Except.error.inj (eq.symm.trans h)
    rfl
  · next eq => cases eq.symm.trans h

/-- A step that succeeds hands its state and position on to the next one. -/
theorem whileMore_of_done (advances : ∀ s, Advances 1 (step s)) {s s' : σ}
    {position position' : Nat} (more : position < data.length)
    (h : step s position = pure (s', position')) :
    whileMore data step advances s position = whileMore data step advances s' position' := by
  rw [whileMore, if_pos more]
  split
  · next eq => cases eq.symm.trans h
  · next eq =>
    obtain ⟨rfl, rfl⟩ := Prod.mk.inj (Except.ok.inj (eq.symm.trans h))
    rfl

end Loops

end SymbolHistory.Machine
