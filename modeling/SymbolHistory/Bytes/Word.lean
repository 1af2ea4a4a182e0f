import SymbolHistory.Error

/-!
# Words of fixed width

Whole numbers in a fixed number of bytes. Metadata writes the least significant byte first.

## Main definitions

* `ofLittle`, `toLittle` : numbers from and to bytes, least significant byte first.
* `capacity` : how many numbers fit into a number of bytes.
* `Reader` : takes a value off the front of a list of bytes, or fails.
* `Consumes` : how many bytes a successful reader takes at least.
* `word`, `word32`, `word64` : the readers of words.

## Main results

* `bind_eq_ok_iff` : when one reader after another succeeds.
* `ofLittle_toLittle`, `toLittle_ofLittle` : reading undoes writing, and the other way round.
* `word_append` : a word is read back from its bytes, whatever follows them.
* `word_eq_ok_iff` : what reading a word consumes is the written form of its value.
-/

namespace SymbolHistory.Bytes

/-- The number that `bytes` stand for, least significant byte first. -/
def ofLittle : List UInt8 → Nat
  | [] => 0
  | b :: bs => b.toNat + 256 * ofLittle bs

/-- How many numbers fit into `width` bytes. -/
def capacity : (width : Nat) → Nat
  | 0 => 1
  | width + 1 => 256 * capacity width

/-- The `width` bytes of a number, least significant byte first; what does not fit is cut off. -/
def toLittle : Nat → Nat → List UInt8
  | 0, _ => []
  | width + 1, n => UInt8.ofNat n :: toLittle width (n / 256)

@[simp] theorem length_toLittle (width n : Nat) : (toLittle width n).length = width := by
  induction width generalizing n with
  | zero => rfl
  | succ width ih => simp [toLittle, ih]

/-- Writing keeps the number modulo what the width can hold. -/
theorem ofLittle_toLittle (width n : Nat) : ofLittle (toLittle width n) = n % capacity width := by
  induction width generalizing n with
  | zero => simp [toLittle, ofLittle, capacity, Nat.mod_one]
  | succ width ih => rw [toLittle, ofLittle, ih, UInt8.toNat_ofNat', capacity, Nat.mod_mul]

theorem ofLittle_toLittle_of_lt {width n : Nat} (h : n < capacity width) :
    ofLittle (toLittle width n) = n := by
  rw [ofLittle_toLittle, Nat.mod_eq_of_lt h]

theorem ofLittle_lt (bytes : List UInt8) : ofLittle bytes < capacity bytes.length := by
  induction bytes with
  | nil => simp [ofLittle, capacity]
  | cons b bs ih =>
    have := b.toNat_lt
    rw [ofLittle, List.length_cons, capacity]
    omega

/-- Every list of bytes is the written form of its number. -/
theorem toLittle_ofLittle (bytes : List UInt8) :
    toLittle bytes.length (ofLittle bytes) = bytes := by
  induction bytes with
  | nil => rfl
  | cons b bs ih =>
    have := b.toNat_lt
    rw [List.length_cons, toLittle, ofLittle,
      show (b.toNat + 256 * ofLittle bs) / 256 = ofLittle bs by omega, ih]
    congr 1
    apply UInt8.toNat_inj.1
    rw [UInt8.toNat_ofNat']
    omega

/-- What is written of a number depends on it only up to the capacity. -/
theorem toLittle_mod (width n : Nat) : toLittle width (n % capacity width) = toLittle width n := by
  have inverse := toLittle_ofLittle (toLittle width n)
  rwa [length_toLittle, ofLittle_toLittle] at inverse

/-- Forms of one length, written one behind the other, take that length for each. -/
theorem length_flatMap_of_forall {α : Type} {form : α → List UInt8} {size : Nat}
    (h : ∀ a, (form a).length = size) (as : List α) :
    (as.flatMap form).length = size * as.length := by
  induction as with
  | nil => rfl
  | cons a as ih =>
    rw [List.flatMap_cons, List.length_append, h, ih, List.length_cons, Nat.mul_succ]
    omega

/-- The number that `bytes` stand for, most significant byte first. -/
def ofBig (bytes : List UInt8) : Nat :=
  ofLittle bytes.reverse

/-- Takes a value off the front of a list of bytes and leaves the rest, or fails. -/
abbrev Reader := StateT (List UInt8) (Except Error)

/-- Reading nothing succeeds with the given value and leaves all bytes. -/
theorem pure_eq_ok_iff {α : Type} {a b : α} {bytes rest : List UInt8} :
    (pure a : Reader α) bytes = .ok (b, rest) ↔ a = b ∧ bytes = rest := by
  constructor
  · intro h
    cases h
    exact ⟨rfl, rfl⟩
  · rintro ⟨rfl, rfl⟩
    rfl

/-- Two readers one after the other succeed exactly if the first one does, and the second one on
what the first one leaves. -/
theorem bind_eq_ok_iff {α β : Type} {first : Reader α} {next : α → Reader β}
    {bytes rest : List UInt8} {b : β} :
    (first >>= next) bytes = .ok (b, rest) ↔
      ∃ a mid, first bytes = .ok (a, mid) ∧ next a mid = .ok (b, rest) := by
  cases h : first bytes with
  | error e => simp [Bind.bind, StateT.bind, Except.bind, h]
  | ok r =>
    rcases r with ⟨a, mid⟩
    simp [Bind.bind, StateT.bind, Except.bind, h, and_assoc]

/-- A reader that succeeds hands on its result and what it leaves. -/
theorem bind_of_ok {α β : Type} {first : Reader α} {next : α → Reader β}
    {bytes rest : List UInt8} {a : α} (h : first bytes = .ok (a, rest)) :
    (first >>= next) bytes = next a rest := by
  simp only [Bind.bind, StateT.bind, h, Except.bind]

/-- Nothing follows a reader that fails. -/
theorem bind_of_error {α β : Type} {first : Reader α} {next : α → Reader β} {bytes : List UInt8}
    {e : Error} (h : first bytes = .error e) : (first >>= next) bytes = .error e := by
  simp only [Bind.bind, StateT.bind, h, Except.bind]

/-- A reader that, when it succeeds, takes at least `least` bytes off the front. -/
def Consumes {α : Type} (least : Nat) (reader : Reader α) : Prop :=
  ∀ bytes a rest, reader bytes = .ok (a, rest) → rest.length + least ≤ bytes.length

theorem consumes_pure {α : Type} (a : α) : Consumes 0 (pure a : Reader α) := by
  intro bytes b rest h
  cases h
  exact Nat.le_refl _

theorem consumes_throw {α : Type} (least : Nat) (e : Error) :
    Consumes least (throw e : Reader α) := by
  intro bytes b rest h
  cases h

/-- What two readers take one after the other adds up. -/
theorem Consumes.bind {α β : Type} {m n : Nat} {first : Reader α} {next : α → Reader β}
    (h₁ : Consumes m first) (h₂ : ∀ a, Consumes n (next a)) :
    Consumes (m + n) (first >>= next) := by
  intro bytes b rest h
  obtain ⟨a, mid, eq₁, eq₂⟩ := bind_eq_ok_iff.1 h
  have := h₁ _ _ _ eq₁
  have := h₂ a _ _ _ eq₂
  omega

theorem Consumes.ite {α : Type} {n : Nat} {c : Prop} [Decidable c] {first second : Reader α}
    (h₁ : Consumes n first) (h₂ : Consumes n second) :
    Consumes n (if c then first else second) := by
  split <;> assumption

theorem Consumes.mono {α : Type} {m n : Nat} {reader : Reader α} (h : Consumes n reader)
    (le : m ≤ n) : Consumes m reader := fun bytes a rest eq =>
  Nat.le_trans (Nat.add_le_add_left le _) (h bytes a rest eq)

/-- Takes the first `width` bytes. -/
def take (width : Nat) : Reader (List UInt8) := fun bytes =>
  if (bytes.take width).length = width then .ok (bytes.take width, bytes.drop width)
  else .error .outOfBounds

/-- Reads a word of `width` bytes. -/
def word (width : Nat) : Reader Nat := do
  return ofLittle (← take width)

/-- Reads a 32-bit word. -/
def word32 : Reader UInt32 := do
  return UInt32.ofNat (← word 4)

/-- Reads a 64-bit word. -/
def word64 : Reader UInt64 := do
  return UInt64.ofNat (← word 8)

/-- Taking bytes succeeds exactly if there are enough of them. -/
theorem take_eq_ok_iff {width : Nat} {bytes front rest : List UInt8} :
    take width bytes = .ok (front, rest) ↔ bytes = front ++ rest ∧ front.length = width := by
  unfold take
  constructor
  · intro h
    split at h
    · cases h
      exact ⟨(List.take_append_drop width bytes).symm, by assumption⟩
    · cases h
  · rintro ⟨rfl, rfl⟩
    simp

/-- What reading a word consumes is the written form of its value. -/
theorem word_eq_ok_iff {width n : Nat} {bytes rest : List UInt8} :
    word width bytes = .ok (n, rest) ↔ n < capacity width ∧ bytes = toLittle width n ++ rest := by
  unfold word
  rw [bind_eq_ok_iff]
  constructor
  · rintro ⟨front, mid, taken, read⟩
    obtain ⟨rfl, rfl⟩ := take_eq_ok_iff.1 taken
    obtain ⟨rfl, rfl⟩ := pure_eq_ok_iff.1 read
    exact ⟨ofLittle_lt _, by rw [toLittle_ofLittle]⟩
  · rintro ⟨lt, rfl⟩
    refine ⟨_, _, take_eq_ok_iff.2 ⟨rfl, length_toLittle _ _⟩, ?_⟩
    rw [ofLittle_toLittle_of_lt lt]
    rfl

/-- A word is read back from its bytes, whatever follows them. -/
theorem word_append {width n : Nat} (rest : List UInt8) (h : n < capacity width) :
    word width (toLittle width n ++ rest) = .ok (n, rest) :=
  word_eq_ok_iff.2 ⟨h, rfl⟩

end SymbolHistory.Bytes
