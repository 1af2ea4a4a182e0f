import SymbolHistory.Bytes.Word

/-!
# Compressed numbers

Numbers below 2^29 in one, two or four bytes. The top bits of the first byte tell the width: `0`
starts one byte, `10` two and `110` four; the rest of the bits hold the number, most significant
first. A signed number is stored with its sign moved to the lowest bit.

## Main definitions

* `Width` : the three widths, with the number of payload bits of each.
* `scan` : recognises one compressed number, of any width, and says how far it looked.
* `encodeUnsigned`, `encodeSigned` : the narrowest form of a number.
* `compressed`, `unsigned` : readers that accept a number in any width.
* `minimalUnsigned`, `minimalSigned` : readers that accept the narrowest width alone.
-/

namespace SymbolHistory.Bytes

/-- The widths of a compressed number. -/
inductive Width where
  /-- One byte, seven bits. -/
  | one
  /-- Two bytes, fourteen bits. -/
  | two
  /-- Four bytes, twenty-nine bits. -/
  | four
  deriving DecidableEq, Repr

namespace Width

/-- The number of bytes. -/
def length : Width → Nat
  | one => 1
  | two => 2
  | four => 4

/-- The least number that is too large. -/
def bound : Width → Nat
  | one => 0x80
  | two => 0x4000
  | four => 0x20000000

/-- A width holds the signed numbers from `-half` up to `half - 1`. -/
def half : Width → Nat
  | one => 0x40
  | two => 0x2000
  | four => 0x10000000

/-- The narrowest width that holds a number. -/
def ofUnsigned? (n : Nat) : Option Width :=
  if n < bound one then some one
  else if n < bound two then some two
  else if n < bound four then some four
  else none

/-- Whether a width holds a signed number. -/
def Holds (w : Width) (n : Int) : Prop :=
  -(w.half : Int) ≤ n ∧ n < w.half

instance (w : Width) (n : Int) : Decidable (w.Holds n) :=
  inferInstanceAs (Decidable (_ ∧ _))

/-- The narrowest width that holds a signed number. -/
def ofSigned? (n : Int) : Option Width :=
  if one.Holds n then some one
  else if two.Holds n then some two
  else if four.Holds n then some four
  else none

/-- The bytes of a number in a given width. -/
def put : Width → Nat → List UInt8
  | one, n => [UInt8.ofNat n]
  | two, n => [UInt8.ofNat (0x80 + n / 0x100), UInt8.ofNat n]
  | four, n =>
    [UInt8.ofNat (0xC0 + n / 0x1000000), UInt8.ofNat (n / 0x10000), UInt8.ofNat (n / 0x100),
      UInt8.ofNat n]

/-- The stored form of a signed number: its low bits moved up by one, the sign below them. -/
def rotate (w : Width) (n : Int) : Nat :=
  2 * (n % w.half).toNat + if n < 0 then 1 else 0

/-- The signed number of a stored form. -/
def unrotate (w : Width) (stored : Nat) : Int :=
  if stored % 2 = 0 then (stored / 2 : Nat) else (stored / 2 : Nat) - (w.half : Int)

end Width

/-- Recognises the compressed number at the front: its value and width, or what is wrong and how
many bytes were looked at. -/
def scan : List UInt8 → Except (Error × Nat) (Nat × Width)
  | [] => .error (.outOfBounds, 0)
  | b :: rest =>
    if b.toNat < 0x80 then .ok (b.toNat, .one)
    else if b.toNat < 0xC0 then
      match rest with
      | [] => .error (.outOfBounds, 1)
      | b₁ :: _ => .ok ((b.toNat - 0x80) * 0x100 + b₁.toNat, .two)
    else if b.toNat < 0xE0 then
      match rest with
      | [] => .error (.outOfBounds, 1)
      | [_] => .error (.outOfBounds, 2)
      | [_, _] => .error (.outOfBounds, 3)
      | b₁ :: b₂ :: b₃ :: _ =>
        .ok ((b.toNat - 0xC0) * 0x1000000 + b₁.toNat * 0x10000 + b₂.toNat * 0x100 + b₃.toNat, .four)
    else .error (.malformed (.compressedLead b), 1)

/-- The narrowest form of a number. -/
def encodeUnsigned (n : Nat) : Except Error (List UInt8) :=
  match Width.ofUnsigned? n with
  | some w => .ok (w.put n)
  | none => .error (.malformed (.unsignedTooLarge n))

/-- The narrowest form of a signed number. -/
def encodeSigned (n : Int) : Except Error (List UInt8) :=
  match Width.ofSigned? n with
  | some w => .ok (w.put (w.rotate n))
  | none => .error (.malformed (.signedTooLarge n))

/-- A recognised number stands in the first bytes, as many as its width has. -/
theorem length_le_of_scan {bytes : List UInt8} {n : Nat} {w : Width}
    (h : scan bytes = .ok (n, w)) : w.length ≤ bytes.length := by
  unfold scan at h
  split at h
  · cases h
  · split at h
    · cases h; simp [Width.length]
    · split at h
      · split at h <;> cases h
        simp [Width.length]
      · split at h
        · split at h <;> cases h
          simp [Width.length]
        · cases h

/-- Reads a compressed number and the width it is written in. -/
def compressed : Reader (Nat × Width) := fun bytes =>
  match scan bytes with
  | .ok (n, w) => .ok ((n, w), bytes.drop w.length)
  | .error (e, _) => .error e

theorem consumes_compressed : Consumes 1 compressed := by
  intro bytes r rest h
  unfold compressed at h
  split at h
  · next n w eq =>
    have := length_le_of_scan eq
    have : 1 ≤ w.length := by cases w <;> decide
    cases h
    rw [List.length_drop]
    omega
  · cases h

/-- Reads a number written in any width. -/
def unsigned : Reader Nat := do
  let (n, _) ← compressed
  return n

/-- Reads a number, which must be written in its narrowest width. -/
def minimalUnsigned : Reader Nat := do
  let (n, w) ← compressed
  if Width.ofUnsigned? n = some w then
    return n
  else
    throw (.malformed (.unsignedNotMinimal n))

/-- Reads a signed number, which must be written in its narrowest width. -/
def minimalSigned : Reader Int := do
  let (stored, w) ← compressed
  let n := w.unrotate stored
  if Width.ofSigned? n = some w then
    return n
  else
    throw (.malformed (.signedNotMinimal n))

theorem consumes_unsigned : Consumes 1 unsigned :=
  consumes_compressed.bind fun _ => consumes_pure _

theorem consumes_minimalUnsigned : Consumes 1 minimalUnsigned :=
  consumes_compressed.bind fun _ => .ite (consumes_pure _) (consumes_throw _ _)

theorem consumes_minimalSigned : Consumes 1 minimalSigned :=
  consumes_compressed.bind fun _ => .ite (consumes_pure _) (consumes_throw _ _)

end SymbolHistory.Bytes
