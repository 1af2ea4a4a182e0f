import SymbolHistory.Proofs.Machine.Scan
import SymbolHistory.Proofs.Bytes.Compressed
import Mathlib.Data.Nat.Bitwise

/-!
# Compressed numbers on a machine

A machine reads a compressed number byte by byte. It tells the widths apart with masks, and puts the
bytes together with shifts.

## Main definitions

* `readCompressed`, `readUnsigned`, `readSigned` : scans of compressed numbers of any width.
* `readMinimal` : a scan that refuses a number which is not in its narrowest form, with
  `readMinimalUnsigned` and `readMinimalSigned`.

## Main results

* `performs_unsigned`, `performs_minimalUnsigned`, `performs_minimalSigned` : these scans perform
  the readers of the library.
-/

namespace SymbolHistory.Machine

open Bytes

/-- The next compressed number, with the number of its bytes. -/
def readCompressed (data : List UInt8) : Scan (Nat × Nat) := do
  let lead ← readWord data 1
  if lead &&& 0x80 = 0 then
    return (lead, 1)
  else if lead &&& 0xC0 = 0x80 then
    let b ← readWord data 1
    let high ← shiftLeft 32 (lead &&& 0x3F) 8
    return (high ||| b, 2)
  else if lead &&& 0xE0 = 0xC0 then
    let b₁ ← readWord data 1
    let b₂ ← readWord data 1
    let b₃ ← readWord data 1
    let high ← shiftLeft 32 (lead &&& 0x1F) 24
    let upper ← shiftLeft 32 b₁ 16
    let lower ← shiftLeft 32 b₂ 8
    return (high ||| upper ||| lower ||| b₃, 4)
  else
    fail (.malformed (.compressedLead (UInt8.ofNat lead)))

/-- The next compressed number. -/
def readUnsigned (data : List UInt8) : Scan Nat := do
  let (n, _) ← readCompressed data
  return n

/-- The bits that a negative number in a form of `width` bytes has in front of those in the form. -/
def signBits (width : Nat) : Nat :=
  if width = 1 then 0xFFFFFFC0 else if width = 2 then 0xFFFFE000 else 0xF0000000

/-- The next signed compressed number. -/
def readSigned (data : List UInt8) : Scan Int := do
  let (stored, width) ← readCompressed data
  let half ← shiftRight 32 stored 1
  return if stored &&& 1 ≠ 0 then Int.bmod (half ||| signBits width : Nat) UInt32.size else half

/-- The next number, which has to be in its narrowest form. -/
def readMinimal {α : Type} (read : Scan α) (form : α → Exec (List UInt8)) (defect : α → Defect) :
    Scan α := do
  let start ← get
  let value ← read
  let narrowest ← form value
  let stop ← get
  let width ← sub stop start
  if width = narrowest.length then return value
  else fail (.malformed (defect value))

/-- The narrowest form of a signed number. Its sign is shifted down, and its bits are shifted up to
make room for the sign. -/
def signedForm (n : Int) : Exec (List UInt8) := do
  let word := (n % UInt32.size).toNat
  let _ ← shiftRight 32 word 31
  let _ ← shiftLeft 32 word 1
  ofExcept (encodeSigned n)

/-- The next number in its narrowest form. -/
def readMinimalUnsigned (data : List UInt8) : Scan Nat :=
  readMinimal (readUnsigned data) (fun n => ofExcept (encodeUnsigned n)) .unsignedNotMinimal

/-- The next signed number in its narrowest form. -/
def readMinimalSigned (data : List UInt8) : Scan Int :=
  readMinimal (readSigned data) signedForm .signedNotMinimal

/-! ### Byte by byte -/

/-- A compressed number with the number of its bytes. -/
def withLength : Reader (Nat × Nat) := do
  let (n, w) ← compressed
  return (n, w.length)

/-- A compressed number with the number of its bytes, read byte by byte. -/
def bytewise : Reader (Nat × Nat) := do
  let lead ← word 1
  if lead &&& 0x80 = 0 then
    return (lead, 1)
  else if lead &&& 0xC0 = 0x80 then
    let b ← word 1
    return ((lead &&& 0x3F) <<< 8 % (1 <<< 32) ||| b, 2)
  else if lead &&& 0xE0 = 0xC0 then
    let b₁ ← word 1
    let b₂ ← word 1
    let b₃ ← word 1
    return ((lead &&& 0x1F) <<< 24 % (1 <<< 32) ||| b₁ <<< 16 % (1 <<< 32) |||
      b₂ <<< 8 % (1 <<< 32) ||| b₃, 4)
  else
    throw (.malformed (.compressedLead (UInt8.ofNat lead)))

/-- The masks of the first byte tell the widths apart, and leave the bits of the number. -/
theorem lead_cases : ∀ lead < 256,
    (lead &&& 0x80 = 0 ↔ lead < 0x80) ∧
    (¬ lead < 0x80 → (lead &&& 0xC0 = 0x80 ↔ lead < 0xC0)) ∧
    (¬ lead < 0x80 → lead < 0xC0 → lead &&& 0x3F = lead - 0x80) ∧
    (¬ lead < 0xC0 → (lead &&& 0xE0 = 0xC0 ↔ lead < 0xE0)) ∧
    (¬ lead < 0xC0 → lead < 0xE0 → lead &&& 0x1F = lead - 0xC0) := by
  decide +kernel

/-- Bits above a byte and a byte below them add up. -/
theorem shiftLeft_or (n : Nat) {b bits : Nat} (h : b < 1 <<< bits) :
    n <<< bits ||| b = n * (1 <<< bits) + b := by
  rw [Nat.one_shiftLeft] at h ⊢
  rw [← Nat.shiftLeft_add_eq_or_of_lt h, Nat.shiftLeft_eq]

/-- A word of one byte is that byte. -/
theorem word_one_cons (b : UInt8) (rest : List UInt8) :
    word 1 (b :: rest) = .ok (b.toNat, rest) := by
  rw [word_eq_ok_iff]
  exact ⟨b.toNat_lt, by simp [toLittle]⟩

/-- Putting the bytes of a number together. -/
theorem two_bytes {high b : Nat} (lt : high < 0x40) (lt' : b < 0x100) :
    high <<< 8 % (1 <<< 32) ||| b = high * 0x100 + b := by
  rw [Nat.mod_eq_of_lt (by rw [Nat.shiftLeft_eq, Nat.one_shiftLeft]; omega)]
  exact shiftLeft_or high lt'

/-- The bytes of a wide form do not overlap, so they are put together by addition. -/
theorem four_bytes {high b₁ b₂ b₃ : Nat} (lt : high < 0x20) (lt₁ : b₁ < 0x100) (lt₂ : b₂ < 0x100)
    (lt₃ : b₃ < 0x100) :
    high <<< 24 % (1 <<< 32) ||| b₁ <<< 16 % (1 <<< 32) ||| b₂ <<< 8 % (1 <<< 32) ||| b₃ =
      high * 0x1000000 + b₁ * 0x10000 + b₂ * 0x100 + b₃ := by
  rw [Nat.mod_eq_of_lt (by rw [Nat.shiftLeft_eq, Nat.one_shiftLeft]; omega),
    Nat.mod_eq_of_lt (by rw [Nat.shiftLeft_eq, Nat.one_shiftLeft]; omega),
    Nat.mod_eq_of_lt (by rw [Nat.shiftLeft_eq, Nat.one_shiftLeft]; omega)]
  have low : b₂ <<< 8 ||| b₃ = b₂ * 0x100 + b₃ := shiftLeft_or b₂ lt₃
  have middle : b₁ <<< 16 ||| (b₂ * 0x100 + b₃) = b₁ * 0x10000 + (b₂ * 0x100 + b₃) :=
    shiftLeft_or b₁ (by rw [Nat.one_shiftLeft]; omega)
  have all : high <<< 24 ||| (b₁ * 0x10000 + (b₂ * 0x100 + b₃)) =
      high * 0x1000000 + (b₁ * 0x10000 + (b₂ * 0x100 + b₃)) :=
    shiftLeft_or high (by rw [Nat.one_shiftLeft]; omega)
  rw [Nat.or_assoc, Nat.or_assoc, low, middle, all]
  omega

/-- A byte that is there is handed on. -/
theorem word_one_bind {α : Type} (next : Nat → Reader α) (b : UInt8) (rest : List UInt8) :
    (word 1 >>= next) (b :: rest) = next b.toNat rest := by
  change (word 1 (b :: rest) >>= fun r => next r.1 r.2) = _
  rw [word_one_cons]
  rfl

/-- Reading byte by byte recognises the same numbers. -/
theorem bytewise_eq : bytewise = withLength := by
  funext bytes
  change bytewise bytes = (fun r => ((r.1.1, r.1.2.length), r.2)) <$> compressed bytes
  unfold bytewise compressed
  rcases bytes with _ | ⟨b, rest⟩
  · rfl
  · obtain ⟨one, two, low, four, low'⟩ := lead_cases b.toNat b.toNat_lt
    rw [word_one_bind, scan.eq_def]
    dsimp only
    by_cases h : b.toNat < 0x80
    · rw [if_pos (one.2 h), if_pos h]
      rfl
    rw [if_neg (mt one.1 h), if_neg h]
    by_cases h' : b.toNat < 0xC0
    · rw [if_pos ((two h).2 h'), if_pos h', low h h']
      rcases rest with _ | ⟨b₁, rest⟩
      · rfl
      · rw [word_one_bind, two_bytes (by omega) b₁.toNat_lt]
        rfl
    rw [if_neg (mt (two h).1 h'), if_neg h']
    by_cases h'' : b.toNat < 0xE0
    · rw [if_pos ((four h').2 h''), if_pos h'', low' h' h'']
      rcases rest with _ | ⟨b₁, _ | ⟨b₂, _ | ⟨b₃, rest⟩⟩⟩
      · rfl
      · rfl
      · rfl
      · rw [word_one_bind, word_one_bind, word_one_bind,
          four_bytes (by omega) b₁.toNat_lt b₂.toNat_lt b₃.toNat_lt]
        rfl
    · rw [if_neg (mt (four h').1 h''), if_neg h'', UInt8.ofNat_toNat]
      rfl

/-- A machine recognises a compressed number, and the number of its bytes. -/
theorem performs_readCompressed {data : List UInt8} (bounded : data.length < objectBound) :
    Performs data (readCompressed data) withLength := by
  rw [← bytewise_eq]
  have byte := performs_word bounded 1
  refine byte.bind fun lead => .ite (performs_pure _) (.ite ?_ (.ite ?_ (performs_fail _)))
  · exact byte.bind fun b => .exec_bind (shiftLeft_of_lt (by decide)) (performs_pure _)
  · refine byte.bind fun b₁ => byte.bind fun b₂ => byte.bind fun b₃ => ?_
    exact .exec_bind (shiftLeft_of_lt (by decide)) (.exec_bind (shiftLeft_of_lt (by decide))
      (.exec_bind (shiftLeft_of_lt (by decide)) (performs_pure _)))

/-- An unsigned number of any width is read without a trap. -/
theorem performs_unsigned {data : List UInt8} (bounded : data.length < objectBound) :
    Performs data (readUnsigned data) unsigned := by
  have same : unsigned = withLength >>= fun r => pure r.1 := by
    simp only [unsigned, withLength, bind_assoc, pure_bind]
  rw [same]
  exact (performs_readCompressed bounded).bind fun _ => performs_pure _

/-- A signed number with its width. -/
def signedWithWidth : Reader (Int × Width) := do
  let (stored, w) ← compressed
  return (w.unrotate stored, w)

/-- The bits in front of a negative number make it negative. -/
theorem bmod_signBits {w : Width} {half : Nat} (h : half < w.half) :
    Int.bmod (half ||| signBits w.length : Nat) UInt32.size = (half : Int) - w.half := by
  have sum : half ||| signBits w.length = UInt32.size - w.half + half := by
    rw [Nat.or_comm]
    cases w with
    | one => exact @shiftLeft_or 0x3FFFFFF half 6 h
    | two => exact @shiftLeft_or 0x7FFFF half 13 h
    | four => exact @shiftLeft_or 0xF half 28 h
  have small : w.half ≤ 0x10000000 := by cases w <;> decide
  have size : UInt32.size = 0x100000000 := rfl
  rw [sum, Int.bmod_def, size]
  rw [if_neg (by omega)]
  omega

/-- The signed number of a stored form, as a machine puts it together. -/
theorem signed_of_stored {w : Width} {stored : Nat} (h : stored < w.bound) :
    (if stored &&& 1 ≠ 0 then Int.bmod (stored >>> 1 ||| signBits w.length : Nat) UInt32.size
      else (stored >>> 1 : Nat)) = w.unrotate stored := by
  rw [w.bound_eq] at h
  rw [Nat.shiftRight_one, Nat.and_one_is_mod, Width.unrotate, bmod_signBits (by omega), ite_not]

/-- So is a signed one. -/
theorem performs_readSigned {data : List UInt8} (bounded : data.length < objectBound) :
    Performs data (readSigned data) (do return (← signedWithWidth).1) := by
  intro position le
  have agrees := performs_readCompressed bounded position le
  change Agrees data position _
    ((fun r => ((r.1.1, r.1.2.length), r.2)) <$> compressed (data.drop position)) at agrees
  change Agrees data position _ ((compressed (data.drop position) >>= _) >>= _)
  cases result : compressed (data.drop position) with
  | error e =>
      rw [result] at agrees
      rw [readSigned, bind_apply_fail agrees.eq_fail]
      exact .failed e
  | ok r =>
      rcases r with ⟨⟨stored, w⟩, rest⟩
      rw [result] at agrees
      obtain ⟨stop, le', inside, rfl, found⟩ := agrees.exists_stop
      rw [readSigned, bind_apply found]
      dsimp only
      rw [exec_bind_apply (shiftRight_of_lt (by decide)),
        signed_of_stored (compressed_eq_ok_iff.1 result).1]
      exact .done _ le' inside

/-- A machine that compares the number of bytes of a number with that of its narrowest form refuses
what a reader refuses that compares the widths. -/
theorem performs_readMinimal {α : Type} {data : List UInt8} {read : Scan α}
    {reader : Reader (α × Width)} {form : α → Exec (List UInt8)} {narrowest : α → Option Width}
    (performs : Performs data read (do return (← reader).1))
    (consumes : ∀ bytes r rest, reader bytes = .ok (r, rest) →
      rest.length + r.2.length = bytes.length)
    (written : ∀ bytes r rest, reader bytes = .ok (r, rest) →
      ∃ w bytes, narrowest r.1 = some w ∧ form r.1 = pure bytes ∧ bytes.length = w.length)
    (defect : α → Defect) :
    Performs data (readMinimal read form defect)
      (reader >>= fun r => if narrowest r.1 = some r.2 then pure r.1
        else throw (.malformed (defect r.1))) := by
  intro position le
  have agrees := performs position le
  change Agrees data position _ (reader (data.drop position) >>= _)
  change Agrees data position _ ((fun r => (r.1.1, r.2)) <$> reader (data.drop position)) at agrees
  cases result : reader (data.drop position) with
  | error e =>
      rw [result] at agrees
      rw [readMinimal, get_bind_apply, bind_apply_fail agrees.eq_fail]
      exact .failed e
  | ok r =>
      rcases r with ⟨⟨value, width⟩, rest⟩
      rw [result] at agrees
      obtain ⟨stop, le', inside, rfl, found⟩ := agrees.exists_stop
      obtain ⟨w, bytes, narrow, through, length⟩ := written _ _ _ result
      have total := consumes _ _ _ result
      simp only [List.length_drop] at total
      have same : stop - position = bytes.length ↔ narrowest value = some width := by
        have injective : w.length = width.length ↔ w = width := by
          cases w <;> cases width <;> decide
        rw [narrow, Option.some.injEq, ← injective, length]
        omega
      rw [readMinimal, get_bind_apply, bind_apply found, exec_bind_apply through, get_bind_apply,
        exec_bind_apply (sub_of_le le')]
      change Agrees data position _
        ((if narrowest value = some width then _ else _ : Reader α) (data.drop stop))
      by_cases equal : stop - position = bytes.length
      · rw [if_pos equal, if_pos (same.1 equal)]
        exact .done _ le' inside
      · rw [if_neg equal, if_neg (mt same.2 equal)]
        exact .failed _

/-- A number that was read with its width has a narrowest form. -/
theorem exists_form_of_compressed {bytes rest : List UInt8} {n : Nat} {w : Width}
    (h : compressed bytes = .ok ((n, w), rest)) :
    ∃ narrowest form, Width.ofUnsigned? n = some narrowest ∧
      ofExcept (encodeUnsigned n) = pure form ∧ form.length = narrowest.length := by
  obtain ⟨narrowest, narrow, -⟩ := Width.exists_ofUnsigned?_of_lt (compressed_eq_ok_iff.1 h).1
  exact ⟨narrowest, _, narrow, by rw [encodeUnsigned, narrow]; rfl, length_put _ _⟩

/-- A number takes as many bytes as its width says. -/
theorem length_of_compressed {bytes rest : List UInt8} {r : Nat × Width}
    (h : compressed bytes = .ok (r, rest)) : rest.length + r.2.length = bytes.length := by
  obtain ⟨n, w⟩ := r
  obtain ⟨-, rfl⟩ := compressed_eq_ok_iff.1 h
  rw [List.length_append, length_put, Nat.add_comm]

/-- An unsigned number in its narrowest form is read without a trap. -/
theorem performs_minimalUnsigned {data : List UInt8} (bounded : data.length < objectBound) :
    Performs data (readMinimalUnsigned data) minimalUnsigned :=
  performs_readMinimal (performs_unsigned bounded) (fun _ _ _ => length_of_compressed)
    (fun _ _ _ => exists_form_of_compressed) .unsignedNotMinimal

/-- The shifts that a machine makes for the form of a signed number go through. -/
theorem signedForm_eq (n : Int) : signedForm n = ofExcept (encodeSigned n) := by
  rw [signedForm, shiftRight_of_lt (by decide), shiftLeft_of_lt (by decide)]
  rfl

/-- A signed number that was read with its width has a narrowest form. -/
theorem exists_form_of_signedWithWidth {bytes rest : List UInt8} {n : Int} {w : Width}
    (h : signedWithWidth bytes = .ok ((n, w), rest)) :
    ∃ narrowest form, Width.ofSigned? n = some narrowest ∧
      signedForm n = pure form ∧ form.length = narrowest.length := by
  obtain ⟨⟨stored, width⟩, middle, read, eq⟩ := bind_eq_ok_iff.1 h
  obtain ⟨⟨⟩, rfl⟩ := pure_eq_ok_iff.1 eq
  have held := Width.holds_unrotate (compressed_eq_ok_iff.1 read).1
  obtain ⟨narrowest, narrow, -⟩ := Width.exists_ofSigned?_of_holds held
  exact ⟨narrowest, _, narrow, by rw [signedForm_eq, encodeSigned, narrow]; rfl, length_put _ _⟩

/-- So is a signed one. -/
theorem performs_minimalSigned {data : List UInt8} (bounded : data.length < objectBound) :
    Performs data (readMinimalSigned data) minimalSigned := by
  have same : minimalSigned = signedWithWidth >>= fun r =>
      if Width.ofSigned? r.1 = some r.2 then pure r.1
      else throw (.malformed (.signedNotMinimal r.1)) := by
    simp only [minimalSigned, signedWithWidth, bind_assoc, pure_bind]
  rw [same]
  refine performs_readMinimal (performs_readSigned bounded) (fun bytes r rest h => ?_)
    (fun _ _ _ => exists_form_of_signedWithWidth) .signedNotMinimal
  obtain ⟨found, middle, read, eq⟩ := bind_eq_ok_iff.1 h
  obtain ⟨rfl, rfl⟩ := pure_eq_ok_iff.1 eq
  exact length_of_compressed read

/-! ### Progress -/

/-- Every form takes one byte at least. -/
theorem advances_readCompressed (data : List UInt8) : Advances 1 (readCompressed data) := by
  have byte : Advances 0 (readWord data 1) := (advances_readWord 1).mono (Nat.zero_le _)
  refine (advances_readWord 1).bind (n := 0) fun lead =>
    .ite (advances_pure _) (.ite ?_ (.ite ?_ (advances_fail _ _)))
  · exact byte.bind fun _ => (advances_exec _).bind fun _ => advances_pure _
  · exact byte.bind fun _ => byte.bind fun _ => byte.bind fun _ => (advances_exec _).bind fun _ =>
      (advances_exec _).bind fun _ => (advances_exec _).bind fun _ => advances_pure _

/-- So does that of an unsigned number. -/
theorem advances_readUnsigned (data : List UInt8) : Advances 1 (readUnsigned data) :=
  (advances_readCompressed data).bind fun _ => advances_pure _

/-- So does that of a signed number. -/
theorem advances_readSigned (data : List UInt8) : Advances 1 (readSigned data) :=
  (advances_readCompressed data).bind (n := 0) fun _ =>
    (advances_exec _).bind fun _ => advances_pure _

/-- Checking that a form is the narrowest one takes no bytes. -/
theorem advances_readMinimal {α : Type} {least : Nat} {read : Scan α} (h : Advances least read)
    (form : α → Exec (List UInt8)) (defect : α → Defect) :
    Advances least (readMinimal read form defect) := by
  have position : Advances 0 (get : Scan Nat) := moves_get.advances
  refine (position.bind (n := least) fun start => h.bind (n := 0) fun value => ?_).mono (by omega)
  exact (advances_exec _).bind fun _ => position.bind fun stop => (advances_exec _).bind fun _ =>
    .ite (advances_pure _) (advances_fail _ _)

end SymbolHistory.Machine
