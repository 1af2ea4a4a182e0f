import SymbolHistory.Proofs.Bytes.Compressed
import Mathlib.Data.Nat.Bitwise

/-!
# Compressed numbers written with masks

On words of 32 bits, the narrowest form of a number is found with masks: a signed number fits into a
width if its bits above those of the width are all like its sign, and the tag of the width is a bit
pattern that is or-ed to the number. This is the arithmetic of the library, done bit by bit.

## Main definitions

* `Width.tagged` : the bytes of a word in a width, with the tag of that width.
* `Width.Fits`, `Width.stored` : whether a width has room for a signed word, and what it holds then.
* `wordForm`, `signedWordForm` : the narrowest forms of words.

## Main results

* `Width.fits_iff` : a mask test is a range test.
* `wordForm_eq`, `signedWordForm_eq` : these forms are the ones of the library.
-/

namespace SymbolHistory.Bytes

/-! ### Forms of words -/

/-- The two bytes of a word, most significant byte first. -/
def bigEndian16 (word : UInt16) : List UInt8 :=
  [(word >>> 8).toUInt8, word.toUInt8]

/-- The four bytes of a word, most significant byte first. -/
def bigEndian32 (word : UInt32) : List UInt8 :=
  [(word >>> 24).toUInt8, (word >>> 16).toUInt8, (word >>> 8).toUInt8, word.toUInt8]

namespace Width

/-- The bytes of a word in a width, with the tag of that width. -/
def tagged : Width → UInt32 → List UInt8
  | one, word => [word.toUInt8]
  | two, word => bigEndian16 (0x8000 ||| word.toUInt16)
  | four, word => bigEndian32 (0xC0000000 ||| word)

/-- The bits of a signed number in a width, apart from its sign. -/
def magnitudeBits : Width → Nat
  | one => 6
  | two => 13
  | four => 28

/-- A mask for these bits. -/
def mask (w : Width) : Int32 :=
  1 <<< Int32.ofNat w.magnitudeBits - 1

end Width

/-- All bits set for a negative word, none for another. -/
def signMask (word : Int32) : Int32 :=
  word >>> 31

namespace Width

/-- Outside the mask of a width, all bits of a word are like its sign. -/
def Fits (w : Width) (word : Int32) : Prop :=
  word &&& ~~~w.mask = signMask word &&& ~~~w.mask

instance (w : Width) (word : Int32) : Decidable (w.Fits word) :=
  inferInstanceAs (Decidable (_ = _))

/-- The bits of a word inside the mask of a width, above its sign. -/
def stored (w : Width) (word : Int32) : UInt32 :=
  (((word &&& w.mask) <<< 1) ||| (signMask word &&& 1)).toUInt32

end Width

/-- The narrowest form of a word. -/
def wordForm (word : UInt32) : Except Error (List UInt8) :=
  if word ≤ 0x7F then .ok (Width.one.tagged word)
  else if word ≤ 0x3FFF then .ok (Width.two.tagged word)
  else if word ≤ 0x1FFFFFFF then .ok (Width.four.tagged word)
  else .error (.malformed (.unsignedTooLarge word.toNat))

/-- The narrowest form of a signed word. -/
def signedWordForm (word : Int32) : Except Error (List UInt8) :=
  if Width.one.Fits word then .ok (Width.one.tagged (Width.one.stored word))
  else if Width.two.Fits word then .ok (Width.two.tagged (Width.two.stored word))
  else if Width.four.Fits word then .ok (Width.four.tagged (Width.four.stored word))
  else .error (.malformed (.signedTooLarge word.toInt))

/-! ### Tags -/

/-- A byte of a number does not change when a multiple of 256 is added. -/
theorem ofNat_add_mul (n k : Nat) : UInt8.ofNat (0x100 * k + n) = UInt8.ofNat n :=
  ofNat_eq_of_mod (by rw [UInt8.toNat_ofNat', Nat.mul_add_mod])

theorem bigEndian16_eq (word : UInt16) :
    bigEndian16 word = [UInt8.ofNat (word.toNat / 0x100), UInt8.ofNat word.toNat] := by
  rw [bigEndian16]
  congr 1
  rw [← UInt8.toNat_inj, UInt16.toNat_toUInt8, UInt16.toNat_shiftRight, UInt8.toNat_ofNat',
    Nat.shiftRight_eq_div_pow]
  rfl

theorem bigEndian32_eq (word : UInt32) :
    bigEndian32 word = [UInt8.ofNat (word.toNat / 0x1000000), UInt8.ofNat (word.toNat / 0x10000),
      UInt8.ofNat (word.toNat / 0x100), UInt8.ofNat word.toNat] := by
  have byte (shift : UInt32) : (word >>> shift).toUInt8 =
      UInt8.ofNat (word.toNat / 2 ^ (shift.toNat % 32)) := by
    rw [← UInt8.toNat_inj, UInt32.toNat_toUInt8, UInt32.toNat_shiftRight, UInt8.toNat_ofNat',
      Nat.shiftRight_eq_div_pow]
  rw [bigEndian32, byte, byte, byte]
  rfl

/-- A tag and a number below it add up. -/
theorem tag_or (tag bits : Nat) {n : Nat} (h : n < 2 ^ bits) :
    2 ^ bits * tag ||| n = 2 ^ bits * tag + n := by
  rw [Nat.mul_comm, ← Nat.shiftLeft_eq, Nat.shiftLeft_add_eq_or_of_lt h]

/-- A tagged word has the bytes of its number in that width. -/
theorem Width.tagged_eq_put {w : Width} {word : UInt32} (h : word.toNat < w.bound) :
    w.tagged word = w.put word.toNat := by
  cases w with
  | one =>
      rw [tagged, put]
      rfl
  | two =>
      rw [bound] at h
      have whole : (0x8000 ||| word.toUInt16).toNat = 0x8000 + word.toNat := by
        rw [UInt16.toNat_or, UInt32.toNat_toUInt16, Nat.mod_eq_of_lt (by omega)]
        exact tag_or 2 14 h
      rw [tagged, bigEndian16_eq, put, whole, ofNat_add_mul _ 0x80]
      congr 2
      omega
  | four =>
      rw [bound] at h
      have whole : (0xC0000000 ||| word).toNat = 0xC0000000 + word.toNat := by
        rw [UInt32.toNat_or]
        exact tag_or 6 29 h
      rw [tagged, bigEndian32_eq, put, whole, ofNat_add_mul _ 0xC00000]
      have lead : (0xC0000000 + word.toNat) / 0x1000000 = 0xC0 + word.toNat / 0x1000000 := by omega
      have second : (0xC0000000 + word.toNat) / 0x10000 = 0x100 * 0xC0 + word.toNat / 0x10000 := by
        omega
      have third : (0xC0000000 + word.toNat) / 0x100 = 0x100 * 0xC000 + word.toNat / 0x100 := by
        omega
      rw [lead, second, third, ofNat_add_mul, ofNat_add_mul]

/-! ### Signs -/

/-- Words agree above some bits if they do so as quotients. -/
theorem and_not_eq_iff {x y mask : BitVec 32} {bits : Nat} (eq : mask.toNat = 2 ^ bits - 1) :
    x &&& ~~~mask = y &&& ~~~mask ↔ x.toNat / 2 ^ bits = y.toNat / 2 ^ bits := by
  have low (i : Nat) : mask.getLsbD i = decide (i < bits) := by
    rw [← BitVec.testBit_toNat, eq, Nat.testBit_two_pow_sub_one]
  constructor
  · intro h
    refine Nat.eq_of_testBit_eq fun i => ?_
    have bit := congrArg (·.getLsbD (i + bits)) h
    have above : ¬ i + bits < bits := Nat.not_lt.2 (Nat.le_add_left bits i)
    simp only [BitVec.getLsbD_and, BitVec.getLsbD_not, low, above, decide_false, Bool.not_false,
      Bool.and_true] at bit
    rw [Nat.testBit_div_two_pow, Nat.testBit_div_two_pow, BitVec.testBit_toNat,
      BitVec.testBit_toNat]
    by_cases inside : i + bits < 32
    · simpa [inside] using bit
    · rw [BitVec.getLsbD_of_ge _ _ (by omega), BitVec.getLsbD_of_ge _ _ (by omega)]
  · intro h
    refine BitVec.eq_of_getLsbD_eq fun i inside => ?_
    rw [BitVec.getLsbD_and, BitVec.getLsbD_and, BitVec.getLsbD_not, low]
    by_cases above : bits ≤ i
    · have bit := congrArg (·.testBit (i - bits)) h
      simp only [Nat.testBit_div_two_pow, Nat.sub_add_cancel above, BitVec.testBit_toNat] at bit
      rw [bit]
    · rw [decide_eq_true (by omega : i < bits), Bool.not_true, Bool.and_false, Bool.and_false,
        Bool.and_false]

/-- The sign of a word, in all of its bits. -/
theorem toNat_sshiftRight_sign (x : BitVec 32) :
    (x.sshiftRight 31).toNat = if x.toInt < 0 then 2 ^ 32 - 1 else 0 := by
  have shifted : (x.sshiftRight 31).toInt = x.toInt / 2 ^ 31 := by
    rw [BitVec.toInt_sshiftRight, Int.shiftRight_eq_div_pow]
    rfl
  have lower := BitVec.le_toInt x
  have upper := BitVec.toInt_lt (x := x)
  have := (x.sshiftRight 31).isLt
  rw [BitVec.toInt_eq_toNat_cond] at shifted
  split <;> split at shifted <;> omega

theorem toNat_signMask (word : Int32) :
    (signMask word).toBitVec.toNat = if word.toInt < 0 then 2 ^ 32 - 1 else 0 := by
  rw [signMask, Int32.toBitVec_shiftRight]
  exact toNat_sshiftRight_sign word.toBitVec

namespace Width

theorem toNat_mask (w : Width) : w.mask.toBitVec.toNat = 2 ^ w.magnitudeBits - 1 := by
  cases w <;> rfl

/-- **A mask test is a range test.** -/
theorem fits_iff (w : Width) (word : Int32) : w.Fits word ↔ w.Holds word.toInt := by
  have lower := BitVec.le_toInt word.toBitVec
  have upper := BitVec.toInt_lt (x := word.toBitVec)
  have number := BitVec.toInt_eq_toNat_cond word.toBitVec
  rw [Int32.toInt_toBitVec] at lower upper number
  rw [Fits, Holds, ← Int32.toBitVec_inj, Int32.toBitVec_and, Int32.toBitVec_and, Int32.toBitVec_not,
    and_not_eq_iff w.toNat_mask, toNat_signMask]
  cases w <;> simp only [half, magnitudeBits] <;> split at number <;> split <;> omega

/-- What a width holds of a word is the stored form of its number. -/
theorem toNat_stored (w : Width) (word : Int32) : (w.stored word).toNat = w.rotate word.toInt := by
  have number := BitVec.toInt_eq_toNat_cond word.toBitVec
  rw [Int32.toInt_toBitVec] at number
  have sign : (signMask word &&& 1).toBitVec.toNat = if word.toInt < 0 then 1 else 0 := by
    rw [Int32.toBitVec_and, BitVec.toNat_and, toNat_signMask]
    split <;> rfl
  have low : (word &&& w.mask).toBitVec.toNat = word.toBitVec.toNat % 2 ^ w.magnitudeBits := by
    rw [Int32.toBitVec_and, BitVec.toNat_and, toNat_mask, Nat.and_two_pow_sub_one_eq_mod]
  have shifted : ((word &&& w.mask) <<< 1).toBitVec.toNat =
      2 * (word.toBitVec.toNat % 2 ^ w.magnitudeBits) := by
    rw [Int32.toBitVec_shiftLeft]
    change ((word &&& w.mask).toBitVec <<< 1).toNat = _
    rw [BitVec.toNat_shiftLeft, low, Nat.shiftLeft_eq, Nat.mul_comm, Nat.mod_eq_of_lt]
    cases w <;> simp only [magnitudeBits] <;> omega
  have sum : (w.stored word).toNat = 2 * (word.toBitVec.toNat % 2 ^ w.magnitudeBits) +
      if word.toInt < 0 then 1 else 0 := by
    change (((word &&& w.mask) <<< 1) ||| (signMask word &&& 1)).toBitVec.toNat = _
    rw [Int32.toBitVec_or, BitVec.toNat_or, shifted, sign]
    exact tag_or _ 1 (by split <;> decide)
  rw [sum, rotate]
  cases w <;> simp only [half, magnitudeBits] <;> split at number <;> split <;> omega

end Width

/-! ### The forms of the library -/

/-- **The narrowest form of a word is that of its number.** -/
theorem wordForm_eq (word : UInt32) : wordForm word = encodeUnsigned word.toNat := by
  have one : word ≤ 0x7F ↔ word.toNat < Width.one.bound :=
    UInt32.le_iff_toNat_le.trans Nat.lt_succ_iff.symm
  have two : word ≤ 0x3FFF ↔ word.toNat < Width.two.bound :=
    UInt32.le_iff_toNat_le.trans Nat.lt_succ_iff.symm
  have four : word ≤ 0x1FFFFFFF ↔ word.toNat < Width.four.bound :=
    UInt32.le_iff_toNat_le.trans Nat.lt_succ_iff.symm
  rw [wordForm, encodeUnsigned, Width.ofUnsigned?]
  simp only [one, two, four]
  split
  · next held => rw [Width.tagged_eq_put held]
  · split
    · next held => rw [Width.tagged_eq_put held]
    · split
      · next held => rw [Width.tagged_eq_put held]
      · rfl

/-- **The narrowest form of a signed word is that of its number.** -/
theorem signedWordForm_eq (word : Int32) : signedWordForm word = encodeSigned word.toInt := by
  rw [signedWordForm, encodeSigned, Width.ofSigned?]
  have form (w : Width) : w.tagged (w.stored word) = w.put (w.rotate word.toInt) := by
    rw [← Width.toNat_stored]
    exact Width.tagged_eq_put (Width.toNat_stored w word ▸ w.rotate_lt word.toInt)
  simp only [Width.fits_iff, form]
  split
  · rfl
  · split
    · rfl
    · split <;> rfl

end SymbolHistory.Bytes
