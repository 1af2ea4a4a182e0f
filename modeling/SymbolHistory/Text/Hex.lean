/-!
# Hexadecimal text

Lower-case hexadecimal numerals, bare or padded with zeros to a least width, and the spelling of
byte strings as two digits per byte.

## Main definitions

* `hexDigits n` : the digits of `n`, without leading zeros.
* `hexPadded w n` : the same, with zeros in front up to `w` digits.
* `hexBytes bs` : two digits for each byte.
-/

namespace SymbolHistory.Text

/-- The hexadecimal digits of `n`, lower-case and without leading zeros; zero is `0`. -/
def hexDigits (n : Nat) : String :=
  String.ofList (Nat.toDigits 16 n)

/-- The hexadecimal digits of `n`, with zeros in front until there are at least `width`. -/
def hexPadded (width n : Nat) : String :=
  let digits := Nat.toDigits 16 n
  String.ofList (List.replicate (width - digits.length) '0' ++ digits)

/-- A byte string as two hexadecimal digits per byte. -/
def hexBytes (bytes : List UInt8) : String :=
  String.ofList (bytes.flatMap fun b => [(b.toNat / 16).digitChar, (b.toNat % 16).digitChar])

/-- A byte string of `n` bytes is written in `2 * n` digits. -/
theorem length_hexBytes (bytes : List UInt8) : (hexBytes bytes).length = 2 * bytes.length := by
  induction bytes with
  | nil => rfl
  | cons b bs ih =>
    simp_all [hexBytes]
    omega

end SymbolHistory.Text
