import SymbolHistory.Bytes.Word

/-!
# GUIDs

Identifiers of sixteen bytes. In text the first three groups of digits are numbers stored with the
least significant byte first; the last two groups spell out the bytes in order.

## Main definitions

* `Guid` : sixteen bytes, with `Guid.ofFields`, `Guid.ofBytes` and `Guid.text`.
* `Guid.sha1`, `Guid.sha256` : hash algorithms of documents.
* `Guid.csharp`, `Guid.visualBasic`, `Guid.fsharp` : languages of documents.
-/

namespace SymbolHistory

/-- An identifier of sixteen bytes. -/
structure Guid where
  /-- The bytes as they are stored. -/
  bytes : Vector UInt8 16
  deriving DecidableEq, Repr

namespace Guid

open Bytes

instance : Hashable Guid where
  hash guid := hash guid.bytes.toList

/-- The GUID that means "none". -/
def nil : Guid :=
  ⟨Vector.replicate 16 0⟩

/-- The GUID stored in the first sixteen of `bytes`; missing ones count as 0. -/
def ofBytes (bytes : List UInt8) : Guid :=
  ⟨Vector.ofFn fun i => bytes[i.val]?.getD 0⟩

/-- The stored form. -/
def toBytes (guid : Guid) : List UInt8 :=
  guid.bytes.toList

/-- The GUID whose text has the groups `a`, `b`, `c` and, taken together, the last two groups. -/
def ofFields (a b c tail : Nat) : Guid :=
  .ofBytes (toLittle 4 a ++ toLittle 2 b ++ toLittle 2 c ++ (toLittle 8 tail).reverse)

/-- The text of a GUID: lower-case digits in groups of 8, 4, 4, 4 and 12. -/
def text (guid : Guid) : String :=
  let bytes := guid.toBytes
  let group (start length : Nat) := (bytes.drop start).take length
  "-".intercalate [Text.hexBytes (group 0 4).reverse, Text.hexBytes (group 4 2).reverse,
    Text.hexBytes (group 6 2).reverse, Text.hexBytes (group 8 2), Text.hexBytes (group 10 6)]

/-- The hash algorithm SHA-1. -/
def sha1 : Guid := ofFields 0xff1816ec 0xaa5e 0x4d10 0x87f76f4963833460

/-- The hash algorithm SHA-256. -/
def sha256 : Guid := ofFields 0x8829d00f 0x11b8 0x4213 0x878b770e8597ac16

/-- The language C#. -/
def csharp : Guid := ofFields 0x3f5162f8 0x07c6 0x11d3 0x905300c04fa302a1

/-- The language Visual Basic. -/
def visualBasic : Guid := ofFields 0x3a12d0b8 0xc26c 0x11d0 0xb44200a0244a1dd2

/-- The language F#. -/
def fsharp : Guid := ofFields 0xab4f38c9 0xb6e6 0x43ba 0xbe3b58080b2ccce3

@[simp] theorem length_toBytes (guid : Guid) : guid.toBytes.length = 16 := by
  simp [toBytes]

/-- A GUID is read back from its stored form. -/
@[simp] theorem ofBytes_toBytes (guid : Guid) : ofBytes guid.toBytes = guid := by
  rcases guid with ⟨bytes⟩
  simp only [ofBytes, toBytes, Guid.mk.injEq]
  ext i hi
  simp

/-- Sixteen bytes are the stored form of their GUID. -/
theorem toBytes_ofBytes {bytes : List UInt8} (h : bytes.length = 16) :
    (ofBytes bytes).toBytes = bytes := by
  apply List.ext_getElem
  · simp [h]
  · intro i h₁ h₂
    simp [ofBytes, toBytes, h₂]

end Guid

end SymbolHistory
