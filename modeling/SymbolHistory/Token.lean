import SymbolHistory.Text.Hex

/-!
# Metadata tables and tokens

A token names one row of one table: the table number stands in the high byte and the 1-based row
number in the low 24 bits. Tokens mean something only together with the metadata they were read
from; identities that last longer are in `SymbolHistory.Identity`.

## Main definitions

* `Table` : the tables that debug metadata has or refers to, with their fixed numbers.
* `Token` : a reference to a row, with its two parts and its texts.

## Main results

* `Token.row_ofRow`, `Token.table_ofRow` : a token built from a table and a row has these
  parts, the row cut to 24 bits.
-/

namespace SymbolHistory

/-- The tables that debug metadata has or refers to. -/
inductive Table where
  /-- The methods of the module, which live in the module's own metadata. -/
  | methodDef
  /-- The signatures of the module, which local signatures refer to. -/
  | standAloneSig
  /-- The log of an update. -/
  | encLog
  /-- The rows that an update adds or replaces, in order. -/
  | encMap
  /-- Source documents. -/
  | document
  /-- Debug information, one row per method. -/
  | methodDebugInformation
  deriving DecidableEq, Repr

namespace Table

/-- Every table, by ascending number. -/
def all : List Table :=
  [methodDef, standAloneSig, encLog, encMap, document, methodDebugInformation]

/-- The number of a table in the format. -/
def number : Table → Nat
  | methodDef => 0x06
  | standAloneSig => 0x11
  | encLog => 0x1E
  | encMap => 0x1F
  | document => 0x30
  | methodDebugInformation => 0x31

/-- The name of a table in the format. -/
def name : Table → String
  | methodDef => "MethodDef"
  | standAloneSig => "StandAloneSig"
  | encLog => "EncLog"
  | encMap => "EncMap"
  | document => "Document"
  | methodDebugInformation => "MethodDebugInformation"

/-- Table numbers have six bits, so a 64-bit mask has one bit for each table. -/
theorem number_lt (table : Table) : table.number < 64 := by
  cases table <;> decide

/-- Tables are told apart by their numbers. -/
theorem number_inj {a b : Table} : a.number = b.number ↔ a = b := by
  cases a <;> cases b <;> decide

end Table

/-- A reference to a row of a metadata table. -/
structure Token where
  /-- The 32-bit form: table number in the high byte, row number in the other three. -/
  value : UInt32
  deriving DecidableEq, Repr

namespace Token

/-- The token of row `row` of `table`; of the row only the low 24 bits are kept. -/
def ofRow (table : Table) (row : UInt32) : Token :=
  ⟨UInt32.ofNat (table.number * 0x1000000 + row.toNat % 0x1000000)⟩

/-- The table number of a token. -/
def table (token : Token) : Nat :=
  token.value.toNat / 0x1000000

/-- The row number of a token. -/
def row (token : Token) : UInt32 :=
  UInt32.ofNat (token.value.toNat % 0x1000000)

/-- Whether a token refers to a row of `table`. -/
def refersTo (token : Token) (table : Table) : Bool :=
  token.table == table.number

/-- Whether a token is the null token, which refers to nothing. -/
def isNull (token : Token) : Bool :=
  token.value == 0

/-- A token is written as eight hexadecimal digits. -/
def text (token : Token) : String :=
  "0x" ++ Text.hexPadded 8 token.value.toNat

/-- A token with its two parts spelled out. -/
def describe (token : Token) : String :=
  "Token(" ++ token.text ++ ", table: 0x" ++ Text.hexPadded 2 token.table ++
    ", row: " ++ toString token.row.toNat ++ ")"

theorem toNat_value_ofRow (table : Table) (row : UInt32) :
    (ofRow table row).value.toNat = table.number * 0x1000000 + row.toNat % 0x1000000 := by
  have := table.number_lt
  simp only [ofRow, UInt32.toNat_ofNat']
  omega

/-- A token built for a table refers to that table. -/
@[simp] theorem table_ofRow (t : Table) (row : UInt32) : (ofRow t row).table = t.number := by
  simp only [Token.table, toNat_value_ofRow]
  omega

/-- A token built for a row has that row, cut to 24 bits. -/
@[simp] theorem toNat_row_ofRow (table : Table) (row : UInt32) :
    (ofRow table row).row.toNat = row.toNat % 0x1000000 := by
  simp only [Token.row, toNat_value_ofRow, UInt32.toNat_ofNat']
  omega

/-- A token built for a table refers to no other table. -/
theorem refersTo_ofRow (a b : Table) (row : UInt32) :
    (ofRow a row).refersTo b = decide (a = b) := by
  by_cases h : a = b
  · simp [refersTo, h]
  · simp [refersTo, h, Table.number_inj]

end Token

end SymbolHistory
