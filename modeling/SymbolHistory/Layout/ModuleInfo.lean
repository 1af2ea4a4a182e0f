import SymbolHistory.Layout.RowCounts

/-!
# The module that symbols belong to

The first generation of symbols says which module it belongs to: an identifier, the entry point and
the sizes of the module's own tables, which live in another file.

## Main definitions

* `ModuleInfo` : what symbols say about their module.
* `ModuleInfo.decode`, `ModuleInfo.encode` : its stored form, the stream `#Pdb`.
-/

namespace SymbolHistory

open Bytes

/-- What symbols say about the module that they belong to. -/
structure ModuleInfo where
  /-- The identifier that the module repeats. -/
  id : Vector UInt8 20
  /-- The method that the program starts with, or the null token. -/
  entryPoint : Token
  /-- The tables that the module has. -/
  referenced : UInt64
  /-- How many rows they have. -/
  rows : RowCounts
  deriving DecidableEq

namespace ModuleInfo

/-- Reads what a module info says; the entry point has to be a method if there is one. -/
def read : Reader ModuleInfo := do
  let id ← take 20
  let entryPoint : Token := ⟨← word32⟩
  if entryPoint.isNull || entryPoint.refersTo .methodDef then
    let referenced ← word64
    let rows ← RowCounts.read referenced
    return ⟨Vector.ofFn fun i => id[i.val]?.getD 0, entryPoint, referenced, rows⟩
  else
    throw (.malformed (.entryPoint entryPoint))

/-- The module info in a stream. Before anything else there have to be the 32 bytes in front of the
row counts; what follows the counts is ignored. -/
def decode (stream : List UInt8) : Except Error ModuleInfo :=
  if (stream.take 32).length < 32 then .error .outOfBounds
  else (·.1) <$> read stream

/-- The stored form of a module info. -/
def encode (info : ModuleInfo) : List UInt8 :=
  info.id.toList ++ toLittle 4 info.entryPoint.value.toNat ++
    toLittle 8 info.referenced.toNat ++ info.rows.encode info.referenced

end ModuleInfo

end SymbolHistory
