import SymbolHistory.Heap.Blob
import SymbolHistory.Layout.Row
import SymbolHistory.LineTable.Decode

/-!
# Debug information of methods

The line table of a method stays in its stored form and is decoded when somebody asks for it.

## Main definitions

* `MethodDebug` : the debug information of a method, with `MethodRow.resolve` for its stored form.
* `MethodDebug.points`, `MethodDebug.localSignature` : what the line table says.
-/

namespace SymbolHistory

/-- The debug information of a method. -/
structure MethodDebug where
  /-- The number of its row, from 1. -/
  rid : UInt32
  /-- The token of its row. -/
  token : Token
  /-- The document of the method; 0 if the line table names it, or if there is none. -/
  document : UInt32
  /-- The stored line table. -/
  lineTable : Option (List UInt8)
  deriving DecidableEq

namespace MethodDebug

/-- The debug information with a given line table. -/
def ofLineTable (rid document : UInt32) (lineTable : Option (List UInt8)) : MethodDebug :=
  ⟨rid, .ofRow .methodDebugInformation rid, document, lineTable⟩

/-- The document column, `none` if it is nil. -/
def column (method : MethodDebug) : Option UInt32 :=
  if method.document = 0 then none else some method.document

/-- The sequence points; without a line table there are none. -/
def points (method : MethodDebug) : Except Error (List SequencePoint) :=
  match method.lineTable with
  | none => .ok []
  | some stored => (·.points) <$> LineTable.decode stored method.column

/-- The token of the local signature, if there is one. -/
def localSignature (method : MethodDebug) : Except Error (Option Token) :=
  match method.lineTable with
  | none => .ok none
  | some stored => do
    let (header, _) ← LineTable.readHeader method.column stored
    if header.localSignature = 0 then return none
    else return some (.ofRow .standAloneSig header.localSignature)

end MethodDebug

/-- The debug information of a stored row. -/
def MethodRow.resolve (row : MethodRow) (blobs : BlobHeap) : Except Error MethodDebug := do
  if row.lineTable = 0 then
    return ⟨row.rid, row.token, row.document, none⟩
  else
    return ⟨row.rid, row.token, row.document, some (← blobs.get row.lineTable.toNat)⟩

end SymbolHistory
