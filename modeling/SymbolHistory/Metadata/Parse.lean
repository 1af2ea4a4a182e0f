import SymbolHistory.Metadata.Basic
import SymbolHistory.Layout.Root
import SymbolHistory.Layout.TableStream

/-!
# Reading debug metadata

## Main definitions

* `Metadata.parse` : the debug metadata in a string of bytes.
-/

namespace SymbolHistory.Metadata

/-- The value of an optional stream, or a default where there is no such stream. -/
def streamOr {α : Type} (stream : Option (List UInt8)) (absent : α)
    (decode : List UInt8 → Except Error α) : Except Error α :=
  match stream with
  | some bytes => decode bytes
  | none => .ok absent

/-- The debug metadata in a string of bytes. -/
def parse (data : List UInt8) : Except Error Metadata := do
  let root ← Root.parse data
  match (root.stream? data .tables).or (root.stream? data .editTables) with
  | none => throw (.malformed .noTables)
  | some stream =>
    let allWide := root.headers.any (·.name = .minimalDelta)
    let tables ← TableStream.parse stream allWide
    let blobs ← streamOr (root.stream? data .blob) .empty BlobHeap.ofBytes
    let guids ← streamOr (root.stream? data .guid) .empty GuidHeap.ofBytes
    let module ← streamOr (root.stream? data .pdb) none (some <$> ModuleInfo.decode ·)
    let documents ← (← tables.rows DocumentRow).mapM (·.resolve blobs guids)
    let methods ← (← tables.rows MethodRow).mapM (·.resolve blobs)
    let encMap ← tables.rows MapRow
    return ⟨module, documents.toArray, methods.toArray, encMap.map (·.token)⟩

end SymbolHistory.Metadata
