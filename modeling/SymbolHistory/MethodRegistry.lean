import SymbolHistory.Metadata.Basic

/-!
# Method identities

The first generation has one row of debug information for each method of the module, in the same
order. The rows of an update belong to the methods that its map names, also in the same order.

## Main definitions

* `MethodRegistry` : where the current debug information of each method is.
* `MethodRegistry.update` : takes in the methods of a generation.
-/

namespace SymbolHistory

/-- Where the current debug information of a method is. -/
structure MethodPlace where
  /-- The row in the generation that owns it. -/
  row : UInt32
  /-- The generation that owns it. -/
  generation : Nat
  deriving DecidableEq, Repr

/-- Where the current debug information of each method is. -/
structure MethodRegistry where
  /-- The place of each method's debug information. -/
  places : Std.HashMap MethodId MethodPlace

namespace MethodRegistry

/-- No method is known. -/
def empty : MethodRegistry :=
  ⟨∅⟩

/-- The number of methods. -/
def size (registry : MethodRegistry) : Nat :=
  registry.places.size

/-- Where the current debug information of a method is. -/
def place? (registry : MethodRegistry) (method : MethodId) : Option MethodPlace :=
  registry.places[method]?

/-- The methods that the rows of a generation belong to, in order. -/
def methodsOfRows (metadata : Metadata) (generation : Nat) : List MethodId :=
  if generation = 1 then metadata.methods.toList.map fun record => ⟨record.rid⟩
  else metadata.methodTokens.map fun token => ⟨token.row⟩

/-- The identities, and those of the rows that are taken in so far. -/
abbrev Progress := MethodRegistry × Std.HashMap UInt32 MethodId

/-- Takes in a row of debug information and the method that it belongs to. -/
def assign (generation : Nat) (progress : Progress) (entry : MethodDebug × MethodId) :
    Except Error Progress :=
  let (⟨places⟩, ids) := progress
  let (record, method) := entry
  if method.val = 0 then .error (.malformed .encMapRowZero)
  else if (places[method]?).map (·.generation) = some generation then
    .error (.identityConflict (.methodTwice method generation))
  else
    .ok (⟨places.insert method ⟨record.rid, generation⟩⟩, ids.insert record.rid method)

/-- Takes in the methods of a generation. Also says which methods its rows belong to. -/
def update (registry : MethodRegistry) (metadata : Metadata) (generation : Nat) :
    Except Error Progress :=
  let methods := methodsOfRows metadata generation
  if methods.length = metadata.methods.size then
    (metadata.methods.toList.zip methods).foldlM (assign generation) (registry, ∅)
  else
    .error (.malformed (.encMapCount methods.length generation metadata.methods.size))

end MethodRegistry

end SymbolHistory
