import SymbolHistory.Token

/-!
# Lasting identities

A document or method keeps one identity through all generations of a session, whatever rows it
has in the metadata of each.

## Main definitions

* `DocumentId` : counted up from 1 in the order in which document paths are first declared.
* `MethodId` : the row of the method in the module's method table.
-/

namespace SymbolHistory

/-- The identity of a document, counted up from 1 in order of first declaration. -/
structure DocumentId where
  /-- The number of the document. -/
  val : Nat
  deriving DecidableEq, Hashable, Repr

namespace DocumentId

/-- How messages name a document. -/
def text (id : DocumentId) : String :=
  "document #" ++ toString id.val

/-- A document identity as a value. -/
def describe (id : DocumentId) : String :=
  "DocumentId(" ++ toString id.val ++ ")"

end DocumentId

/-- The identity of a method: its row in the module's method table. -/
structure MethodId where
  /-- The row number. -/
  val : UInt32
  deriving DecidableEq, Hashable, Repr

namespace MethodId

/-- The token of the method in the module's own metadata. -/
def token (id : MethodId) : Token :=
  Token.ofRow .methodDef id.val

/-- How messages name a method. -/
def text (id : MethodId) : String :=
  "method " ++ id.token.text

/-- A method identity as a value. -/
def describe (id : MethodId) : String :=
  "MethodId(" ++ toString id.val.toNat ++ ")"

end MethodId

end SymbolHistory
