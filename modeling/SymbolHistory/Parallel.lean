/-!
# Work in parallel

Items that are worked on in parallel are done in an order that nobody knows. This shows only if some
of them fail: then the failure of one of them comes out, and it can be any. Which one it is depends
on the item that is done first, so that item is an argument here.

## Main definitions

* `mapParallel` : works on all items of a list.
-/

namespace SymbolHistory

/-- Works on all items of a list in parallel. Item `lead`, counted from 0, is done ahead of the
others, if there is such an item. -/
def mapParallel {m : Type → Type} [Monad m] {α β : Type} (lead : Nat) (f : α → m β)
    (items : List α) : m (List β) :=
  match items[lead]? with
  | none => items.mapM f
  | some item => do
    let _ ← f item
    items.mapM f

end SymbolHistory
