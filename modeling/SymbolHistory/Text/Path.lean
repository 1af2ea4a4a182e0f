/-!
# Paths

Symbols have paths as the compiler saw them, on whatever system it ran.

## Main definitions

* `fileName` : the last component of a path.
-/

namespace SymbolHistory.Text

/-- The characters that end a component: both kinds of slashes, and the colon behind a drive. -/
def isPathSeparator (c : Char) : Bool :=
  c == '/' || c == '\\' || c == ':'

/-- The last component of a path; it is empty if the path ends with a separator. -/
def fileName (path : String) : String :=
  String.ofList (path.toList.reverse.takeWhile fun c => !isPathSeparator c).reverse

/-- A file name has no separators. -/
theorem isPathSeparator_of_mem_fileName {path : String} {c : Char}
    (h : c ∈ (fileName path).toList) : isPathSeparator c = false := by
  rw [fileName, String.toList_ofList, List.mem_reverse] at h
  simpa using List.all_eq_true.1 List.all_takeWhile c h

end SymbolHistory.Text
