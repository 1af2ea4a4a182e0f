import SymbolHistory.Text.CaseMapping
import SymbolHistory.Text.CaseContext

/-!
# Lower case

Text in lower case, for all alphabets. Two letters need more than a table of characters. The capital
I with a dot becomes two characters. A capital sigma at the end of a word becomes a final sigma: if,
marks aside, a letter with case stands in front of it and none behind it.

## Main definitions

* `isFinalSigma` : whether a sigma between two pieces of text ends a word.
* `lowercase` : text in lower case.
-/

namespace SymbolHistory.Text

/-- Whether text starts with a letter with case, marks aside. -/
def startsCased (text : List Char) : Bool :=
  (text.dropWhile isCaseIgnorable).head?.any isCased

/-- Whether a sigma ends a word, between the characters in front of it, backwards, and the ones
behind it. -/
def isFinalSigma (before after : List Char) : Bool :=
  startsCased before && !startsCased after

/-- The lower-case form of a character between others, of which those in front come backwards. -/
def lowercaseAt (before : List Char) (c : Char) (after : List Char) : List Char :=
  if c = 'Σ' then [if isFinalSigma before after then 'ς' else 'σ']
  else if c = 'İ' then ['i', '\u0307']
  else [lowercaseChar c]

/-- The lower-case form of the characters behind others, which come backwards. -/
def lowercaseFrom : (before : List Char) → List Char → List Char
  | _, [] => []
  | before, c :: cs => lowercaseAt before c cs ++ lowercaseFrom (c :: before) cs

/-- Text in lower case. -/
def lowercase (text : String) : String :=
  String.ofList (lowercaseFrom [] text.toList)

end SymbolHistory.Text
