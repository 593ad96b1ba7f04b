/-!
Beginnings and endings of character lists.
-/

namespace CppRefactor.Text

/-- The list without its last elements that satisfy `p`. -/
def dropLastWhile (p : α → Bool) (cs : List α) : List α :=
  (cs.reverse.dropWhile p).reverse

/-- The last elements of the list that satisfy `p`. -/
def takeLastWhile (p : α → Bool) (cs : List α) : List α :=
  (cs.reverse.takeWhile p).reverse

/-- The characters behind a text with which they begin. -/
def dropStart? (start : String) (cs : List Char) : Option (List Char) :=
  if start.toList.isPrefixOf cs then some (cs.drop start.toList.length) else none

/-- The characters before a text with which they end. -/
def dropEnd? (ending : String) (cs : List Char) : Option (List Char) :=
  (dropStart? (.ofList ending.toList.reverse) cs.reverse).map List.reverse

end CppRefactor.Text
