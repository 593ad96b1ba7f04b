import CppRefactor.Syntax.Tree

/-!
The canonical spelling of tokens: one space between two words and behind a comma, none elsewhere.
`const  std :: string &` is spelled `const std::string&`.
-/

namespace CppRefactor

/-- A space stands between tokens of these kinds. -/
def spaced (left right : Kind) : Bool := (left.isWord && right.isWord) || left == .comma

/-- The spelling of tokens behind one of a kind. -/
def spellAfter (last : Kind) : List Token → String
  | [] => ""
  | t :: ts => (if spaced last t.kind then " " else "") ++ t.text ++ spellAfter t.kind ts

def spell : List Token → String
  | [] => ""
  | t :: ts => t.text ++ spellAfter t.kind ts

/-- The spelling of the tokens that are not trivia. -/
def Tree.spelling (t : Tree) : String := spell t.significant

end CppRefactor
