import CppRefactor.Syntax.Cursor
import CppRefactor.Syntax.View.Name
import CppRefactor.Text.Blank

/-!
Reading expressions, literals and references to names.
-/

namespace CppRefactor

namespace Expression

/-- There is nothing but trivia in it. -/
def isEmpty (t : Tree) : Bool := t.significant.isEmpty

/-- Something in it was skipped while parsing. -/
def hasErrors (t : Tree) : Bool := t.preorder.any (·.kind == .error)

end Expression

namespace Literal

def kind (t : Tree) : Kind := t.leadKind?.getD .error

def text (t : Tree) : String := (t.leadToken?.map (·.text)).getD ""

/-- The type of an integer by the letters at its end. -/
def integerType (cs : List Char) : String :=
  let suffix := (Text.takeLastWhile (fun c => "uUlLzZ".toList.contains c) cs).map Char.toLower
  let isUnsigned := suffix.contains 'u'
  match suffix.count 'l' with
  | 0 =>
    if suffix.contains 'z' then if isUnsigned then "std::size_t" else "std::ptrdiff_t"
    else if isUnsigned then "unsigned int"
    else "int"
  | 1 => if isUnsigned then "unsigned long" else "long"
  | _ => if isUnsigned then "unsigned long long" else "long long"

/-- The type of a floating-point number by its last letter. -/
def floatingType (cs : List Char) : String :=
  match cs.getLast? with
  | some 'f' | some 'F' => "float"
  | some 'l' | some 'L' => "long double"
  | _ => "double"

/-- The type of a character by what stands before the quote. -/
def characterType (quote : Char) (cs : List Char) : String :=
  if !cs.contains quote then "char"
  else
    match cs.takeWhile (· != quote) with
    | ['L'] => "wchar_t"
    | ['u'] => "char16_t"
    | ['U'] => "char32_t"
    | ['u', '8'] => "char8_t"
    | _ => "char"

/-- The type of a literal of a kind; a null pointer has none that can be written. -/
def typeOf? (kind : Kind) (text : String) : Option String :=
  match kind with
  | .trueKw | .falseKw => some "bool"
  | .intNumber => some (integerType text.toList)
  | .floatNumber => some (floatingType text.toList)
  | .charLit => some (characterType '\'' text.toList)
  | .stringLit => some ("const " ++ characterType '"' text.toList ++ " *")
  | _ => none

def type? (t : Tree) : Option String := typeOf? (kind t) (text t)

end Literal

namespace NameReference

/-- The name is the right side of `a.b` or `a->b`. -/
def isMember (c : Cursor) : Bool :=
  match c.before.find? (!·.kind.isTrivia) with
  | some (.token t) => t.kind == .dot || t.kind == .arrow
  | _ => false

/-- Arguments of a call follow the name. -/
def isCall (c : Cursor) : Bool := (c.after.find? (!·.kind.isTrivia)).any (·.kind == .argList)

end NameReference

end CppRefactor
