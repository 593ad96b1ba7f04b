import CppRefactor.Syntax.Cursor
import CppRefactor.Symbols.TypePath
import CppRefactor.Text.LineIndex

/-!
Include directives: the lines that name a file between quotes or angle brackets.
-/

namespace CppRefactor

/-- Between quotes or between angle brackets. -/
inductive IncludeKind
  | quoted
  | system
  deriving DecidableEq, Repr, Inhabited

structure Include where
  kind : IncludeKind
  /-- The path between the delimiters. -/
  path : String
  /-- The directive without blanks at its end. -/
  span : Span
  line : Nat
  deriving DecidableEq, Repr, Inhabited

namespace Include

/-- A path with its delimiters. -/
def spell (kind : IncludeKind) (path : String) : String :=
  match kind with
  | .quoted => "\"" ++ path ++ "\""
  | .system => "<" ++ path ++ ">"

def spelling (i : Include) : String := spell i.kind i.path

/-- A path before its last slash, empty without one. -/
def directoryOf (path : String) : String :=
  .ofList ((path.toList.reverse.dropWhile (· != '/')).drop 1).reverse

def directory (i : Include) : String := directoryOf i.path

/-- The characters before the first `close`, if there is one. -/
def upTo? (close : Char) (cs : List Char) : Option String :=
  if cs.contains close then some (.ofList (cs.takeWhile (· != close))) else none

def skip? (word : String) (cs : List Char) : Option (List Char) :=
  (Text.dropStart? word cs).map Text.trimFront

/-- The kind and the path of an include directive. -/
def parse (line : String) : Option (IncludeKind × String) := do
  let cs ← skip? "#" (Text.trimFront line.toList)
  match ← ((skip? "include_next" cs).or (skip? "include" cs)).or (skip? "import" cs) with
  | '"' :: rest => return (.quoted, ← upTo? '"' rest)
  | '<' :: rest => return (.system, ← upTo? '>' rest)
  | _ => none

def ofToken? (lines : LineIndex) (t : Token) : Option Include := do
  guard (t.kind == .preproc)
  let (kind, path) ← parse t.text
  let stop := t.offset + (Text.trimRight t.text).utf8ByteSize
  return ⟨kind, path, ⟨t.offset, stop⟩, lines.lineOf t.offset⟩

/-- The include directives of a file in order. -/
def ofTree (root : Tree) (lines : LineIndex) : List Include :=
  root.leaves.filterMap (ofToken? lines)

end Include

end CppRefactor
