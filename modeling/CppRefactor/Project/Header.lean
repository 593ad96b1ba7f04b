import CppRefactor.Project.Disk
import CppRefactor.Symbols.Declare
import CppRefactor.Syntax.Parse
import CppRefactor.Text.LetterCase

/-!
Headers below the search paths, and the names an include of them makes known.
-/

namespace CppRefactor

structure Header where
  path : Path
  /-- The search path it was found under. -/
  root : Path
  /-- Its path from there. -/
  relative : String
  /-- It has no extension and only includes another header. -/
  isForwarding : Bool
  /-- The qualified names it declares outside classes. -/
  declared : List String
  deriving DecidableEq, Repr, Inhabited

/-- The path's extension is one of a header. -/
def Path.isHeader (p : Path) : Bool :=
  p.extension?.any fun e =>
    ["h", "hh", "hpp", "hxx", "h++"].contains (.ofList (e.toList.map Char.toLower))

/-- The list without elements that equal the one before. -/
def withoutRepeats [BEq α] : List α → List α
  | [] => []
  | a :: as =>
    match withoutRepeats as with
    | [] => [a]
    | b :: bs => if a == b then a :: bs else a :: b :: bs

namespace Header

/-- A symbol that an include makes known: a type or an object declared in a namespace. -/
def isOffered (t : SymbolTable) (s : Symbol) : Bool :=
  !s.isAnonymous && s.qualifier.isNone && (s.kind.isType || s.kind.isObject) &&
    s.parent.any fun p => (t.scope p).isNamespaceBody

/-- The qualified names of the types, functions and variables a file declares outside classes and
functions. -/
def offeredNames (root : Tree) : List String :=
  let t := SymbolTable.empty.declareFile 0 root
  let offered := (List.range t.symbols.size).filter fun id => isOffered t (t.symbol id)
  withoutRepeats (offered.map t.qualifiedName)

/-- The header declares a name, which may leave out namespaces on the outside. -/
def declares (h : Header) (name : String) : Bool :=
  let inner := "::" ++ name
  h.declared.any fun d => d == name || inner.toList.isSuffixOf d.toList

def fileName (h : Header) : String := h.path.fileName?.getD ""

/-- The characters of a text are somewhere among others. -/
def occursIn (part : List Char) : List Char → Bool
  | [] => part.isEmpty
  | c :: cs => part.isPrefixOf (c :: cs) || occursIn part cs

/-- A file without an extension whose name starts with a capital letter and that has an include. -/
def isForwardingFile (path : Path) (text : String) : Bool :=
  path.fileName?.any (·.toList.head?.any Text.isUppercase) &&
    occursIn "#include".toList text.toList

/-- The header that a file below a search path is. -/
def ofFile? (root : Path) (below : List Component) (text : String) : Option Header :=
  let path := Path.mk (root.components ++ below)
  let header (isForwarding : Bool) (declared : List String) : Header :=
    ⟨path, root, Path.text ⟨below⟩, isForwarding, declared⟩
  if path.extension?.isNone then
    if isForwardingFile path text then some (header true []) else none
  else if path.isHeader then some (header false (offeredNames (parse text).tree))
  else none

/-- The headers below search paths. -/
def scan (disk : Option Disk) (searchPaths : List Path) : List Header :=
  match disk with
  | none => []
  | some disk =>
    searchPaths.flatMap fun root =>
      (disk.below root).filterMap fun (below, text) => do ofFile? root below (← text)

/-- The headers that declare a name. -/
def declaring (headers : List Header) (name : String) : List Header :=
  headers.filter fun h => !h.isForwarding && h.declares name

/-- The forwarding headers called by a name. -/
def forwarding (headers : List Header) (name : String) : List Header :=
  headers.filter fun h => h.isForwarding && h.fileName == name

end Header

end CppRefactor
