import CppRefactor.Fix.AddInclude

/-!
Declaring a class whose name nothing is found for: in a block of its namespace if one is open before
the name is used, else at the top of the file.
-/

namespace CppRefactor

structure ForwardDeclaration where
  name : String
  insertion : Insertion
  deriving DecidableEq, Repr, Inhabited

namespace ForwardDeclaration

/-- The declaration of a class in namespaces; more than one namespace take a line each. -/
def declare (namespaces : List String) (name : String) : String :=
  let declaration := "class " ++ name ++ ";"
  match namespaces with
  | [] => declaration
  | [ns] => "namespace " ++ ns ++ " \x7b " ++ declaration ++ " \x7d"
  | _ =>
    .join (namespaces.map fun ns => "namespace " ++ ns ++ " \x7b\n") ++ declaration ++
      .join (namespaces.map fun _ => "\n\x7d")

/-- The body of a namespace that starts before an offset and whose name begins `names`, and the
names behind it. -/
def opens? (offset : Nat) (names : List String) (item : Tree) : Option (Tree × List String) := do
  guard (item.kind == .namespaceDef && item.span.start < offset)
  let path := namespacePath item
  guard (!path.isEmpty && path.isPrefixOf names)
  return (← item.child? .declList, names.drop path.length)

/-- Follows names into the first namespaces among items that open them, at most `n` deep. -/
def innermost (offset : Nat) : Nat → Tree → List String → Tree × List String
  | 0, body, names => (body, names)
  | n + 1, body, names =>
    match body.items.findSome? (opens? offset names) with
    | some (inner, rest) => innermost offset n inner rest
    | none => (body, names)

/-- Where a declaration goes in the body of a namespace or a file: before its first item. In an
empty body it goes before the closing brace. On the line of the opening brace it gets no line of its
own. -/
def place? (lines : LineIndex) (body : Tree) (declaration : String) : Option Insertion := do
  let ownLine (anchor : Nat) : Insertion := ⟨lines.lineStart anchor, "\n" ++ declaration ++ "\n"⟩
  let first := body.items.head?.map fun i => i.span.start
  if body.kind == .declList then
    let brace := (← body.openBrace?).stop
    let anchor ← first.or (body.closeBrace?.map (·.offset))
    if lines.lineStart anchor < brace then return ⟨anchor, declaration ++ " "⟩
    else return ownLine anchor
  else return ownLine (← first)

def insertion? (root : Tree) (lines : LineIndex) (offset : Nat) (names : List String) :
    Option Insertion := do
  let name ← names.getLast?
  let (body, missing) := innermost offset names.length root names.dropLast
  place? lines body (declare missing name)

/-- Every segment of a path but the last finds namespaces or nothing, and the last finds nothing. -/
def canDeclare (t : SymbolTable) (site : Site) (path : TypePath) : Bool :=
  (List.range path.segments.length).all fun i =>
    let found := t.lookupPath ⟨site, .any, []⟩ (AddInclude.upTo path i)
    if i + 1 = path.segments.length then found.isEmpty
    else found.all fun id => (t.symbol id).isNamespace

/-- The declaration offered on the name of a type without template arguments. -/
def offers (r : Request) : Except FixError (List ForwardDeclaration) := do
  match (r.find? .qualifiedName).filter fun c => c.up?.any (·.kind == .declSpecifiers) with
  | none => return []
  | some name =>
    let path ← orError (.malformed .emptyName) (TypePath.ofName? name.focus)
    unless path.last.args.isEmpty do return []
    let site ← orError (.unresolved .nameScope) (r.siteAt? name.span.start)
    unless canDeclare r.symbols site path do return []
    let insertion ← orError (.malformed .noDeclarationBehind)
      (insertion? r.source.tree r.lines name.span.start path.names)
    return [⟨"::".intercalate path.names, insertion⟩]

def description (f : ForwardDeclaration) : String := "Add forward declaration for " ++ f.name

def changes (r : Request) (f : ForwardDeclaration) : Changeset :=
  Changeset.empty.editFile r.snapshot r.file (·.insert f.insertion.offset f.insertion.text)

end ForwardDeclaration

end CppRefactor
