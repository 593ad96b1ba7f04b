import CppRefactor.Project.Snapshot
import CppRefactor.Text.Placement

/-!
Where the definitions of members go in a file: in a block of their namespace if there is one, else
at the end of the file, with names qualified or namespaces opened as needed there.
-/

namespace CppRefactor

structure DefinitionPlace where
  file : FileId
  offset : Nat
  /-- The namespaces to open around the definitions, the outermost first. -/
  opened : List String
  /-- What goes before the names of members, with `::` at its end unless it is empty. -/
  qualifier : String
  deriving DecidableEq, Repr, Inhabited

namespace SymbolTable

variable (t : SymbolTable)

/-- The namespaces around a symbol, the outermost first, without anonymous ones. -/
def namespacesAround (id : SymbolId) : List SymbolId :=
  ((t.enclosing id).filter fun s =>
    (t.symbol s).isNamespace && !(t.symbol s).isAnonymous).reverse

/-- The names of a class and the classes around it, the outermost first. -/
def classNames (cls : SymbolId) : List String :=
  let outer := (t.enclosing cls).takeWhile fun s => (t.symbol s).kind.isClass
  (outer.reverse ++ [cls]).map fun s => (t.symbol s).name

/-- A name of a class template with the parameters as arguments. -/
def withTemplateArguments (id : SymbolId) (name : String) : String :=
  let s := t.symbol id
  if s.templateParams.isEmpty || !s.kind.isClass then name
  else name ++ "<" ++ ", ".intercalate s.templateParams ++ ">"

/-- What goes before the names of members of a class that is called by a name. -/
def qualifierOf (id : SymbolId) (name : String) : String := t.withTemplateArguments id name ++ "::"

/-- What goes before the names of members of a class at an offset of a file. -/
def memberQualifier (file : FileId) (offset : Nat) (cls : SymbolId) : String :=
  t.qualifierOf cls <|
    match t.siteAt? file offset with
    | some site => t.shortestName site [] cls
    | none => t.qualifiedName cls

/-- A block of a namespace that a chain of namespaces goes through, with the place of that namespace
in the chain. -/
structure ChainBlock where
  depth : Nat
  span : Span

/-- The block is of a namespace further inside, or further down in the file. -/
def ChainBlock.isBetter (b : ChainBlock) (best : ChainBlock) : Bool :=
  best.depth < b.depth || (b.depth == best.depth && best.span.start < b.span.start)

def chainBlock? (chain : List SymbolId) (id : ScopeId) : Option ChainBlock := do
  let s := t.scope id
  guard (s.kind == .namespaceBlock)
  return ⟨← chain.idxOf? (← s.owner), s.span⟩

/-- The block of a file that is deepest in a chain of namespaces, the last of them. -/
def innermostBlock? (file : FileId) (chain : List SymbolId) : Option ChainBlock :=
  ((t.scopesOf file).filterMap (t.chainBlock? chain)).foldl
    (fun best b =>
      match best with
      | some best => if b.isBetter best then some b else some best
      | none => some b) none

/-- The namespace that is innermost at a scope, anonymous ones apart. -/
def innermostNamespace? (scope : ScopeId) : Option SymbolId :=
  ((t.scopesAround scope).filterMap fun s =>
    if (t.scope s).kind == .namespaceBlock then (t.scope s).owner else none).find?
      fun s => !(t.symbol s).isAnonymous

end SymbolTable

namespace DefinitionPlace

/-- The text for definitions. -/
def render (d : DefinitionPlace) (s : Snapshot) (definitions : String) : String :=
  let block :=
    if d.opened.isEmpty then definitions
    else
      "\n" ++ .join (d.opened.map fun ns => "namespace " ++ ns ++ " \x7b\n") ++ definitions ++
        "\n" ++ .join (d.opened.map fun _ => "\n\x7d")
  Text.setApart (s.file d.file).text d.offset block

/-- Where definitions in a chain of namespaces go in a file: before the closing brace of the deepest
block of the chain, or at the end. How many namespaces of the chain are open there comes first. -/
def placeInChain (s : Snapshot) (file : FileId) (chain : List SymbolId) : Nat × Nat :=
  let f := s.file file
  match s.symbols.innermostBlock? file chain with
  | some b => (b.depth + 1, Text.lineStartIfBlank f.text f.lines (b.span.stop - 1))
  | none => (0, f.text.utf8ByteSize)

/-- The place for members of a class in a file, with the namespaces opened that are not open
there. None are opened if the class has a short name there. -/
def opening (s : Snapshot) (file : FileId) (cls : SymbolId) : DefinitionPlace :=
  let t := s.symbols
  let chain := t.namespacesAround cls
  let (depth, offset) := placeInChain s file chain
  let path := t.classNames cls
  let names :=
    match t.siteAt? file offset with
    | some site => t.shortestNames site [] cls
    | none => path
  if names.length ≤ path.length || depth = chain.length then
    ⟨file, offset, [], t.qualifierOf cls ("::".intercalate names)⟩
  else
    ⟨file, offset, (chain.drop depth).map fun ns => (t.symbol ns).name,
      t.qualifierOf cls ("::".intercalate path)⟩

/-- What goes before the names of members of a class or namespace at an offset of a file; nothing in
a block of that namespace itself. -/
def qualifierAt (t : SymbolTable) (file : FileId) (offset : Nat) (owner : SymbolId) : String :=
  if owner = SymbolTable.global then ""
  else
    match t.siteAt? file offset with
    | none => t.qualifiedName owner ++ "::"
    | some site =>
      if (t.symbol owner).isNamespace && t.innermostNamespace? site.scope == some owner then ""
      else t.qualifierOf owner (t.shortestName site [] owner)

/-- The place for members of a class or namespace in a file, with names qualified as needed. -/
def qualifying (s : Snapshot) (file : FileId) (owner : SymbolId) : DefinitionPlace :=
  let (_, offset) := placeInChain s file (s.symbols.namespacesAround owner)
  ⟨file, offset, [], qualifierAt s.symbols file offset owner⟩

end DefinitionPlace

end CppRefactor
