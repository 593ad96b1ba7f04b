import CppRefactor.Symbols.Symbol

/-!
Symbol tables: every symbol and scope of a set of files, and which files see each other. Symbol 0 is
the global namespace, whose blocks are the files. Beside the symbols and scopes a table has indices
to find them by, which are filled as they are added.
-/

namespace CppRefactor

/-- Lists by keys. A list is filled at its end. -/
structure Index (κ α : Type) where
  entries : List (κ × List α)
  deriving Inhabited

namespace Index

def empty : Index κ α := ⟨[]⟩

variable [BEq κ]

/-- The list of a key, which is empty until something is put into it. -/
def get (m : Index κ α) (key : κ) : List α := (m.entries.lookup key).getD []

def pushEntry (key : κ) (a : α) : List (κ × List α) → List (κ × List α)
  | [] => [(key, [a])]
  | (k, as) :: entries =>
    if key == k then (k, as ++ [a]) :: entries else (k, as) :: pushEntry key a entries

def push (m : Index κ α) (key : κ) (a : α) : Index κ α := ⟨pushEntry key a m.entries⟩

end Index

structure SymbolTable where
  symbols : Array Symbol
  scopes : Array Scope
  /-- The blocks of each namespace, in the order in which they are opened. -/
  namespaceBlocks : Index SymbolId ScopeId
  /-- Each namespace by the one around it and its name. -/
  namespaceIndex : List ((SymbolId × String) × SymbolId)
  fileScopes : List (FileId × ScopeId)
  scopesByFile : Index FileId ScopeId
  /-- Each symbol by its file and the start of its name, the last one first. -/
  symbolsByPosition : List ((FileId × Nat) × SymbolId)
  symbolsByName : Index String SymbolId
  /-- The files whose declarations a file sees. -/
  visible : List (FileId × List FileId)
  /-- The definitions that stand outside their class or namespace. -/
  outOfLine : List SymbolId
  /-- Declarations with their definitions, the last link first. -/
  links : List (SymbolId × SymbolId)
  deriving Inhabited

namespace SymbolTable

def global : SymbolId := 0

def empty : SymbolTable :=
  { symbols := #[{ name := "", kind := .namespaceKind, file := noFile, nameSpan := .point 0,
                   declSpan := .point 0 }]
    scopes := #[]
    namespaceBlocks := .empty
    namespaceIndex := []
    fileScopes := []
    scopesByFile := .empty
    symbolsByPosition := []
    symbolsByName := .empty
    visible := []
    outOfLine := []
    links := [] }

def symbol (t : SymbolTable) (id : SymbolId) : Symbol := t.symbols.getD id default

def scope (t : SymbolTable) (id : ScopeId) : Scope := t.scopes.getD id default

/-- The numbers of all symbols but the global namespace. -/
def declared (t : SymbolTable) : List SymbolId := (List.range t.symbols.size).drop 1

/-- The scopes of a file, in the order in which they are opened. -/
def scopesOf (t : SymbolTable) (file : FileId) : List ScopeId := t.scopesByFile.get file

def fileBody? (t : SymbolTable) (file : FileId) : Option ScopeId := t.fileScopes.lookup file

/-- The blocks of a namespace. -/
def blocks (t : SymbolTable) (ns : SymbolId) : List ScopeId := t.namespaceBlocks.get ns

def seenFrom (t : SymbolTable) (file : FileId) : List FileId :=
  (t.visible.lookup file).getD []

def isSeenFrom (t : SymbolTable) (file target : FileId) : Bool :=
  file == target || (t.seenFrom file).contains target

/-- The last symbol whose name starts at an offset. -/
def declaredAt? (t : SymbolTable) (file : FileId) (offset : Nat) : Option SymbolId :=
  t.symbolsByPosition.lookup (file, offset)

def withName (t : SymbolTable) (name : String) : List SymbolId := t.symbolsByName.get name

/-- The first of the smallest elements by a measure. -/
def leastBy (measure : α → Nat) : List α → Option α
  | [] => none
  | a :: as =>
    match leastBy measure as with
    | none => some a
    | some b => if measure b < measure a then some b else some a

/-- The innermost scope of a file at an offset, or the file itself. -/
def innermostScope? (t : SymbolTable) (file : FileId) (offset : Nat) : Option ScopeId :=
  (leastBy (fun s => (t.scope s).span.length)
    ((t.scopesOf file).filter fun s => (t.scope s).span.contains offset)).or (t.fileBody? file)

def siteAt? (t : SymbolTable) (file : FileId) (offset : Nat) : Option Site :=
  (t.innermostScope? file offset).map fun scope => ⟨file, scope, offset⟩

/-- A scope and those around it, at most `n` of them. -/
def scopesFrom (t : SymbolTable) : Nat → ScopeId → List ScopeId
  | 0, _ => []
  | n + 1, id =>
    id :: match (t.scope id).parent with
      | some parent => scopesFrom t n parent
      | none => []

/-- A scope and those around it, the innermost first. -/
def scopesAround (t : SymbolTable) (id : ScopeId) : List ScopeId := t.scopesFrom t.scopes.size id

/-- The list without elements that were there before. -/
def distinct [BEq α] (as : List α) : List α :=
  as.foldl (fun found a => if found.contains a then found else found ++ [a]) []

/-- The members of a class, an enumeration or all blocks of a namespace. -/
def members (t : SymbolTable) (owner : SymbolId) : List SymbolId :=
  if (t.symbol owner).isNamespace then
    distinct ((t.blocks owner).flatMap fun b => (t.scope b).members)
  else
    match (t.symbol owner).scope with
    | some s => (t.scope s).members
    | none => []

def isOutOfLine (t : SymbolTable) (id : SymbolId) : Bool := t.outOfLine.contains id

/-- The declaration that a definition belongs to. -/
def declaration? (t : SymbolTable) (id : SymbolId) : Option SymbolId :=
  (t.links.find? (·.2 == id)).map (·.1)

/-- The definition of a function that is declared elsewhere. -/
def definition? (t : SymbolTable) (id : SymbolId) : Option SymbolId :=
  (t.links.find? (·.1 == id)).map (·.2)

/-- The owner of the scope a symbol is declared in. -/
def scopeOwner? (t : SymbolTable) (id : SymbolId) : Option SymbolId := do
  (t.scope (← (t.symbol id).parent)).owner

/-- The class or namespace a symbol belongs to. A definition outside it belongs where its
declaration does, if that is known. -/
def owner? (t : SymbolTable) (id : SymbolId) : Option SymbolId :=
  match t.declaration? id with
  | some decl => t.scopeOwner? (if t.isOutOfLine id then decl else id)
  | none => t.scopeOwner? id

/-- The owners of a symbol up to the global namespace, at most `n` of them. -/
def ownersOf (t : SymbolTable) : Nat → SymbolId → List SymbolId
  | 0, _ => []
  | n + 1, id =>
    match t.owner? id with
    | some owner => if owner = global then [] else owner :: ownersOf t n owner
    | none => []

/-- The namespaces, classes and enumerations around a symbol, the innermost first, without the
global namespace. -/
def enclosing (t : SymbolTable) (id : SymbolId) : List SymbolId := t.ownersOf t.symbols.size id

/-- `N::C::member`, without anonymous parts. -/
def qualifiedName (t : SymbolTable) (id : SymbolId) : String :=
  let outer := ((t.enclosing id).reverse.map fun s => (t.symbol s).name).filter (!·.isEmpty)
  "::".intercalate (outer ++ [(t.symbol id).name])

def modifyScope (t : SymbolTable) (id : ScopeId) (f : Scope → Scope) : SymbolTable :=
  { t with scopes := t.scopes.modify id f }

def modifySymbol (t : SymbolTable) (id : SymbolId) (f : Symbol → Symbol) : SymbolTable :=
  { t with symbols := t.symbols.modify id f }

/-- Adds a scope to those of its file. -/
def pushScope (t : SymbolTable) (s : Scope) : SymbolTable :=
  { t with
    scopes := t.scopes.push s
    scopesByFile := t.scopesByFile.push s.file t.scopes.size }

/-- Adds a file, which is a block of the global namespace and sees itself. -/
def addFile (t : SymbolTable) (file : FileId) (span : Span) : ScopeId × SymbolTable :=
  let id := t.scopes.size
  let t := t.pushScope ⟨.file, none, some global, file, span, [], [], [], [], none⟩
  (id,
    { t with
      namespaceBlocks := t.namespaceBlocks.push global id
      fileScopes := (file, id) :: t.fileScopes
      visible := if (t.visible.lookup file).isSome then t.visible
        else (file, [file]) :: t.visible })

/-- Adds a scope inside another one. A block is entered among those of its namespace; other owners
get to know their scope. -/
def addScope (t : SymbolTable) (kind : ScopeKind) (parent : ScopeId) (owner : Option SymbolId)
    (span : Span) : ScopeId × SymbolTable :=
  let id := t.scopes.size
  let file := (t.scope parent).file
  let t := t.modifyScope parent fun s => { s with children := s.children ++ [id] }
  let t := t.pushScope ⟨kind, some parent, owner, file, span, [], [], [], [], none⟩
  match owner with
  | some o =>
    if kind == .namespaceBlock then
      (id, { t with namespaceBlocks := t.namespaceBlocks.push o id })
    else (id, t.modifySymbol o fun s => { s with scope := some id })
  | none => (id, t)

/-- Adds a symbol that is no member of the scope it stands in. -/
def addDetached (t : SymbolTable) (s : Symbol) : SymbolId × SymbolTable :=
  let id := t.symbols.size
  (id,
    { t with
      symbols := t.symbols.push s
      symbolsByPosition := ((s.file, s.nameSpan.start), id) :: t.symbolsByPosition
      symbolsByName := t.symbolsByName.push s.name id })

/-- Adds a symbol to the members of its parent. -/
def add (t : SymbolTable) (s : Symbol) : SymbolId × SymbolTable :=
  let (id, t) := t.addDetached s
  match s.parent with
  | some parent => (id, t.modifyScope parent fun p => { p with members := p.members ++ [id] })
  | none => (id, t)

/-- The owner of a scope, the global namespace if it has none. -/
def spaceOf (t : SymbolTable) (scope : ScopeId) : SymbolId := (t.scope scope).owner.getD global

/-- The namespace of a name inside another one. -/
def namespace? (t : SymbolTable) (outer : SymbolId) (name : String) : Option SymbolId :=
  t.namespaceIndex.lookup (outer, name)

/-- Adds a namespace that is declared in a block of an outer one. -/
def addNamespace (t : SymbolTable) (name : String) (block : ScopeId) (span : Span) :
    SymbolId × SymbolTable :=
  let (id, t') := t.add
    { name, kind := .namespaceKind, file := (t.scope block).file, nameSpan := span,
      declSpan := span, parent := some block, flags := { isDefinition := true } }
  (id, { t' with namespaceIndex := ((t.spaceOf block, name), id) :: t'.namespaceIndex })

/-- The namespace of a name, new or not, that is declared in a block of an outer one. Each block
that declares it lists it as a member. -/
def declareNamespace (t : SymbolTable) (name : String) (block : ScopeId) (span : Span) :
    SymbolId × SymbolTable :=
  match t.namespace? (t.spaceOf block) name with
  | some id =>
    (id, t.modifyScope block fun s =>
      if s.members.contains id then s else { s with members := s.members ++ [id] })
  | none => t.addNamespace name block span

/-- Sets what a file sees; it always sees itself. -/
def setVisible (t : SymbolTable) (file : FileId) (files : List FileId) : SymbolTable :=
  let files := if files.contains file then files else file :: files
  { t with visible := (file, files) :: t.visible.filter (·.1 != file) }

def link (t : SymbolTable) (declaration definition : SymbolId) : SymbolTable :=
  { t with links := (declaration, definition) :: t.links }

end SymbolTable

end CppRefactor
