import CppRefactor.Symbols.Table

/-!
Looking names up. In a namespace or a block a name is found behind its declaration only, in a class
everywhere; what other files declare is found where they are visible.

A lookup may lead to another one: of the qualifier of a name, of the namespace a directive names, of
a base class, of what an alias stands for. Such lookups nest to a fixed depth, below which nothing
is found. A `Level` holds the lookups of one depth, made from those one deeper.
-/

namespace CppRefactor

/-- Which kinds of symbols are looked for. -/
inductive Filter
  | any
  | types
  | scopes
  | objects
  deriving DecidableEq, Repr, Inhabited

def Filter.accepts : Filter → SymbolKind → Bool
  | any, _ => true
  | types, k => k.isType
  | scopes, k => k.canQualify
  | objects, k => k.isObject

/-- From where a name is looked up, what is looked for, and which using-directives do not count. -/
structure Query where
  site : Site
  filter : Filter
  disabled : List DirectivePlace := []
  deriving Inhabited

/-- What a search has found so far, and the namespaces it has been in. -/
structure Search where
  found : List SymbolId
  visited : List SymbolId

def Search.start : Search := ⟨[], []⟩

/-- The lookups of one depth. -/
structure Level where
  /-- An unqualified name, from the innermost scope outwards. -/
  unqualified : Query → String → List SymbolId
  /-- A name in a namespace, a class or an enumeration. -/
  member : Query → SymbolId → String → List SymbolId
  /-- A path, segment by segment. -/
  path : Query → TypePath → List SymbolId
  /-- What a symbol stands for: aliases are followed, and a class leads to its definition. -/
  target : SymbolId → Option SymbolId
  inNamespace : Query → SymbolId → String → Search → Search
  inClass : Query → SymbolId → String → List SymbolId

/-- The lookups below the greatest depth. -/
def Level.deepest : Level :=
  { unqualified := fun _ _ => []
    member := fun _ _ _ => []
    path := fun _ _ => []
    target := fun _ => none
    inNamespace := fun _ _ _ s => s
    inClass := fun _ _ _ => [] }

namespace SymbolTable

variable (t : SymbolTable)

/-- The scopes from a class body to the innermost namespace around it, which is left over. -/
def classScopes : Nat → ScopeId → List ScopeId × Option ScopeId
  | 0, id => ([], some id)
  | n + 1, id =>
    if (t.scope id).isNamespaceBody then ([], some id)
    else
      match (t.scope id).parent with
      | none => ([id], none)
      | some parent =>
        let (inner, rest) := classScopes n parent
        (id :: inner, rest)

/-- The scopes searched from a scope on, behind those in `passed`. -/
def chainFrom : Nat → List ScopeId → ScopeId → List ScopeId
  | 0, passed, _ => passed
  | n + 1, passed, id =>
    if passed.contains id then passed
    else
      let passed := passed ++ [id]
      let next :=
        match (t.scope id).classContext with
        | some body =>
          let (inner, rest) := t.classScopes t.scopes.size body
          (passed ++ inner, rest)
        | none => (passed, (t.scope id).parent)
      match next with
      | (passed, some outer) => chainFrom n passed outer
      | (passed, none) => passed

/-- The scopes an unqualified name is looked up in, the innermost first. From the body of a member
that is defined outside its class the way leads through the class. -/
def lookupOrder (id : ScopeId) : List ScopeId := t.chainFrom (t.scopes.size + 1) [] id

/-- The class in whose body, or in the body of whose member, a scope is. -/
def surroundingClass? (id : ScopeId) : Option SymbolId := do
  (t.scope (← (t.lookupOrder id).find? fun s => (t.scope s).kind == .classBody)).owner

/-- The symbol is of another file or declared before the place of the lookup. -/
def isDeclaredBefore (q : Query) (s : Symbol) : Bool :=
  s.file != q.site.file || s.nameSpan.start < q.site.offset

def matchesQuery (q : Query) (name : String) (id : SymbolId) : Bool :=
  (t.symbol id).name == name && q.filter.accepts (t.symbol id).kind

/-- The enumerators of an unscoped enumeration, which are found where it is declared. -/
def exposedEnumerators (id : SymbolId) : List SymbolId :=
  let s := t.symbol id
  if s.kind == .enumKind && !s.flags.isScoped then
    match s.scope with
    | some body => (t.scope body).members
    | none => []
  else []

/-- The members of that name in one scope, with those its using-declarations name. With `ordered`
only what stands before the place of the lookup counts. -/
def inScope (below : Level) (ordered : Bool) (q : Query) (id : ScopeId) (name : String) :
    List SymbolId :=
  let s := t.scope id
  let members := s.members.filter fun m => !ordered || isDeclaredBefore q (t.symbol m)
  let direct := (members.flatMap fun m => m :: t.exposedEnumerators m).filter
    (t.matchesQuery q name)
  let named := s.usingDeclarations.filter fun d =>
    d.name == name && !(ordered && s.file == q.site.file && q.site.offset ≤ d.offset)
  direct ++ named.flatMap fun d => below.path { q with site := ⟨s.file, id, d.offset⟩ } d.path

/-- The namespace that a using-directive names. -/
def directiveTarget? (below : Level) (q : Query) (d : UsingDirective) : Option SymbolId := do
  let candidates := below.path { q with site := d.site, filter := .scopes } d.path
  let named ← candidates.find? fun s =>
    (t.symbol s).kind == .namespaceKind || (t.symbol s).kind == .namespaceAlias
  below.target named

/-- Searches the namespaces that the directives of a scope name. -/
def inDirectives (below : Level) (q : Query) (id : ScopeId) (name : String) (s : Search) : Search :=
  let directives := (t.scope id).usings.filter fun d =>
    !q.disabled.contains d.place && !(d.file == q.site.file && q.site.offset ≤ d.span.start)
  directives.foldl (fun s d =>
    match t.directiveTarget? below q d with
    | some ns => below.inNamespace q ns name s
    | none => s) s

/-- Searches a block of a namespace and the transparent namespaces in it. -/
def inBlock (below : Level) (q : Query) (name : String) (s : Search) (block : ScopeId) : Search :=
  let s := { s with found := s.found ++ t.inScope below true q block name }
  let nested := (t.scope block).members.filter fun m => (t.symbol m).isTransparent
  nested.foldl (fun s ns => below.inNamespace q ns name s) s

/-- Searches all visible blocks of a namespace, and if nothing has been found, the namespaces their
directives name. -/
def inNamespace (below : Level) (q : Query) (ns : SymbolId) (name : String) (s : Search) :
    Search :=
  if s.visited.contains ns then s
  else
    let blocks := (t.blocks ns).filter fun b => t.isSeenFrom q.site.file (t.scope b).file
    let s := blocks.foldl (t.inBlock below q name) { s with visited := s.visited ++ [ns] }
    if s.found.isEmpty then blocks.foldl (fun s b => t.inDirectives below q b name s) s else s

/-- What a symbol stands for. -/
def targetAt (below : Level) (id : SymbolId) : Option SymbolId :=
  let s := t.symbol id
  if s.kind == .namespaceAlias || s.kind == .typeAlias then do
    let type ← s.type
    match type.target with
    | some target => below.target target
    | none =>
      let filter := if s.kind == .namespaceAlias then Filter.scopes else .types
      below.target (← (below.path ⟨type.site, filter, []⟩ (← type.path)).head?)
  else if (s.kind.isClass || s.kind == .enumKind) && !s.flags.isDefinition then
    let definition := (t.withName s.name).find? fun other =>
      (t.symbol other).flags.isDefinition && (t.symbol other).kind.isClass == s.kind.isClass &&
        t.qualifiedName other == t.qualifiedName id
    some (definition.getD id)
  else some id

/-- Searches a class, and if nothing is found, its bases one after the other. -/
def inClass (below : Level) (q : Query) (id : SymbolId) (name : String) : List SymbolId :=
  match t.targetAt below id with
  | none => []
  | some target =>
    match (t.symbol target).scope with
    | none => []
    | some body =>
      match t.inScope below false q body name with
      | [] =>
        let inBase (base : TypeRef) : Option (List SymbolId) := do
          let cls ← (below.path ⟨base.site, .types, []⟩ (← base.path)).head?
          let found := below.inClass q cls name
          guard !found.isEmpty
          return found
        ((t.symbol target).bases.findSome? inBase).getD []
      | found => found

def memberAt (below : Level) (q : Query) (owner : SymbolId) (name : String) : List SymbolId :=
  match t.targetAt below owner with
  | none => []
  | some target =>
    let s := t.symbol target
    if s.isNamespace then distinct (t.inNamespace below q target name .start).found
    else if s.kind.isClass then distinct (t.inClass below q target name)
    else if s.kind == .enumKind then
      match s.scope with
      | some body => distinct (t.inScope below false q body name)
      | none => []
    else []

/-- What an unqualified lookup finds in one scope of its way; `passed` are the namespaces that have
been searched. -/
def inChainScope (below : Level) (q : Query) (name : String) (passed : List SymbolId)
    (id : ScopeId) : List SymbolId :=
  let s := t.scope id
  match s.kind with
  | .file | .namespaceBlock =>
    match s.owner with
    | some ns =>
      if passed.contains ns then [] else (t.inNamespace below q ns name .start).found
    | none => []
  | .classBody =>
    match s.owner with
    | some cls => t.inClass below q cls name
    | none => []
  | .enumBody => t.inScope below false q id name
  | .function | .block =>
    match t.inScope below true q id name with
    | [] => (t.inDirectives below q id name .start).found
    | found => found

/-- The first scope on the way in which something is found has the result. -/
def alongChain (below : Level) (q : Query) (name : String) (passed : List SymbolId) :
    List ScopeId → List SymbolId
  | [] => []
  | id :: rest =>
    match t.inChainScope below q name passed id with
    | [] =>
      let s := t.scope id
      let passed := if s.isNamespaceBody then passed ++ s.owner.toList else passed
      alongChain below q name passed rest
    | found => distinct found

def unqualifiedAt (below : Level) (q : Query) (name : String) : List SymbolId :=
  t.alongChain below q name [] (t.lookupOrder q.site.scope)

/-- Looks segments up in what the segment before them named. -/
def pathBehind (below : Level) (q : Query) (found : List SymbolId) :
    List PathSegment → List SymbolId
  | [] => found
  | segment :: rest =>
    match found.find? fun s => (t.symbol s).kind.canQualify with
    | none => []
    | some owner =>
      let filter := if rest.isEmpty then q.filter else .scopes
      pathBehind below q (below.member { q with filter } owner segment.name) rest

def pathAt (below : Level) (q : Query) (path : TypePath) : List SymbolId :=
  match path.segments with
  | [] => []
  | first :: rest =>
    let q₁ := { q with filter := if rest.isEmpty then q.filter else Filter.scopes }
    let found :=
      if path.isGlobal then below.member q₁ global first.name
      else below.unqualified q₁ first.name
    t.pathBehind below q found rest

/-- The lookups that may go on to those of `below`. -/
def levelAbove (below : Level) : Level :=
  { unqualified := t.unqualifiedAt below
    member := t.memberAt below
    path := t.pathAt below
    target := t.targetAt below
    inNamespace := t.inNamespace below
    inClass := t.inClass below }

/-- The lookups that may nest `n` deep. -/
def level : Nat → Level
  | 0 => .deepest
  | n + 1 => t.levelAbove (level n)

/-- How deep lookups nest. -/
def lookupDepth : Nat := 25

/-- Looks an unqualified name up. -/
def lookup (q : Query) (name : String) : List SymbolId := (t.level lookupDepth).unqualified q name

/-- Looks a path up. -/
def lookupPath (q : Query) (path : TypePath) : List SymbolId := (t.level lookupDepth).path q path

/-- Looks a name up in a namespace, a class or an enumeration. -/
def lookupMember (q : Query) (owner : SymbolId) (name : String) : List SymbolId :=
  (t.level lookupDepth).member q owner name

/-- The namespace, class or enumeration that a symbol stands for. -/
def standsFor? (id : SymbolId) : Option SymbolId := (t.level lookupDepth).target id

/-- Both stand for the same thing: one is the other, or its declaration, or declares the same type,
namespace or object again. -/
def denoteSame (a b : SymbolId) : Bool :=
  let s := t.symbol a
  let s' := t.symbol b
  a == b || t.declaration? a == some b || t.declaration? b == some a ||
    (((s.kind.isClass && s'.kind.isClass) || (s.kind == s'.kind && !s.kind.isFunction)) &&
      s.name == s'.name && t.qualifiedName a == t.qualifiedName b)

/-- A name of this symbol says nothing in a qualified name. -/
def isSkippedInNames (id : SymbolId) : Bool :=
  let s := t.symbol id
  s.isAnonymous || (s.isNamespace && s.flags.isInline) ||
    (s.kind == .enumKind && !s.flags.isScoped)

/-- The names that qualify a symbol from the outside in, and its own. -/
def qualifyingNames (id : SymbolId) : List String :=
  let outer := (t.enclosing id).reverse.filter fun s => !t.isSkippedInNames s
  (outer ++ [id]).map fun s => (t.symbol s).name

/-- A name finds the symbol at a place, and nothing else. -/
def namesOnly (site : Site) (disabled : List DirectivePlace) (id : SymbolId)
    (names : List String) : Bool :=
  let found := t.lookupPath ⟨site, .any, disabled⟩ (.ofNames names)
  !found.isEmpty && found.all fun f => t.denoteSame f id

/-- The shortest end of a symbol's qualified name that finds it alone at a place, or else the whole
name. -/
def shortestNames (site : Site) (disabled : List DirectivePlace) (id : SymbolId) : List String :=
  let names := t.qualifyingNames id
  let ends := (List.range names.length).reverse.map names.drop
  (ends.find? (t.namesOnly site disabled id)).getD names

def shortestName (site : Site) (disabled : List DirectivePlace) (id : SymbolId) : String :=
  "::".intercalate (t.shortestNames site disabled id)

end SymbolTable

end CppRefactor
