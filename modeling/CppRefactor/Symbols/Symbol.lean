import CppRefactor.Symbols.TypePath
import CppRefactor.Syntax.View.Item

/-!
Symbols, what programs declare, and scopes, in which they declare it. Files, symbols and scopes are
known by their numbers, in the order of paths and of creation.
-/

namespace CppRefactor

abbrev FileId := Nat

abbrev SymbolId := Nat

abbrev ScopeId := Nat

/-- The file of the global namespace, which stands in none. -/
def noFile : FileId := 0xFFFFFFFF

inductive SymbolKind
  | namespaceKind | namespaceAlias | classKind | structKind | unionKind | enumKind | enumerator
  | field | method | function | variableKind | parameter | typeAlias | templateParam
  deriving DecidableEq, Repr, Inhabited

namespace SymbolKind

/-- The name a kind is reported by. -/
def name : SymbolKind → String
  | namespaceKind => "Namespace"
  | namespaceAlias => "NamespaceAlias"
  | classKind => "Class"
  | structKind => "Struct"
  | unionKind => "Union"
  | enumKind => "Enum"
  | enumerator => "Enumerator"
  | field => "Field"
  | method => "Method"
  | function => "Function"
  | variableKind => "Variable"
  | parameter => "Parameter"
  | typeAlias => "TypeAlias"
  | templateParam => "TemplateParam"

def isClass : SymbolKind → Bool
  | classKind | structKind | unionKind => true
  | _ => false

/-- It names a type. -/
def isType (k : SymbolKind) : Bool :=
  k.isClass || k == enumKind || k == typeAlias || k == templateParam

def isFunction : SymbolKind → Bool
  | method | function => true
  | _ => false

/-- It names an object or a function. -/
def isObject (k : SymbolKind) : Bool :=
  k.isFunction || k == enumerator || k == field || k == variableKind || k == parameter

/-- It can stand before `::`. -/
def canQualify (k : SymbolKind) : Bool := k.isType || k == namespaceKind || k == namespaceAlias

/-- The kind of a class or enumeration by its keyword. -/
def ofKey : Option Kind → SymbolKind
  | some .structKw => structKind
  | some .unionKw => unionKind
  | some .enumKw => enumKind
  | _ => classKind

end SymbolKind

/-- A place from which a name is looked up. -/
structure Site where
  file : FileId
  scope : ScopeId
  offset : Nat
  deriving DecidableEq, Repr, Inhabited

/-- A type as a declaration has it, and the place from which its name is looked up. -/
structure TypeRef where
  /-- The type without `const` and without pointers. -/
  spelled : String
  path : Option TypePath
  isConst : Bool
  /-- Pointer and reference operators. -/
  pointers : String
  /-- The class or enumeration that is defined in the declaration itself. -/
  target : Option SymbolId
  site : Site
  deriving DecidableEq, Repr, Inhabited

namespace TypeRef

def ofText (text : String) (site : Site) : TypeRef :=
  let cs := Text.trimChars text.toList
  let (isConst, cs) :=
    match Text.dropStart? "const " cs with
    | some rest => (true, rest)
    | none => (false, cs)
  let base := String.ofList (Text.trimChars (Text.dropLastWhile TypePath.isPointerOrSpace cs))
  let pointers := (Text.takeLastWhile TypePath.isPointerOrSpace cs).filter (!Text.isBlank ·)
  { spelled := base
    path := TypePath.parse base
    isConst
    pointers := .ofList pointers
    target := none
    site }

/-- A type that is a name as written. -/
def ofName (name : Tree) (site : Site) : TypeRef :=
  ⟨name.spelling, TypePath.ofName? name, false, "", none, site⟩

def isPointer (t : TypeRef) : Bool := t.pointers.toList.contains '*'

def isReference (t : TypeRef) : Bool := t.pointers.toList.getLast? == some '&'

/-- The whole type: `const int *`. -/
def display (t : TypeRef) : String :=
  (if t.isConst then "const " else "") ++ t.spelled ++
    (if t.pointers.isEmpty then "" else " " ++ t.pointers)

end TypeRef

structure SymbolFlags where
  isStatic : Bool := false
  isConst : Bool := false
  /-- An `enum class`. -/
  isScoped : Bool := false
  /-- An inline namespace or a function declared inline. -/
  isInline : Bool := false
  /-- It has its body here. -/
  isDefinition : Bool := false
  isVirtual : Bool := false
  deriving DecidableEq, Repr, Inhabited

structure Symbol where
  name : String
  kind : SymbolKind
  file : FileId
  nameSpan : Span
  /-- The whole declaration with the templates around it. -/
  declSpan : Span
  /-- The scope it is declared in; the global namespace has none. -/
  parent : Option ScopeId := none
  /-- The scope its body is. -/
  scope : Option ScopeId := none
  /-- The type of an object, the result of a function, what an alias stands for. -/
  type : Option TypeRef := none
  /-- The types of the parameters of a function. -/
  params : List String := []
  /-- What is written behind the parameters. -/
  qualifiers : String := ""
  access : Option Access := none
  templateParams : List String := []
  bases : List TypeRef := []
  /-- The class or namespace of a definition outside it. -/
  qualifier : Option TypePath := none
  flags : SymbolFlags := {}
  deriving DecidableEq, Repr, Inhabited

namespace Symbol

def isAnonymous (s : Symbol) : Bool := s.name.isEmpty

def isNamespace (s : Symbol) : Bool := s.kind == .namespaceKind

/-- An anonymous or inline namespace: its members are found as if they stood outside it. -/
def isTransparent (s : Symbol) : Bool :=
  s.isNamespace && (s.flags.isInline || s.isAnonymous)

end Symbol

inductive ScopeKind
  | file
  | namespaceBlock
  | classBody
  | enumBody
  | function
  | block
  deriving DecidableEq, Repr, Inhabited

/-- The name a kind is reported by. -/
def ScopeKind.name : ScopeKind → String
  | file => "File"
  | namespaceBlock => "Namespace"
  | classBody => "Class"
  | enumBody => "Enum"
  | function => "Function"
  | block => "Block"

/-- A using-directive by its place. -/
structure DirectivePlace where
  file : FileId
  offset : Nat
  deriving DecidableEq, Repr, Inhabited

/-- `using namespace N;` -/
structure UsingDirective where
  file : FileId
  span : Span
  path : TypePath
  scope : ScopeId
  deriving DecidableEq, Repr, Inhabited

def UsingDirective.place (d : UsingDirective) : DirectivePlace := ⟨d.file, d.span.start⟩

def UsingDirective.site (d : UsingDirective) : Site := ⟨d.file, d.scope, d.span.start⟩

/-- `using N::name;` -/
structure UsingDeclaration where
  name : String
  path : TypePath
  offset : Nat
  deriving DecidableEq, Repr, Inhabited

/-- A scope. One of a namespace is a single block; all blocks of the namespace have one owner. -/
structure Scope where
  kind : ScopeKind
  parent : Option ScopeId
  owner : Option SymbolId
  file : FileId
  span : Span
  /-- The symbols declared directly in it, in order. -/
  members : List SymbolId := []
  children : List ScopeId := []
  usings : List UsingDirective := []
  usingDeclarations : List UsingDeclaration := []
  /-- The class body that is searched behind the body of a member defined outside it. -/
  classContext : Option ScopeId := none
  deriving DecidableEq, Repr, Inhabited

/-- A file or a block of a namespace. -/
def Scope.isNamespaceBody (s : Scope) : Bool := s.kind == .file || s.kind == .namespaceBlock

end CppRefactor
