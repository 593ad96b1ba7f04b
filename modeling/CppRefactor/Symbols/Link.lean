import CppRefactor.Symbols.Lookup

/-!
Linking definitions to declarations. A member that is defined outside its class gets the class
searched behind its body, and a function that is defined apart from its declaration is linked to it.
-/

namespace CppRefactor

/-- A function with these words behind its parameters is `const`. -/
def hasConst (qualifiers : String) : Bool := (Text.words qualifiers).contains "const"

/-- Whether a type begins or ends with `const`, and the stars and ampersands at its end, the last
first. -/
def decoration (text : String) : Bool × List Char :=
  let cs := Text.trimChars text.toList
  let isConst := (Text.dropStart? "const " cs).isSome || (Text.dropEnd? " const" cs).isSome
  (isConst, (cs.reverse.filter (!Text.isBlank ·)).takeWhile fun c => c == '*' || c == '&')

/-- The characters but blanks. -/
def squash (text : String) : List Char := text.toList.filter (!Text.isBlank ·)

namespace SymbolTable

variable (t : SymbolTable)

/-- What the path of a type as text stands for. -/
def typeTarget? (text : String) (site : Site) : Option SymbolId := do
  let path ← TypePath.parse text
  let found ← (t.lookupPath ⟨site, .types, []⟩ path).head?
  return (t.standsFor? found).getD found

/-- Two types are spelled alike, or name the same thing with the same decoration. -/
def sameParameterType (a b : String) (siteA siteB : Site) : Bool :=
  squash a == squash b ||
    (decoration a == decoration b &&
      match t.typeTarget? a siteA, t.typeTarget? b siteB with
      | some x, some y => t.denoteSame x y
      | _, _ => false)

/-- The symbol declares the function that `definition` defines, whose parameters are read from a
place. -/
def declares (definition : Symbol) (site : Site) (c : Symbol) : Bool :=
  c.kind.isFunction && !c.flags.isDefinition && c.name == definition.name &&
    c.params.length == definition.params.length &&
    hasConst c.qualifiers == hasConst definition.qualifiers &&
    match c.parent with
    | none => false
    | some scope =>
      let declared : Site := ⟨c.file, scope, c.nameSpan.start⟩
      (c.params.zip definition.params).all fun (a, b) => t.sameParameterType a b declared site

/-- The member of a class or namespace that a definition belongs to. -/
def declarationFor? (owner definition : SymbolId) : Option SymbolId := do
  let d := t.symbol definition
  let scope ← ((t.symbol owner).scope.filter fun _ => (t.symbol owner).kind.isClass).or d.parent
  let site : Site := ⟨d.file, scope, d.nameSpan.start⟩
  (t.members owner).find? fun c => c != definition && t.declares d site (t.symbol c)

/-- The class or namespace that a definition outside it belongs to. -/
def qualifiedOwner? (definition : SymbolId) : Option SymbolId := do
  let d := t.symbol definition
  let qualifier ← d.qualifier
  let site : Site := ⟨d.file, ← d.parent, d.nameSpan.start⟩
  t.standsFor? (← (t.lookupPath ⟨site, .scopes, []⟩ qualifier).head?)

/-- The namespace a function is defined in, if that has a body and is not outside it. -/
def definedIn? (id : SymbolId) : Option SymbolId := do
  let s := t.symbol id
  guard (s.kind == .function && s.flags.isDefinition && !t.isOutOfLine id)
  let owner ← t.owner? id
  guard (t.symbol owner).isNamespace
  return owner

/-- A definition, its owner, and the declaration it belongs to. -/
structure Belonging where
  definition : SymbolId
  owner : SymbolId
  declaration : Option SymbolId

def belonging (definition owner : SymbolId) : Belonging :=
  ⟨definition, owner, t.declarationFor? owner definition⟩

/-- Gives a definition outside its class the class to search, and one outside its namespace the kind
of a function. -/
def attach (t : SymbolTable) (b : Belonging) : SymbolTable :=
  let owner := t.symbol b.owner
  if owner.kind.isClass then
    match owner.scope, (t.symbol b.definition).scope with
    | some cls, some body => t.modifyScope body fun s => { s with classContext := some cls }
    | _, _ => t
  else t.modifySymbol b.definition fun s => { s with kind := .function }

def linkOne (t : SymbolTable) (b : Belonging) : SymbolTable :=
  match b.declaration with
  | some d => t.link d b.definition
  | none => t

/-- Links all definitions; each is looked up in the table as it was before. -/
def withLinks (t : SymbolTable) : SymbolTable :=
  let outside := t.outOfLine.filterMap fun d => (t.qualifiedOwner? d).map (t.belonging d)
  let inside := (List.range t.symbols.size).filterMap fun d => (t.definedIn? d).map (t.belonging d)
  (outside ++ inside).foldl linkOne (outside.foldl attach t)

end SymbolTable

end CppRefactor
