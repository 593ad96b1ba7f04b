import CppRefactor.Symbols.Typing

/-!
What the nodes of a tree refer to: the symbol that a name declares or names.
-/

namespace CppRefactor

/-- A symbol that a node refers to. -/
structure Reference where
  symbol : SymbolId
  kind : SymbolKind
  /-- The class or enumeration an object is of, or the type itself. -/
  type : Option SymbolId
  /-- The scopes around the declaration, the innermost first. -/
  chain : List ScopeId
  deriving DecidableEq, Repr, Inhabited

namespace SymbolTable

variable (t : SymbolTable)

/-- The symbol that a qualified name declares, if one is declared there, or else names. -/
def symbolOfName? (file : FileId) (name : Cursor) : Option SymbolId := do
  let segment ← Name.last? name.focus
  match t.declaredAt? file segment.span.start with
  | some declared => return declared
  | none =>
    match name.up?.filter (·.kind == .nameRef) with
    | some reference => t.resolveReference file reference
    | none =>
      let path ← TypePath.ofName? name.focus
      let site ← t.siteAt? file name.span.start
      (t.lookupPath ⟨site, .any, []⟩ path).head?

/-- The symbol that a node declares or names. -/
def symbolOf? (file : FileId) (node : Cursor) : Option SymbolId :=
  match node.kind with
  | .nameRef => t.resolveReference file node
  | .qualifiedName => t.symbolOfName? file node
  | .enumerator => do t.declaredAt? file (← node.focus.firstToken? .ident).offset
  | _ => do t.symbolOfName? file (← node.child? .qualifiedName)

def reference? (file : FileId) (node : Cursor) : Option Reference := do
  let symbol ← t.symbolOf? file node
  let s := t.symbol symbol
  return {
    symbol
    kind := s.kind
    type := if s.kind.isType then t.standsFor? symbol else t.typeOf? symbol
    chain := (s.parent.map t.lookupOrder).getD [] }

end SymbolTable

end CppRefactor
