import CppRefactor.Symbols.Lookup
import CppRefactor.Syntax.View.Expression

/-!
The classes and enumerations that types name and expressions have. Aliases are followed, and
template parameters stand for the arguments a class was named with.
-/

namespace CppRefactor

/-- What template parameters stand for. -/
abbrev Bindings := List (String × TypeRef)

/-- A class or an enumeration, with what its template parameters stand for. -/
structure Typed where
  symbol : SymbolId
  bindings : Bindings
  deriving Inhabited

namespace SymbolTable

variable (t : SymbolTable)

/-- Pairs the template parameters of a class or an alias with arguments. -/
def pairParameters (id : SymbolId) (args : List String) (site : Site) : Bindings :=
  ((t.symbol id).templateParams.zip args).map fun (param, arg) => (param, .ofText arg site)

/-- What a parameter bound in `bindings` stands for, if a path is just its name. -/
def bound? (bindings : Bindings) (path : TypePath) : Option TypeRef :=
  match path.isGlobal, path.segments with
  | false, [segment] => bindings.lookup segment.name
  | _, _ => none

mutual

/-- What a type as written names, in at most `n` steps. -/
def refAsType : Nat → Bindings → TypeRef → Option Typed
  | 0, _, _ => none
  | n + 1, bindings, type =>
    match type.target, type.path with
    | some target, _ => symbolAsType n [] target
    | none, none => none
    | none, some path =>
      match bound? bindings path with
      | some bound => refAsType n [] bound
      | none =>
        match t.lookupPath ⟨type.site, .types, []⟩ path with
        | [] => none
        | first :: _ => symbolAsType n (t.pairParameters first path.last.args type.site) first

/-- What a symbol is as a type, in at most `n` steps. -/
def symbolAsType : Nat → Bindings → SymbolId → Option Typed
  | 0, _, _ => none
  | n + 1, bindings, id =>
    let s := t.symbol id
    if s.kind == .typeAlias then
      match s.type with
      | some type => refAsType n [] type
      | none => none
    else if s.kind.isClass || s.kind == .enumKind then some ⟨(t.standsFor? id).getD id, bindings⟩
    else none

end

/-- How many steps lead at most from an expression to its type. -/
def typingDepth : Nat := 17

/-- The class or enumeration that a type names. -/
def typeNamedBy? (type : TypeRef) : Option SymbolId :=
  (t.refAsType typingDepth [] type).map (·.symbol)

/-- What an object is of, a function gives, or a type is, in at most `n` steps behind this one. A
pointer to a pointer is of nothing. -/
def typedOf (n : Nat) (bindings : Bindings) (id : SymbolId) : Option Typed :=
  let s := t.symbol id
  match s.kind with
  | .variableKind | .field | .parameter | .method | .function => do
    let type ← s.type
    guard (type.pointers.toList.count '*' ≤ 1)
    t.refAsType n bindings type
  | .enumerator => (t.owner? id).map (⟨·, []⟩)
  | _ => t.symbolAsType n [] id

/-- The class or enumeration an object is of or a function gives. -/
def typeOf? (id : SymbolId) : Option SymbolId :=
  (t.typedOf (typingDepth - 1) [] id).map (·.symbol)

/-- Goes from one segment of a qualifier to the next; `found` are the symbols of the segment. -/
def throughSegment (n : Nat) (site : Site) (segment : PathSegment) (bindings : Bindings)
    (found : List SymbolId) : Option Typed := do
  let first ← found.head?
  let typed ←
    if (t.symbol first).kind == .typeAlias then t.symbolAsType n [] first
    else some ⟨first, []⟩
  return ⟨typed.symbol,
    bindings ++ typed.bindings ++ t.pairParameters typed.symbol segment.args site⟩

/-- Follows the segments of a qualifier behind an owner. -/
def throughQualifier (n : Nat) (site : Site) (owner : Typed) : List PathSegment → Option Typed
  | [] => some owner
  | segment :: rest => do
    let found := t.lookupMember ⟨site, .scopes, []⟩ owner.symbol segment.name
    throughQualifier n site (← t.throughSegment n site segment owner.bindings found) rest

/-- What a name as the start of a path finds. -/
def lookupFirst (q : Query) (isGlobal : Bool) (name : String) : List SymbolId :=
  if isGlobal then t.lookupMember q global name else t.lookup q name

/-- The symbol that a path names, and what the template parameters on the way stand for. An object
goes before a type of the same name. -/
def resolvePath (n : Nat) (site : Site) (path : TypePath) : Option Typed :=
  match path.segments with
  | [] => none
  | [segment] => do
    let found := t.lookupFirst ⟨site, .any, []⟩ path.isGlobal segment.name
    let symbol ← (found.find? fun s => (t.symbol s).kind.isObject).or found.head?
    return ⟨symbol, []⟩
  | first :: rest => do
    let found := t.lookupFirst ⟨site, .scopes, []⟩ path.isGlobal first.name
    let start ← t.throughSegment n site first [] found
    let owner ← t.throughQualifier n site start rest.dropLast
    let symbol ← (t.lookupMember ⟨site, .any, []⟩ owner.symbol path.last.name).head?
    return ⟨symbol, owner.bindings⟩

/-- The symbol of a name in a file, with bindings. -/
def resolveName (n : Nat) (file : FileId) (name : Tree) : Option Typed := do
  let path ← TypePath.ofName? name
  let site ← t.siteAt? file name.span.start
  t.resolvePath n site path

/-- The member that a name behind a dot or an arrow names. -/
def resolveMember (file : FileId) (owner : Typed) (reference : Tree) : Option Typed := do
  let segment ← reference.name?.bind Name.last?
  let site ← t.siteAt? file reference.span.start
  let found ← (t.lookupMember ⟨site, .objects, []⟩ owner.symbol segment.text).head?
  return ⟨found, owner.bindings⟩

/-- How far an expression is read: what it is of so far, and whether a member follows. -/
structure Walk where
  current : Option Typed
  pending : Bool

def Walk.start : Walk := ⟨none, false⟩

/-- The symbol that a name in an expression names. -/
def referenced (n : Nat) (file : FileId) (w : Walk) (reference : Tree) : Option Typed :=
  if w.pending then do t.resolveMember file (← w.current) reference
  else do t.resolveName n file (← reference.name?)

/-- Reads a token of an expression. -/
def walkToken (file : FileId) (isFirst : Bool) (w : Walk) (token : Token) : Option Walk :=
  match token.kind, isFirst with
  | .dot, _ | .arrow, _ => do
    discard w.current
    return { w with pending := true }
  | .thisKw, true => do
    let site ← t.siteAt? file token.offset
    let cls ← t.surroundingClass? site.scope
    return { w with current := some ⟨cls, []⟩ }
  | .star, true | .amp, true => some w
  | _, _ => none

/-- Reads the parts of an expression that are not trivia. A function that is not called, an operator
inside the expression and any other part that is none of these have no type: names, members, calls
and parentheses at the start. -/
def walkParts (n : Nat) (file : FileId) (inner : Tree → Option Typed) (isFirst : Bool) (w : Walk) :
    List Tree → Option Walk
  | [] => some w
  | part :: rest => do
    let w ←
      match part with
      | .token token => t.walkToken file isFirst w token
      | .node .nameRef s ts => do
        let found ← t.referenced n file w (.node .nameRef s ts)
        guard !((t.symbol found.symbol).kind.isFunction && !rest.head?.any (·.kind == .argList))
        let typed ← t.typedOf n found.bindings found.symbol
        some ⟨some typed, false⟩
      | .node .argList _ _ => do
        discard w.current
        some w
      | .node .parenExpr s ts => do
        guard isFirst
        let typed ← inner (← (Tree.node .parenExpr s ts).child? .expr)
        some { w with current := some typed }
      | .node .. => none
    walkParts n file inner false w rest

def significantParts (expr : Tree) : List Tree := expr.parts.filter (!·.kind.isTrivia)

/-- What an expression is of, for parentheses that nest `n` deep. -/
def typedExpression (file : FileId) : Nat → Tree → Option Typed
  | 0, _ => none
  | n + 1, expr => do
    let w ← t.walkParts (n - 1) file (typedExpression file n) true .start (significantParts expr)
    guard !w.pending
    w.current

/-- The class or enumeration that an expression is of: `a`, `a.b->c`, `this->m`, `S<E>::get()`. -/
def typeOfExpression? (file : FileId) (expr : Tree) : Option SymbolId :=
  (t.typedExpression file typingDepth expr).map (·.symbol)

/-- The symbol that a reference to a name names. For a member, the expression before it is read. -/
def resolveReference (file : FileId) (reference : Cursor) : Option SymbolId :=
  if NameReference.isMember reference then do
    let expr ← reference.up?
    guard (expr.kind == .expr)
    let before := (reference.before.filter (!·.kind.isTrivia)).reverse
    let w ← t.walkParts (typingDepth - 2) file (t.typedExpression file (typingDepth - 1)) true
      .start before
    return (← t.referenced (typingDepth - 2) file w reference.focus).symbol
  else do
    return (← t.resolveName (typingDepth - 1) file (← reference.focus.name?)).symbol

end SymbolTable

end CppRefactor
