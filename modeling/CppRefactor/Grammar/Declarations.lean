import CppRefactor.Grammar.Statements

/-!
Declarations: namespaces, using, templates, linkage blocks, macros, functions and what is declared
by specifiers and declarators.
-/

namespace CppRefactor.Grammar

variable (go : Rule → Parser Unit)

/-- `{ declarations }` of a namespace or a linkage block. -/
def declarationList : Parser Unit :=
  node .declList do
    advance
    loop do
      if (← atEnd) || (← isAt .rBrace) then return false
      go (.declaration .scope)
      return true
    discard (expect .rBrace)

/-- `namespace A::B { ... }`, with `inline` perhaps, or `namespace A = B;`. -/
def namespaceDeclaration : Parser Unit := do
  let start ← mark
  discard (accept .inlineKw)
  advance
  if ← atName then typeName go
  if ← accept .eq then
    typeName go
    discard (expect .semicolon)
    wrap .namespaceAlias start
  else
    if ← isAt .lBrace then declarationList go else report .noNamespaceBody
    wrap .namespaceDef start

/-- `using namespace N;`, `using T = U;` or `using N::name;`. -/
def usingDeclaration : Parser Unit := do
  let start ← mark
  advance
  if ← accept .namespaceKw then
    if ← atName then typeName go else report .noNamespaceName
    discard (expect .semicolon)
    wrap .usingDirective start
  else if (← isAt .ident) && (← kindAt 1) == .eq then
    advanceBy 2
    typeId go
    discard (expect .semicolon)
    wrap .aliasDecl start
  else
    discard (accept .typenameKw)
    typeName go
    discard (expect .semicolon)
    wrap .usingDecl start

/-- The words of a template parameter: those before a comma or a closing angle bracket that is not
in brackets itself. -/
def templateParameterLength : Nat → List Word → Nat
  | _, [] => 0
  | depth, w :: ws =>
    match w.kind with
    | .comma => if depth = 0 then 0 else 1 + templateParameterLength depth ws
    | .gt => if depth = 0 then 0 else 1 + templateParameterLength (depth - 1) ws
    | .lt | .lParen => 1 + templateParameterLength (depth + 1) ws
    | .rParen => 1 + templateParameterLength (depth - 1) ws
    | .lBrace | .semicolon => 0
    | _ => 1 + templateParameterLength depth ws

/-- `< parameters >`. -/
def templateParameters : Parser Unit :=
  node .templateParamList do
    advance
    loop do
      if (← atEnd) || (← isAt .gt) then return false
      node .templateParam do advanceBy (templateParameterLength 0 (← upcoming))
      accept .comma
    discard (expect .gt)

def templateDeclaration (place : Place) : Parser Unit :=
  node .templateDecl do
    advance
    if ← isAt .lt then templateParameters
    unless ← atEnd do go (.declaration place)

/-- `extern "C"` before a block or a declaration. -/
def linkageSpecification : Parser Unit :=
  node .linkageSpec do
    advanceBy 2
    if ← isAt .lBrace then declarationList go
    else unless ← atEnd do go (.declaration .scope)

def staticAssertion : Parser Unit :=
  node .staticAssert do
    advance
    if ← isAt .lParen then takeParentheses
    discard (expect .semicolon)

/-- `public:`, `protected slots:`, `signals:`. -/
def accessSpecifier : Parser Unit :=
  node .accessSpec do
    advance
    if (← isAt .ident) && (← kindAt 1) == .colon then advance
    discard (expect .colon)

/-- A macro by itself, with a semicolon if one stands on its line. -/
def macroCall : Parser Unit :=
  node .macroCall do
    advance
    if ← isAt .lParen then takeParentheses
    if (← isAt .semicolon) && (← word? 0).any (·.gap != .newline) then advance

/-- `: a(1), b{2}` before the body of a constructor. -/
def constructorInitializers : Parser Unit :=
  node .ctorInit do
    advance
    loop do
      node .memInit do
        if ← atName then typeName go else report .noMemberName
        if ← isAt .lParen then arguments go
        else if ← isAt .lBrace then bracedInitializer go
        else report .noMemberInitializer
        discard (accept .ellipsis)
      accept .comma

/-- What follows the declarator of a function that is defined here. -/
def functionBody : Parser Unit := do
  discard (accept .tryKw)
  if ← isAt .colon then constructorInitializers go
  if ← isAt .lBrace then block go else report .noFunctionBody
  catchClauses go

/-- The word ahead begins the body of a function. -/
def atFunctionBody (place : Place) : Parser Bool := do
  return (← isAtAny [.lBrace, .tryKw]) || ((← isAt .colon) && place != .block)

/-- Specifiers and declarators, or a function with its body. -/
def simpleDeclaration (place : Place) : Parser Unit := do
  let start ← mark
  specifiers go place
  if ← accept .semicolon then wrap .simpleDecl start
  else
    let declared ← mark
    let isFunction ← declarator go place
    if isFunction && (← atFunctionBody place) then
      functionBody go
      wrap .functionDef start
    else
      initializer go place isFunction
      wrap .initDeclarator declared
      loopWhile (accept .comma) do
        node .initDeclarator do initializer go place (← declarator go place)
      endWithSemicolon
      wrap .simpleDecl start

/-- Section names that stand like an access level. -/
def isSectionName (text : String) : Bool :=
  ["signals", "Q_SIGNALS", "slots", "Q_SLOTS"].contains text

def Place.isMembers : Place → Bool
  | .members _ => true
  | _ => false

def declaration (place : Place) : Parser Unit := do
  match ← peek with
  | .semicolon => node .emptyDecl advance
  | .namespaceKw => namespaceDeclaration go
  | .usingKw => usingDeclaration go
  | .templateKw => templateDeclaration go place
  | .staticAssertKw => staticAssertion
  | .inlineKw =>
    if (← kindAt 1) == .namespaceKw then namespaceDeclaration go else simpleDeclaration go place
  | .externKw =>
    if (← kindAt 1) == .stringLit then linkageSpecification go else simpleDeclaration go place
  | .publicKw | .protectedKw | .privateKw =>
    if place.isMembers then accessSpecifier else simpleDeclaration go place
  | .ident =>
    if place.isMembers && isSectionName (← textAt 0) && (← kindAt 1) == .colon then
      accessSpecifier
    else if Guess.startsMacroCall place (← upcoming) then macroCall
    else simpleDeclaration go place
  | _ => simpleDeclaration go place

end CppRefactor.Grammar
