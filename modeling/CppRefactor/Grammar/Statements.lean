import CppRefactor.Grammar.Specifiers

/-!
Statements.
-/

namespace CppRefactor.Grammar

variable (go : Rule → Parser Unit)

/-- `{ statements }`. -/
def block : Parser Unit :=
  node .compoundStmt do
    advance
    loop do
      if (← atEnd) || (← isAt .rBrace) then return false
      go .statement
      return true
    discard (expect .rBrace)

/-- The statement that another one controls. -/
def subStatement : Parser Unit := do
  if (← atEnd) || (← isAt .rBrace) then report .noStatement else go .statement

/-- A declarator with its value in the head of a statement. -/
def headDeclarator (stops : List Kind) : Parser Unit :=
  node .initDeclarator do
    discard (declarator go .block)
    if ← isAt .eq then equalInitializer go stops
    else if ← isAt .lBrace then node .initializer (bracedInitializer go)

/-- `( expression )`, or a declaration in its place; an `if` may have one before a semicolon. -/
def condition : Parser Unit :=
  node .condition do
    if ← expect .lParen then
      if Guess.startsDeclaration (← upcoming) then
        node .simpleDecl do
          specifiers go .block
          headDeclarator go [.semicolon]
      else go (.expression [])
      if ← accept .semicolon then go (.expression [])
      discard (expect .rParen)

/-- The head of a `for` behind its parenthesis: a range, or up to three parts. -/
def forHead : Parser Unit := do
  if Guess.startsDeclaration (← upcoming) then
    node .simpleDecl do
      specifiers go .block
      loop do
        headDeclarator go [.comma]
        accept .comma
  else unless ← isAt .semicolon do go (.expression [.colon])
  if ← accept .colon then go (.expression [])
  else if ← expect .semicolon then
    unless ← isAt .semicolon do go (.expression [])
    discard (expect .semicolon)
    unless ← isAt .rParen do go (.expression [])
  discard (expect .rParen)

def forStatement : Parser Unit :=
  node .forStmt do
    advance
    if ← expect .lParen then
      forHead go
      subStatement go

def catchClause : Parser Unit :=
  node .catchClause do
    advance
    if ← isAt .lParen then parameterList go
    if ← isAt .lBrace then block go else report .noCatchBlock

def catchClauses : Parser Unit := loopWhile (isAt .catchKw) (catchClause go)

def tryStatement : Parser Unit :=
  node .tryStmt do
    advance
    if ← isAt .lBrace then block go else report .noTryBlock
    catchClauses go

/-- A keyword and a semicolon. -/
def jump (kind : Kind) : Parser Unit :=
  node kind do
    advance
    if kind == .gotoStmt then discard (accept .ident)
    endWithSemicolon

/-- A keyword, a condition and the statement under it. -/
def controlled (kind : Kind) : Parser Unit :=
  node kind do
    advance
    condition go
    subStatement go

def expressionStatement : Parser Unit :=
  node .exprStmt do
    go (.expression [])
    endWithSemicolon

def statement : Parser Unit := do
  match ← peek with
  | .lBrace => block go
  | .switchKw => controlled go .switchStmt
  | .whileKw => controlled go .whileStmt
  | .caseKw =>
    node .caseLabel do
      advance
      go (.expression [.colon])
      unless ← accept .colon do report .noCaseColon
  | .ifKw =>
    node .ifStmt do
      advance
      discard (accept .constexprKw)
      condition go
      subStatement go
      if ← accept .elseKw then subStatement go
  | .doKw =>
    node .doStmt do
      advance
      subStatement go
      if ← expect .whileKw then condition go
      endWithSemicolon
  | .forKw => forStatement go
  | .returnKw =>
    node .returnStmt do
      advance
      unless ← isAt .semicolon do go (.expression [])
      endWithSemicolon
  | .breakKw => jump .breakStmt
  | .continueKw => jump .continueStmt
  | .gotoKw => jump .gotoStmt
  | .tryKw => tryStatement go
  | .semicolon => node .exprStmt advance
  | .usingKw | .typedefKw | .staticAssertKw | .namespaceKw | .templateKw =>
    go (.declaration .block)
  | k =>
    let labelled := (← kindAt 1) == .colon
    if k == .defaultKw && labelled then node .defaultLabel (advanceBy 2)
    else if k == .ident && labelled then node .exprStmt (advanceBy 2)
    else if Guess.startsDeclaration (← upcoming) then go (.declaration .block)
    else expressionStatement go

end CppRefactor.Grammar
