import CppRefactor.Grammar.Declarators

/-!
Declaration specifiers, with the classes and enumerations that may stand in them.
-/

namespace CppRefactor.Grammar

variable (go : Rule → Parser Unit)

/-- `: specifiers` behind the name of an enumeration. -/
def enumBase : Parser Unit :=
  node .enumBase do
    advance
    go (.specifiers .parameter)

/-- `class A`, `enum B` without a body. -/
def elaboratedType : Parser Unit :=
  node .elaboratedType do
    let isEnum ← isAt .enumKw
    advance
    if isEnum && (← isAtAny [.classKw, .structKw]) then advance
    if ← atName then typeName go
    if isEnum && (← isAt .colon) then enumBase go

def baseClause : Parser Unit :=
  node .baseClause do
    advance
    loop do
      node .baseSpec do
        loopWhile (isAtAny [.virtualKw, .publicKw, .protectedKw, .privateKw]) advance
        if ← atName then typeName go else report .noBaseName
        discard (accept .ellipsis)
      accept .comma

/-- `{ members }` of a class with that name. -/
def memberList (className : Option String) : Parser Unit :=
  node .memberList do
    advance
    loop do
      if (← atEnd) || (← isAt .rBrace) then return false
      go (.declaration (.members className))
      return true
    discard (expect .rBrace)

def atFinal : Parser Bool := do
  return (← isAt .ident) && Guess.isFinal (← textAt 0)

/-- A class with a body. Macros may stand before its name. -/
def classSpecifier : Parser Unit :=
  node .classSpec do
    advance
    let atMarker : Parser Bool := do
      return (← isAt .ident) && (← kindAt 1) == .ident && !Guess.isFinal (← textAt 1)
    loopWhile atMarker advance
    let name ← if ← atName then qualifiedName go true else pure none
    if ← atFinal then advance
    if ← isAt .colon then baseClause go
    if ← isAt .lBrace then memberList go name else report .noClassBody

def enumerator : Parser Unit :=
  node .enumerator do
    advance
    if ← accept .eq then go (.expression [.comma, .rBrace])

/-- `{ enumerators }`. -/
def enumeratorList : Parser Unit :=
  node .enumeratorList do
    discard (expect .lBrace)
    loop do
      if (← atEnd) || (← isAt .rBrace) then return false
      if ← isAt .ident then enumerator go
      else recover .noEnumerator [.comma, .rBrace]
      unless ← accept .comma do
        unless ← isAt .rBrace do
          recover .noEnumeratorEnd [.comma, .rBrace]
          discard (accept .comma)
      return true
    discard (expect .rBrace)

/-- An enumeration with a body. -/
def enumSpecifier : Parser Unit :=
  node .enumSpec do
    advance
    if ← isAtAny [.classKw, .structKw] then advance
    if ← atName then typeName go
    if ← isAt .colon then enumBase go
    enumeratorList go

/-- The name ahead is a macro before the rest of the specifiers. -/
def atSpecifierMacro : Parser Bool := do
  let text ← textAt 0
  let next ← kindAt 1
  return (← isAt .ident) && Guess.isMacroName text && text.toList.contains '_' &&
    (next == .ident || next.isBuiltinType || next.isDeclModifier)

/-- A macro, or a type's name where no constructor begins; the results are those of a type
specifier. -/
def nameSpecifier (place : Place) : Parser (Bool × Bool) := do
  if ← atSpecifierMacro then
    advance
    return (true, false)
  else if place != .parameter && Guess.startsConstructor place (← upcoming) then
    return (false, false)
  else
    typeName go
    return (true, true)

/-- One specifier that names a type, while none does so far; the results say whether there was one
and whether a type is named now. -/
def typeSpecifier (place : Place) : Parser (Bool × Bool) := do
  match ← peek with
  | .classKw | .structKw | .unionKw =>
    if Guess.startsTypeDefinition (← upcoming) then classSpecifier go else elaboratedType go
    return (true, true)
  | .enumKw =>
    if Guess.startsTypeDefinition (← upcoming) then enumSpecifier go else elaboratedType go
    return (true, true)
  | .decltypeKw =>
    advance
    if ← isAt .lParen then takeParentheses
    return (true, true)
  | .ident | .colonColon => nameSpecifier go place
  | _ => return (false, false)

/-- Modifiers and built-in types, and at most one type named otherwise. -/
def specifiers (place : Place) : Parser Unit :=
  node .declSpecifiers do
    discard <| loopFrom false fun typed => do
      if ← atEnd then return (false, typed)
      let k ← peek
      if k.isDeclModifier then
        advance
        return (true, typed)
      else if k.isBuiltinType then
        advance
        return (true, true)
      else if typed then return (false, true)
      else typeSpecifier go place

end CppRefactor.Grammar
