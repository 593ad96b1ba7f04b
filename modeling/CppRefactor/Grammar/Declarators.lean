import CppRefactor.Grammar.Expressions

/-!
Declarators, parameters and initializers.
-/

namespace CppRefactor.Grammar

variable (go : Rule → Parser Unit)

def pointerOperators : Parser Unit :=
  loopWhile (isAtAny [.star, .amp, .ampAmp]) do
    node .ptrOp do
      advance
      loopWhile (isAtAny [.constKw, .volatileKw]) advance

/-- `= value` up to one of `stops`. -/
def equalInitializer (stops : List Kind) : Parser Unit :=
  node .initializer do
    advance
    go (.expression stops)

def parameter : Parser Unit :=
  node .param do
    go (.specifiers .parameter)
    go (.declarator .parameter)
    if ← isAt .eq then equalInitializer go [.comma, .rParen]

/-- `( parameters )`. -/
def parameterList : Parser Unit :=
  node .paramList do
    advance
    loop do
      if (← atEnd) || (← isAt .rParen) then return false
      if ← isAt .ellipsis then advance else parameter go
      if ← accept .comma then return true
      if ← isAt .rParen then return false
      recover .noParameterEnd [.comma, .rParen, .lBrace, .semicolon]
      accept .comma
    discard (expect .rParen)

/-- What may stand behind a parameter list: qualifiers, exception specifications, macros and a
return type. -/
def functionQualifiers : Parser Unit :=
  loop do
    if ← atEnd then return false
    match ← peek with
    | .constKw | .volatileKw | .amp | .ampAmp =>
      advance
      return true
    | .noexceptKw | .throwKw =>
      advance
      if ← isAt .lParen then takeParentheses
      return true
    | .ident =>
      let text ← textAt 0
      if text == "override" || text == "final" then
        advance
        return true
      else if Guess.isMacroName text then
        advance
        if ← isAt .lParen then takeParentheses
        return true
      else return false
    | .arrow =>
      node .trailingReturn do
        advance
        typeId go
      return true
    | _ => return false

/-- An array bound or a parameter list behind a declarator. The results say whether there was one
and whether a name is directly followed by parameters. -/
def declaratorSuffix (place : Place) (named isFunction : Bool) : Parser (Bool × Bool) := do
  match ← peek with
  | .lBracket =>
    node .arraySuffix takeBrackets
    return (true, isFunction)
  | .lParen =>
    if named && !Guess.startsParameters place (← upcoming) then return (false, isFunction)
    parameterList go
    functionQualifiers go
    return (true, isFunction || named)
  | _ => return (false, isFunction)

/-- A declarator, which may name nothing. The result says whether its name is directly followed by
parameters. -/
def declarator (place : Place) : Parser Bool :=
  node .declarator do
    pointerOperators
    let nested := (← isAt .lParen) && [Kind.star, .amp, .ampAmp, .caret].contains (← kindAt 1)
    let named ←
      if nested then
        node .nestedDeclarator do
          advance
          go (.declarator place)
          discard (expect .rParen)
        pure false
      else
        discard (accept .ellipsis)
        let named ← isAtAny [.ident, .colonColon, .tilde, .operatorKw]
        if named then typeName go
        pure named
    loopFrom false fun isFunction => declaratorSuffix go place named isFunction

/-- The initializer of a declarator, if there is one: a value, `default`, `delete`, a braced or
parenthesised list, or the width of a bit-field. -/
def initializer (place : Place) (isFunction : Bool) : Parser Unit := do
  match ← peek with
  | .eq =>
    node .initializer do
      advance
      if ← isAtAny [.defaultKw, .deleteKw] then advance
      else go (.expression [.comma, .semicolon])
  | .lBrace =>
    unless isFunction do node .initializer (bracedInitializer go)
  | .lParen =>
    unless isFunction do node .initializer (arguments go)
  | .colon =>
    unless place == .block do equalInitializer go [.comma, .semicolon]
  | _ => pure ()

end CppRefactor.Grammar
