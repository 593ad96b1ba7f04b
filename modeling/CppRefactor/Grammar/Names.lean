import CppRefactor.Grammar.Guess

/-!
Names and what stands in angle brackets. `go` runs a rule of the grammar.
-/

namespace CppRefactor.Grammar

variable (go : Rule → Parser Unit)

/-- A type: specifiers, and a declarator that names nothing if one follows. -/
def typeId : Parser Unit := do
  go (.specifiers .parameter)
  if ← isAtAny [.star, .amp, .ampAmp, .lParen, .lBracket] then go (.declarator .parameter)

/-- What begins a template argument that is a value. -/
def startsArgumentValue (k : Kind) : Bool :=
  k.isLiteral ||
    [Kind.lParen, .minus, .trueKw, .falseKw, .nullptrKw, .sizeofKw, .amp].contains k

def templateArgument : Parser Unit := do
  if startsArgumentValue (← peek) then go (.expression [.comma, .gt])
  else
    typeId go
    unless (← isAtAny [.comma, .gt]) || (← atEnd) do go (.expression [.comma, .gt])
  discard (accept .ellipsis)

/-- `< arguments >`. -/
def templateArguments : Parser Unit :=
  node .templateArgList do
    advance
    loop do
      if (← atEnd) || (← isAt .gt) then return false
      templateArgument go
      accept .comma
    discard (expect .gt)

/-- An operator's name behind its keyword: an operator of one or more words, or a type to convert
to. -/
def operatorName : Parser Unit := do
  advance
  match ← peek with
  | .lParen | .lBracket =>
    advance
    advance
  | .newKw | .deleteKw =>
    advance
    if ← accept .lBracket then discard (expect .rBracket)
  | .stringLit =>
    advance
    discard (accept .ident)
  | .gt =>
    advance
    if (← isAt .gt) && (← kindAt 1) == .lParen then advance
  | k =>
    if k.isBuiltinType || k.isDeclModifier || k == .ident || k == .colonColon then
      go (.specifiers .parameter)
      loopWhile (isAtAny [.star, .amp, .ampAmp]) advance
    else unless ← atEnd do advance

/-- What may stand behind a segment of a name: template arguments, and `::` if another segment
follows. The results say whether one does, and which segment was the last. -/
def behindSegment (inType : Bool) (last : Option String) : Parser (Bool × Option String) := do
  if ← isAt .lt then
    if inType || (Guess.behindArguments ((← upcoming).take Guess.window)).isSome then
      templateArguments go
  if (← isAt .colonColon) && Guess.startsSegment (← kindAt 1) then
    advance
    return (true, last)
  else return (false, last)

/-- One segment of a name behind the segment `last`, with what stands behind it. -/
def segment (inType : Bool) (last : Option String) : Parser (Bool × Option String) := do
  if ← atEnd then return (false, last)
  match ← peek with
  | .ident =>
    let text ← textAt 0
    advance
    behindSegment go inType (some text)
  | .tilde =>
    advance
    if ← isAt .ident then
      let text ← textAt 0
      advance
      behindSegment go inType (some ("~" ++ text))
    else behindSegment go inType last
  | .operatorKw =>
    operatorName go
    return (false, none)
  | _ =>
    report .noName
    return (false, last)

/-- `::A::B<T>::c`. With `inType` an angle bracket behind a segment always opens arguments, else it
has to look like it. The result is the last segment, if it is no operator. -/
def qualifiedName (inType : Bool) : Parser (Option String) :=
  node .qualifiedName do
    discard (accept .colonColon)
    loopFrom none fun last => do
      discard (accept .templateKw)
      segment go inType last

/-- A name in a type or a declaration. -/
def typeName : Parser Unit := discard (qualifiedName go true)

def atName : Parser Bool := isAtAny [.ident, .colonColon]

end CppRefactor.Grammar
