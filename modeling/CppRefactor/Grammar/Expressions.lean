import CppRefactor.Grammar.Names

/-!
Expressions. They have no precedence: an expression is a flat run of literals, names, operators and
bracketed groups.
-/

namespace CppRefactor.Grammar

variable (go : Rule → Parser Unit)

/-- Expressions in brackets, with commas between them. -/
def group (kind closer : Kind) : Parser Unit :=
  node kind do
    advance
    loop do
      if (← atEnd) || (← isAt closer) then return false
      go (.expression [.comma, closer])
      accept .comma
    discard (expect closer)

def arguments : Parser Unit := group go .argList .rParen

/-- Expressions in braces, with commas or semicolons between them. A closer of another bracket is
skipped; if the gap before it is open, an empty expression closes the gap first. -/
def bracedInitializer : Parser Unit :=
  node .bracedInit do
    advance
    loop do
      if (← atEnd) || (← isAt .rBrace) then return false
      let before ← progress
      go (.expression [.comma, .rBrace, .semicolon])
      if ← accept .comma then return true
      if ← accept .semicolon then return true
      if ← isAt .rBrace then return false
      if (← progress) == before then recover .unexpectedInInitializer [.rBrace]
      return true
    discard (expect .rBrace)

/-- How far an expression is: the `?` that wait for their `:`, and whether an operand comes last. -/
structure ExpressionState where
  questions : Nat := 0
  operand : Bool := false

def nameReference : Parser Unit :=
  node .nameRef do discard (qualifiedName go false)

/-- The operand or operator ahead; the result says which it was. -/
def expressionPart (operand : Bool) : Parser Bool := do
  match ← peek with
  | .trueKw | .falseKw | .nullptrKw =>
    node .literal advance
    return true
  | .ident | .colonColon | .operatorKw =>
    nameReference go
    return true
  | .dot | .arrow =>
    advance
    if ← isAtAny [.ident, .tilde, .templateKw, .operatorKw] then nameReference go
    return true
  | .lParen =>
    if operand then arguments go else group go .parenExpr .rParen
    return true
  | .lBracket =>
    group go .bracketExpr .rBracket
    return true
  | .lBrace =>
    bracedInitializer go
    return true
  | .thisKw =>
    advance
    return true
  | k =>
    if k.isLiteral then
      node .literal advance
      return true
    else
      advance
      return k.isBuiltinType

/-- An expression up to one of `stops`, a closing bracket or a semicolon. -/
def expression (stops : List Kind) : Parser Unit :=
  node .expr do
    discard <| loopFrom ({} : ExpressionState) fun s => do
      if ← atEnd then return (false, s)
      let k ← peek
      if k == .colon && s.questions != 0 then
        advance
        return (true, ⟨s.questions - 1, false⟩)
      else if stops.contains k || [Kind.rParen, .rBracket, .rBrace, .semicolon].contains k then
        return (false, s)
      else if k == .question then
        advance
        return (true, ⟨s.questions + 1, false⟩)
      else return (true, { s with operand := ← expressionPart go s.operand })

end CppRefactor.Grammar
