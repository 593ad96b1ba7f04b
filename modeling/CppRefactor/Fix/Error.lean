import CppRefactor.Edit.Change

/-!
Why a fix is not offered or cannot be made.
-/

namespace CppRefactor

/-- What could not be resolved. -/
inductive Unresolved
  | switchType
  | switchEnumeration
  | switchScope
  | memberClass
  | enclosingFunction
  | declarationParameters
  | definedFunction
  | classUnderCursor
  | declarationSyntax
  | nameScope
  | classDefinition
  | usingDirective
  deriving DecidableEq, Repr, Inhabited

def Unresolved.text : Unresolved → String
  | switchType => "type of the switch condition"
  | switchEnumeration => "enumeration of the switch condition"
  | switchScope => "scope of the switch"
  | memberClass => "class of the member"
  | enclosingFunction => "the enclosing function"
  | declarationParameters => "parameters of the declaration"
  | definedFunction => "the defined function"
  | classUnderCursor => "class under the cursor"
  | declarationSyntax => "declaration syntax"
  | nameScope => "scope of the name"
  | classDefinition => "class definition"
  | usingDirective => "using-directive"

/-- What is wrong with the program. -/
inductive Flaw
  | switchWithoutBody
  | brokenSwitchBody
  | switchWithoutCondition
  | caseWithoutColon
  | caseWithoutValue
  | brokenCaseValue
  | openSwitchBody
  | classWithoutBody
  | classOutsideDeclaration
  | functionWithoutBody
  | functionWithoutDeclarator
  | functionWithoutParameters
  | parameterWithoutType
  | functionWithoutName
  | openParameters
  | definitionWithoutBody
  | declarationWithoutSemicolon
  | emptyName
  | noDeclarationBehind
  | directiveWithoutName
  deriving DecidableEq, Repr, Inhabited

def Flaw.text : Flaw → String
  | switchWithoutBody => "switch without a compound body"
  | brokenSwitchBody => "switch body does not parse"
  | switchWithoutCondition => "switch without a condition"
  | caseWithoutColon => "case label without ':'"
  | caseWithoutValue => "case label without a value"
  | brokenCaseValue => "case label with a broken value"
  | openSwitchBody => "switch body is not closed"
  | classWithoutBody => "class without a body"
  | classOutsideDeclaration => "class outside a declaration"
  | functionWithoutBody => "function without a body"
  | functionWithoutDeclarator => "function without a declarator"
  | functionWithoutParameters => "function without parameters"
  | parameterWithoutType => "parameter without a type"
  | functionWithoutName => "function without a name"
  | openParameters => "parameter list is not closed"
  | definitionWithoutBody => "function definition without a body"
  | declarationWithoutSemicolon => "declaration without ';'"
  | emptyName => "empty name"
  | noDeclarationBehind => "no declaration to insert before"
  | directiveWithoutName => "using-directive without a name"

inductive FixError
  | unresolved (what : Unresolved)
  | malformed (flaw : Flaw)
  | edit (error : EditError)
  deriving DecidableEq, Repr, Inhabited

def FixError.message : FixError → String
  | unresolved what => "cannot resolve " ++ what.text
  | malformed flaw => "malformed input: " ++ flaw.text
  | edit error => error.message

/-- The value, or an error without one. -/
def orError (error : FixError) : Option α → Except FixError α
  | some a => .ok a
  | none => .error error

end CppRefactor
