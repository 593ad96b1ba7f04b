import CppRefactor.Fix.Request
import CppRefactor.Fix.Variable

/-!
Making a literal in the body of a function a parameter, which has the literal as its default.
-/

namespace CppRefactor

/-- Where a parameter is added to a list: behind the last one, or in the place of a lone `void`. -/
structure ParameterSlot where
  span : Span
  needsComma : Bool
  deriving DecidableEq, Repr, Inhabited

namespace ParameterSlot

/-- The end of the last token of a parameter. -/
def stop? (param : Tree) : Option Nat := param.lastLeaf?.map Token.stop

def ofList (params : Tree) : Except FixError ParameterSlot := do
  let close ← orError (.malformed .openParameters)
    ((params.lastToken? .rParen).map (·.offset))
  let list := Parameters.list params
  if Parameters.isEmpty params then
    return ⟨(list.head?.map Tree.span).getD (.point close), false⟩
  else return ⟨.point ((list.getLast?.bind stop?).getD close), true⟩

/-- The text of a parameter in a slot. -/
def render (slot : ParameterSlot) (param : String) : String :=
  (if slot.needsComma then ", " else "") ++ param

end ParameterSlot

structure ExtractLiteral where
  /-- The name of the parameter. -/
  parameter : String
  /-- Its type and name. -/
  declared : String
  literal : String
  slot : ParameterSlot
  /-- The literals of that text in the body. -/
  occurrences : List Span
  /-- A separate declaration of the function: its file and the span of its name. -/
  declaration : Option (FileId × Span)
  deriving DecidableEq, Repr, Inhabited

namespace ExtractLiteral

/-- Every parameter has a type or is an ellipsis. -/
def allTyped (params : Tree) : Bool :=
  (Parameters.list params).all fun p =>
    Text.trim p.text == "..." || p.specifiers?.any fun s => !(Specifiers.typeText s).isEmpty

/-- A name that is not taken: `base`, or with a number from 2 on. -/
def freeName (base : String) (taken : List String) : String :=
  if !taken.contains base then base
  else
    let numbered := (List.range (taken.length + 1)).map fun i => base ++ toString (i + 2)
    (numbered.find? (!taken.contains ·)).getD base

def offersFor (r : Request) (literal definition : Cursor) :
    Except FixError (List ExtractLiteral) := do
  let t := r.symbols
  let f := definition.focus
  let body ← orError (.malformed .functionWithoutBody) (definition.child? .compoundStmt)
  unless body.span.encloses literal.span do return []
  match Literal.type? literal.focus with
  | none => return []
  | some type =>
    let declarator ← orError (.malformed .functionWithoutDeclarator) f.declarator?
    let params ← orError (.malformed .functionWithoutParameters) (Declarator.parameters? declarator)
    unless allTyped params do throw (.malformed .parameterWithoutType)
    let name ← orError (.malformed .functionWithoutName) (f.declaredName?.bind Name.last?)
    let symbol ← orError (.unresolved .enclosingFunction) (t.declaredAt? r.file name.span.start)
    let text := Literal.text literal.focus
    let same := (body.nodesOf .literal).filter fun l => Literal.text l.focus == text
    let taken := (Parameters.list params).filterMap fun p => p.declaredName?.map (·.spelling)
    let parameter := freeName r.settings.parameterName taken
    return [{
      parameter
      declared := declarationText type parameter
      literal := text
      slot := ← ParameterSlot.ofList params
      occurrences := same.map (·.span)
      declaration := (t.declaration? symbol).map fun d =>
        ((t.symbol d).file, (t.symbol d).nameSpan) }]

/-- The fix offered on a literal in the body of a function. -/
def offers (r : Request) : Except FixError (List ExtractLiteral) :=
  match r.find? .literal, r.find? .functionDef with
  | some literal, some definition => offersFor r literal definition
  | _, _ => .ok []

/-- The slot in the parameters of a separate declaration. -/
def declarationSlot (s : Snapshot) (file : FileId) (name : Span) :
    Except FixError ParameterSlot := do
  let around := Spot.nodesFrom (Spot.covering (s.file file).root name)
  let declarator := around.find? (·.kind == .declarator)
  ParameterSlot.ofList (← orError (.unresolved .declarationParameters)
    (declarator.bind fun d => Declarator.parameters? d.focus))

def withDefault (f : ExtractLiteral) : String := f.declared ++ " = " ++ f.literal

/-- The edits of the definition. -/
def definitionEdits (f : ExtractLiteral) (param : String) (c : Change) : Change :=
  f.occurrences.foldl (fun c span => c.replace span f.parameter)
    (c.replace f.slot.span (f.slot.render param))

/-- The default stands at the declaration if there is a separate one. -/
def changes (r : Request) (f : ExtractLiteral) : Except FixError Changeset := do
  match f.declaration with
  | none =>
    return Changeset.empty.editFile r.snapshot r.file (f.definitionEdits f.withDefault)
  | some (file, name) =>
    let slot ← declarationSlot r.snapshot file name
    return (Changeset.empty.editFile r.snapshot r.file (f.definitionEdits f.declared)).editFile
      r.snapshot file (·.replace slot.span (slot.render f.withDefault))

end ExtractLiteral

end CppRefactor
