import CppRefactor.Fix.Variable
import CppRefactor.Symbols.Typing
import CppRefactor.Syntax.View.Declaration

/-!
Which values flow into selected statements of a function and out of them.
-/

namespace CppRefactor

/-- Statements next to each other in the body of a function, without any jump out of them. -/
structure SelectedStatements where
  definition : Cursor
  body : Cursor
  statements : List Cursor
  /-- From the start of the first statement to the end of the last one. -/
  extent : Span
  deriving Inhabited

structure DataFlow where
  /-- The variables of the function that the statements use. One whose new value is used behind them
  is a reference. -/
  inputs : List Variable
  /-- The variable declared in the statements that is used behind them. -/
  output : Option Variable
  deriving DecidableEq, Repr, Inhabited

/-- A name is written to: it is assigned to, or incremented or decremented. -/
def isWritten (reference : Cursor) : Bool :=
  let next := (reference.after.find? (!·.kind.isTrivia)).map (·.kind)
  let previous := (reference.before.find? (!·.kind.isTrivia)).map (·.kind)
  let isStep (k : Kind) : Bool := k == .plusPlus || k == .minusMinus
  next.any (fun k => isStep k || k == .eq || k == .compoundAssign) || previous.any isStep

/-- The name is in the initializer of the variable. -/
def isInOwnInitializer (file : FileId) (reference : Cursor) (declared : Symbol) : Bool :=
  declared.file == file &&
    ((reference.ancestors.find? (·.kind == .initDeclarator)).bind fun d =>
      d.focus.declaredName?.bind Name.last?).any (·.span == declared.nameSpan)

namespace SymbolTable

variable (t : SymbolTable)

/-- The symbol that a name names, where a variable is not yet known in its own initializer: there
the name means what it meant before. -/
def resolveInitialized (file : FileId) (reference : Cursor) : Option SymbolId := do
  let id ← t.resolveReference file reference
  let s := t.symbol id
  if isInOwnInitializer file reference s then
    let site ← t.siteAt? file s.nameSpan.start
    (t.lookup ⟨site, .objects, []⟩ s.name).find? (· != id)
  else return id

/-- The variable or parameter of a function that a name in it names. -/
def localOf? (file : FileId) (definition : Span) (reference : Cursor) : Option SymbolId := do
  guard !(NameReference.isMember reference)
  guard !(Name.isQualified (← reference.focus.name?))
  let id ← t.resolveInitialized file reference
  let s := t.symbol id
  guard (s.kind == .variableKind || s.kind == .parameter)
  guard (s.file == file && definition.encloses s.nameSpan)
  return id

end SymbolTable

namespace DataFlow

/-- The references among `names` that name variables of the function, with what they name. -/
def uses (t : SymbolTable) (file : FileId) (s : SelectedStatements) (names : List Cursor) :
    List (Cursor × SymbolId) :=
  names.filterMap fun c => (t.localOf? file s.definition.span c).map fun id => (c, id)

def typeText? (t : SymbolTable) (id : SymbolId) : Option String :=
  (t.symbol id).type.map (·.display)

/-- The parameter for a variable; `flowsBack` says that the caller needs its new value. -/
def input? (t : SymbolTable) (flowsBack : SymbolId → Bool) (id : SymbolId) : Option Variable := do
  let type ← (t.symbol id).type
  let reference := if flowsBack id && !type.isReference then " &" else ""
  return ⟨(t.symbol id).name, type.display ++ reference⟩

/-- The flow through selected statements, unless several variables declared in them are used behind
them. -/
def of? (t : SymbolTable) (file : FileId) (s : SelectedStatements) : Option DataFlow := do
  let isDeclaredInside (id : SymbolId) : Bool := s.extent.encloses (t.symbol id).nameSpan
  let namesInside := s.statements.flatMap (·.nodesOf .nameRef)
  let namesBehind := (s.body.nodesOf .nameRef).filter fun c => s.extent.stop ≤ c.span.start
  let inside := (uses t file s namesInside).filter fun (_, id) => !isDeclaredInside id
  let behind := (uses t file s namesBehind).map (·.2)
  let written := (inside.filter fun (c, _) => isWritten c).map (·.2)
  let outputs := SymbolTable.distinct (behind.filter isDeclaredInside)
  guard (outputs.length ≤ 1)
  let flowsBack (id : SymbolId) : Bool := written.contains id && behind.contains id
  let inputs ← (SymbolTable.distinct (inside.map (·.2))).mapM (input? t flowsBack)
  match outputs.head? with
  | none => return ⟨inputs, none⟩
  | some id => return ⟨inputs, some ⟨(t.symbol id).name, ← typeText? t id⟩⟩

def resultType (f : DataFlow) : String := (f.output.map (·.type)).getD "void"

def parameters (f : DataFlow) : String := ", ".intercalate (f.inputs.map (·.declared))

/-- The statement that calls the function the statements become. -/
def call (f : DataFlow) (function : String) : String :=
  let call := function ++ "(" ++ ", ".intercalate (f.inputs.map (·.name)) ++ ");"
  match f.output with
  | some v => v.declared ++ " = " ++ call
  | none => call

end DataFlow

end CppRefactor
