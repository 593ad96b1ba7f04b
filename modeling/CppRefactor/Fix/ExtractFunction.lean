import CppRefactor.Fix.DataFlow
import CppRefactor.Fix.MemberInsertion
import CppRefactor.Fix.Request
import CppRefactor.Fix.TemplateHeader
import CppRefactor.Syntax.View.Statement
import CppRefactor.Text.Indentation

/-!
Making selected statements a function of their own, which a call replaces. The function stands
before the one that had the statements and belongs to the same class.
-/

namespace CppRefactor

/-- The edits, in the order in which they are made: a declaration in the class, the definition, and
the call. -/
structure ExtractFunction where
  edits : List (FileId × Edit)
  deriving DecidableEq, Repr, Inhabited

namespace ExtractFunction

/-- The statements of the innermost block around the selection that has some in it. -/
def statementsIn (r : Request) (body selection : Span) : List Cursor :=
  let isSelected (c : Cursor) : Bool :=
    max c.span.start selection.start < min c.span.stop selection.stop
  let blocks := (r.spot.around.takeWhile fun c => body.encloses c.span).filter fun c =>
    c.kind == .compoundStmt
  (blocks.map fun b => b.children.filter isSelected).find? (!·.isEmpty) |>.getD []

/-- The selected statements of a function's body that nothing leads out of. A template has none. -/
def selected? (r : Request) (definition body : Cursor) (selection : Span) :
    Option SelectedStatements := do
  guard (body.span.encloses selection && definition.template?.isNone)
  let statements := statementsIn r body.span selection
  let first ← statements.head?
  let last ← statements.getLast?
  guard !Cursor.leaveSelection statements
  return ⟨definition, body, statements, ⟨first.span.start, last.span.stop⟩⟩

/-- What the new function has in common with the one around the statements. -/
structure Surroundings where
  /-- The class of a member function. -/
  cls : Option SymbolId
  /-- What stands before the name of a member defined outside its class. -/
  qualifier : Option String
  access : Access
  isStatic : Bool
  isConst : Bool

/-- The end of a reversed text from the first `::` on. -/
def fromColons : List Char → List Char
  | ':' :: ':' :: cs => ':' :: ':' :: cs
  | _ :: cs => fromColons cs
  | [] => []

/-- What stands before the last segment of a name, with the colons. -/
def qualifier? (name : String) : Option String :=
  match fromColons name.toList.reverse with
  | [] => none
  | cs => some (.ofList cs.reverse)

def Surroundings.of (r : Request) (definition : Tree) : Except FixError Surroundings := do
  let t := r.symbols
  let name ← orError (.malformed .functionWithoutName) definition.declaredName?
  let last ← orError (.malformed .functionWithoutName) (Name.last? name)
  let function ← orError (.unresolved .enclosingFunction) (t.declaredAt? r.file last.span.start)
  let declaration := t.symbol ((t.declaration? function).getD function)
  let cls := (t.owner? function).filter fun o => (t.symbol o).kind.isClass
  let qualifiers := (definition.declarator?.map Declarator.qualifiers).getD ""
  return {
    cls
    qualifier := if cls.isSome && Name.isQualified name then qualifier? name.spelling else none
    access := declaration.access.getD .pub
    isStatic := declaration.flags.isStatic
    isConst := hasConst qualifiers }

/-- The declaration of a new member in the definition of its class. -/
def declareIn (s : Snapshot) (settings : Settings) (cls : SymbolId) (access : Access)
    (declaration : String) : Except FixError (FileId × Edit) := do
  let symbol := s.symbols.symbol cls
  let file := s.file symbol.file
  let around := Spot.nodesFrom (Spot.covering file.root symbol.nameSpan)
  let spec ← orError (.unresolved .classDefinition) (around.find? (·.kind == .classSpec))
  let insertion ← orError (.malformed .classWithoutBody)
    (MemberInsertion.find? file.text file.lines spec.focus access settings.indentWidth)
  return (symbol.file, ⟨.point insertion.offset, insertion.render [declaration]⟩)

/-- What stands before the body of the new function. -/
def head (r : Request) (f : Surroundings) (flow : DataFlow) (signature : String) : String :=
  let storage := if f.isStatic then "static " else ""
  let inlined := if r.source.isHeader then "inline " else ""
  match f.cls, f.qualifier with
  | some _, some qualifier => inlined ++ flow.resultType ++ " " ++ qualifier ++ signature
  | some _, none => storage ++ flow.resultType ++ " " ++ signature
  | none, _ => inlined ++ flow.resultType ++ " " ++ signature

/-- The body of the new function, which returns the value that flows out. -/
def bodyText (r : Request) (flow : DataFlow) (extent : Span) (indent : String) : String :=
  let result := (flow.output.map fun v => "\nreturn " ++ v.name ++ ";").getD ""
  Text.reindent (r.textAt extent ++ result) (indent ++ r.settings.indent 1) r.settings.indentWidth

def build (r : Request) (s : SelectedStatements) (f : Surroundings) (flow : DataFlow) :
    Except FixError ExtractFunction := do
  let function := r.settings.functionName
  let anchor := r.lines.lineStart s.definition.outermostTemplate.span.start
  let indent := r.indentationAt anchor
  let signature :=
    function ++ "(" ++ flow.parameters ++ ")" ++ if f.isConst then " const" else ""
  let declared ←
    match f.cls, f.qualifier with
    | some cls, some _ =>
      let storage := if f.isStatic then "static " else ""
      let declaration := storage ++ flow.resultType ++ " " ++ signature ++ ";"
      pure [← declareIn r.snapshot r.settings cls f.access declaration]
    | _, _ => pure []
  let definition := indent ++ head r f flow signature ++ "\n" ++ indent ++ "\x7b\n" ++
    bodyText r flow s.extent indent ++ "\n" ++ indent ++ "\x7d\n\n"
  return ⟨declared ++
    [(r.file, ⟨.point anchor, definition⟩), (r.file, ⟨s.extent, flow.call function⟩)]⟩

/-- The fix offered on a selection of statements. -/
def offers (r : Request) : Except FixError (List ExtractFunction) := do
  match r.selection.filter (!·.isEmpty), r.find? .functionDef with
  | some selection, some definition =>
    let body ← orError (.malformed .functionWithoutBody) (definition.child? .compoundStmt)
    match selected? r definition body selection with
    | none => return []
    | some s =>
      match DataFlow.of? r.symbols r.file s with
      | none => return []
      | some flow => return [← build r s (← Surroundings.of r definition.focus) flow]
  | _, _ => return []

def changes (r : Request) (f : ExtractFunction) : Changeset :=
  f.edits.foldl (fun c (file, e) => c.editFile r.snapshot file (·.add e)) .empty

end ExtractFunction

end CppRefactor
