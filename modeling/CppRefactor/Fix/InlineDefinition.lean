import CppRefactor.Fix.DefinitionPlace
import CppRefactor.Fix.Request
import CppRefactor.Fix.TemplateHeader
import CppRefactor.Text.Indentation

/-!
Functions that are defined where they are declared, the classes they stand in, and how they are
written elsewhere.
-/

namespace CppRefactor

/-- A function definition that a declaration can take the place of. -/
structure InlineDefinition where
  definition : Tree
  declarator : Tree
  body : Tree
  /-- The template lines that a definition elsewhere needs. -/
  headers : List String
  deriving Inhabited

namespace InlineDefinition

/-- The definition at a node, in a class with a template header perhaps. -/
def of? (c : Cursor) (classHeader : Option TemplateHeader) : Option InlineDefinition := do
  let declarator ← c.focus.declarator?
  let body ← c.focus.child? .compoundStmt
  let own := c.template?.map fun t => TemplateHeader.ofTemplate t.focus
  return ⟨c.focus, declarator, body, (classHeader.toList ++ own.toList).map (·.text)⟩

def isTemplate (d : InlineDefinition) : Bool := !d.headers.isEmpty

/-- What a semicolon replaces to leave a declaration. -/
def replaced (d : InlineDefinition) : Span := ⟨d.declarator.span.stop, d.definition.span.stop⟩

/-- A specifier that stays when a definition leaves its class; keywords of declarations and macros
do not. -/
def specifierText? (text : String) : Tree → Option String
  | .token t =>
    if t.isTrivia || [Kind.inlineKw, .staticKw, .virtualKw, .explicitKw, .friendKw,
        .ident].contains t.kind then none
    else some (Text.slice text t.span)
  | .node _ s _ => some (Text.trim (Text.slice text s))

def specifiersText (text : String) (specs : Tree) : String :=
  " ".intercalate (specs.parts.filterMap (specifierText? text))

/-- What stands between the name and the body, and a line break or a space before the body. -/
def afterName (between : String) : String :=
  let blank := Text.takeLastWhile Text.isBlank between.toList
  Text.trim between ++ if blank.contains '\n' then "\n" else " "

/-- The definition as it stands elsewhere in a program, under a qualified name. -/
def render (d : InlineDefinition) (text qualifier : String) (asInline : Bool) (width : Nat) :
    String :=
  let specs := (d.definition.specifiers?.map (specifiersText text)).getD ""
  let head := .join (d.headers.map (· ++ "\n")) ++ (if asInline then "inline " else "") ++
    if specs.isEmpty then "" else specs ++ " "
  match Declarator.name? d.declarator with
  | none => head
  | some name =>
    head ++ Declarator.pointerText d.declarator ++ qualifier ++ Text.slice text name.span ++
      afterName (Text.slice text ⟨name.span.stop, d.body.span.start⟩) ++
      Text.reindent (Text.slice text d.body.span) "" width

end InlineDefinition

/-- A class with the declaration it is in. -/
structure DeclaredClass where
  spec : Cursor
  symbol : SymbolId
  /-- The declaration with the templates around it. -/
  outer : Cursor
  header : Option TemplateHeader
  deriving Inhabited

namespace DeclaredClass

def of? (r : Request) (spec : Cursor) : Option DeclaredClass := do
  let name ← spec.focus.name?.bind Name.last?
  let symbol ← r.symbols.declaredAt? r.file name.span.start
  let decl ← spec.ancestors.find? (·.kind == .simpleDecl)
  let header := decl.template?.map fun t => TemplateHeader.ofTemplate t.focus
  return ⟨spec, symbol, decl.outermostTemplate, header⟩

/-- The class that a member is written in. -/
def ofMember? (r : Request) (member : Cursor) : Option DeclaredClass := do
  let list ← member.outermostTemplate.up?
  guard (list.kind == .memberList)
  of? r (← list.up?.filter (·.kind == .classSpec))

/-- Where something goes right behind the class. -/
def behind (c : DeclaredClass) (r : Request) : Nat :=
  Text.behindDeclaration r.text r.lines c.outer.span.stop

/-- What goes before the names of members at an offset of a file. -/
def qualifier (c : DeclaredClass) (t : SymbolTable) (file : FileId) (offset : Nat) : String :=
  let name :=
    match t.siteAt? file offset with
    | some site => t.shortestName site [] c.symbol
    | none => t.qualifiedName c.symbol
  let args := (c.header.map fun h => "<" ++ ", ".intercalate h.names ++ ">").getD ""
  name ++ args ++ "::"

/-- The functions defined in the class body. -/
def definitionsInBody (c : DeclaredClass) : List InlineDefinition :=
  match c.spec.child? .memberList with
  | none => []
  | some list =>
    ((list.parts.filter (·.focus.isItem)).map Cursor.withoutTemplates).filterMap fun m =>
      if m.kind == .functionDef then InlineDefinition.of? m c.header else none

end DeclaredClass

namespace Request

/-- The implementation file of a header. -/
def implementation? (r : Request) : Option FileId :=
  if r.source.isHeader then r.snapshot.associated? r.file else none

def fileName (r : Request) (file : FileId) : String :=
  (r.snapshot.file file).path.fileName?.getD ""

end Request

end CppRefactor
