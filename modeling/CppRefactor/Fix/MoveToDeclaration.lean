import CppRefactor.Fix.InlineDefinition

/-!
Moving a function's definition to its declaration, whose semicolon it replaces.
-/

namespace CppRefactor

structure MoveToDeclaration where
  description : String
  /-- The file of the declaration. -/
  file : FileId
  /-- The edits of the declaration. -/
  edits : List Edit
  /-- The definition with the templates around it. -/
  removed : Span
  deriving DecidableEq, Repr, Inhabited

namespace MoveToDeclaration

/-- A declaration to which a definition can move. -/
structure Declaration where
  file : SourceFile
  decl : Cursor
  semicolon : Span

namespace Declaration

/-- In how many classes the declaration stands. -/
def depth (d : Declaration) : Nat := d.decl.ancestors.countP (·.kind == .classSpec)

def start (d : Declaration) : Nat := d.decl.outermostTemplate.span.start

/-- The line before the declaration. -/
def margin (d : Declaration) : Span := ⟨d.file.lines.lineStart d.start, d.start⟩

/-- A definition in a header outside classes has to be inline. -/
def needsInline (d : Declaration) : Bool :=
  d.depth == 0 && d.file.isHeader &&
    !(d.decl.focus.specifiers?.any fun s => s.hasToken .inlineKw) && d.decl.template?.isNone

end Declaration

/-- The edits that put a definition of one line in the place of the semicolon. -/
def shortEdits (d : Declaration) (head body : String) : List Edit :=
  (if d.needsInline then [⟨.point d.start, "inline "⟩] else []) ++
    [⟨d.semicolon, " " ++ (if head.isEmpty then "" else head ++ " ") ++ body⟩]

/-- The edits that put a definition of several lines in the place of the semicolon. It is indented
by the classes around it, or as the line of the declaration is. -/
def longEdits (settings : Settings) (d : Declaration) (head body : String) : List Edit :=
  let leading := Text.slice d.file.text d.margin
  let startsLine := (Text.trim leading).isEmpty
  let indent := if d.depth != 0 && startsLine then settings.indent d.depth else leading
  let first :=
    if startsLine && (indent != leading || d.needsInline) then
      [⟨d.margin, indent ++ if d.needsInline then "inline " else ""⟩]
    else []
  first ++ [⟨d.semicolon, (if head.isEmpty then "" else " " ++ head) ++ "\n" ++
    Text.reindent body indent settings.indentWidth⟩]

/-- The declaration of a symbol, if it is the only one of its statement. -/
def target? (s : Snapshot) (symbol : Symbol) : Except FixError (Option Declaration) := do
  let file := s.file symbol.file
  let around := Spot.nodesFrom (Spot.covering file.root symbol.nameSpan)
  let decl ← orError (.unresolved .declarationSyntax) (around.find? (·.kind == .simpleDecl))
  unless (decl.childrenOf .initDeclarator).length == 1 do return none
  let semicolon ← orError (.malformed .declarationWithoutSemicolon)
    (decl.focus.lastToken? .semicolon)
  return some ⟨file, decl, semicolon.span⟩

/-- The declared symbol of a definition under the cursor, if it is no definition itself. -/
def declared? (r : Request) (definition : Tree) : Option SymbolId := do
  let name ← definition.declaredName?
  guard (r.isOn name.span)
  let symbol ← r.symbols.declaredAt? r.file (← Name.last? name).span.start
  let declaration ← r.symbols.declaration? symbol
  guard !(r.symbols.symbol declaration).flags.isDefinition
  return declaration

def describe (t : SymbolTable) (declaration : SymbolId) : String :=
  let isMember := (t.owner? declaration).any fun o => (t.symbol o).kind.isClass
  if isMember || (t.symbol declaration).kind == .method then "Move Definition to Class"
  else "Move Definition to Declaration"

/-- The move offered on the name of a definition that has a separate declaration. -/
def offers (r : Request) : Except FixError (List MoveToDeclaration) := do
  match r.find? .functionDef with
  | none => return []
  | some c =>
    match declared? r c.focus with
    | none => return []
    | some declaration =>
      let symbol := r.symbols.symbol declaration
      match ← target? r.snapshot symbol with
      | none => return []
      | some d =>
        let moved ← orError (.malformed .definitionWithoutBody) (InlineDefinition.of? c none)
        let start := moved.body.span.start
        let head := Text.trim (Text.slice r.text ⟨moved.declarator.span.stop, start⟩)
        let body := Text.slice r.text ⟨start, c.span.stop⟩
        return [{
          description := describe r.symbols declaration
          file := symbol.file
          edits :=
            if body.toList.contains '\n' then longEdits r.settings d head body
            else shortEdits d head body
          removed := c.outermostTemplate.span }]

def changes (r : Request) (m : MoveToDeclaration) : Changeset :=
  let declared := Changeset.empty.editFile r.snapshot m.file fun c => m.edits.foldl Change.add c
  declared.editFile r.snapshot r.file (·.remove m.removed)

end MoveToDeclaration

end CppRefactor
