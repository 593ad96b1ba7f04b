import CppRefactor.Fix.InlineDefinition

/-!
Moving function definitions out of a class: behind it or to the implementation file. Declarations
stay behind.
-/

namespace CppRefactor

/-- A move of definitions out of the request's file or further down in it. -/
structure MoveOutside where
  description : String
  /-- What semicolons replace. -/
  replaced : List Span
  target : FileId
  offset : Nat
  /-- The definitions with the blank lines around them. -/
  text : String
  deriving DecidableEq, Repr, Inhabited

namespace MoveOutside

def changes (r : Request) (m : MoveOutside) : Changeset :=
  let source := Changeset.empty.editFile r.snapshot r.file fun c =>
    m.replaced.foldl (fun c span => c.replace span ";") c
  source.editFile r.snapshot m.target (·.insert m.offset m.text)

/-- The span of a function's definition in a file. -/
def definedIn? (t : SymbolTable) (file : FileId) (function : SymbolId) : Option Span := do
  let definition := t.symbol (← t.definition? function)
  guard (definition.file == file)
  return definition.declSpan

/-- Where the definition of a member goes among those of other members of its class: behind the
nearest one declared before it that is defined in the file, else before the nearest one declared
behind it. -/
def besideSibling? (s : Snapshot) (file : FileId) (cls member : SymbolId) : Option Nat := do
  let t := s.symbols
  let f := s.file file
  let members := (t.members cls).filter fun m => (t.symbol m).kind.isFunction
  let place ← members.idxOf? member
  match (members.take place).reverse.findSome? (definedIn? t file) with
  | some span => return Text.behindDeclaration f.text f.lines span.stop
  | none =>
    let span ← (members.drop (place + 1)).findSome? (definedIn? t file)
    return Text.lineStartIfBlank f.text f.lines span.start

/-- The move of definitions behind their class. -/
def behindClass (r : Request) (cls : DeclaredClass) (definitions : List InlineDefinition)
    (description : String) : MoveOutside :=
  let offset := cls.behind r
  let qualifier := cls.qualifier r.symbols r.file offset
  let rendered := definitions.map fun d =>
    d.render r.text qualifier (r.source.isHeader && !d.isTemplate) r.settings.indentWidth
  { description
    replaced := definitions.map (·.replaced)
    target := r.file
    offset
    text := Text.setApart r.text offset ("\n\n".intercalate rendered) }

/-- The move of one definition to a place in an implementation file. -/
def toFile (r : Request) (d : InlineDefinition) (file : FileId) (offset : Nat)
    (qualifier : String) : MoveOutside :=
  let rendered := d.render r.text qualifier false r.settings.indentWidth
  { description := "Move Definition to " ++ r.fileName file
    replaced := [d.replaced]
    target := file
    offset
    text := Text.setApart (r.snapshot.file file).text offset rendered }

/-- The moves of a member: to the implementation file, unless it is a template, and behind its
class. -/
def ofMember (r : Request) (d : InlineDefinition) (symbol : SymbolId) (cls : DeclaredClass) :
    List MoveOutside :=
  let away :=
    match r.implementation?.filter fun _ => !d.isTemplate with
    | none => []
    | some file =>
      match besideSibling? r.snapshot file cls.symbol symbol with
      | some offset => [toFile r d file offset (cls.qualifier r.symbols file offset)]
      | none =>
        let target := DefinitionPlace.qualifying r.snapshot file cls.symbol
        [toFile r d file target.offset target.qualifier]
  away ++ [behindClass r cls [d] "Move Definition Outside Class"]

/-- A function stands directly in a file or a namespace. -/
def isFree (c : Cursor) : Bool :=
  c.outermostTemplate.up?.any fun p => p.kind == .sourceFile || p.kind == .declList

/-- The move of a function in a header that belongs to no class. -/
def ofFreeFunction (r : Request) (c : Cursor) (symbol : SymbolId) :
    Except FixError (List MoveOutside) := do
  match r.implementation?.filter fun _ => isFree c with
  | none => return []
  | some file =>
    let d ← orError (.malformed .definitionWithoutBody) (InlineDefinition.of? c none)
    if d.isTemplate then return []
    let owner := (r.symbols.owner? symbol).getD SymbolTable.global
    let target := DefinitionPlace.qualifying r.snapshot file owner
    return [toFile r d file target.offset target.qualifier]

/-- The moves offered on the name of a function defined in its class or in a header. -/
def offers (r : Request) : Except FixError (List MoveOutside) := do
  match r.find? .functionDef with
  | none => return []
  | some c =>
    match c.focus.declaredName?.filter fun n => !Name.isQualified n && r.isOn n.span with
    | none => return []
    | some name =>
      let symbol ← orError (.unresolved .definedFunction) do
        r.symbols.declaredAt? r.file (← Name.last? name).span.start
      match DeclaredClass.ofMember? r c with
      | none => ofFreeFunction r c symbol
      | some cls =>
        let d ← orError (.malformed .definitionWithoutBody) (InlineDefinition.of? c cls.header)
        return ofMember r d symbol cls

/-- The move of all definitions of a class to its implementation file. -/
def allToFile (r : Request) (cls : DeclaredClass) (definitions : List InlineDefinition)
    (file : FileId) : MoveOutside :=
  let target := DefinitionPlace.qualifying r.snapshot file cls.symbol
  let rendered := definitions.map (·.render r.text target.qualifier false r.settings.indentWidth)
  { description := "Move All Function Definitions to " ++ r.fileName file
    replaced := definitions.map (·.replaced)
    target := file
    offset := target.offset
    text := target.render r.snapshot ("\n\n".intercalate rendered) }

/-- The moves offered on the name of a class that defines functions in its body. -/
def offersAll (r : Request) : Except FixError (List MoveOutside) := do
  match (r.find? .classSpec).filter fun c => c.focus.name?.any fun n => r.isOn n.span with
  | none => return []
  | some spec =>
    let cls ← orError (.unresolved .classUnderCursor) (DeclaredClass.of? r spec)
    let definitions := cls.definitionsInBody
    if definitions.isEmpty then return []
    let file := r.implementation?.filter fun _ => !definitions.any (·.isTemplate)
    return (file.map (allToFile r cls definitions)).toList ++
      [behindClass r cls definitions "Move All Function Definitions Outside Class"]

end MoveOutside

end CppRefactor
