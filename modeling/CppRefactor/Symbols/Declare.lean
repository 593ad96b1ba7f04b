import CppRefactor.Symbols.Table
import CppRefactor.Syntax.View.Declaration

/-!
Declaring what a file declares: its tree is walked, and its scopes and symbols are added to a symbol
table.
-/

namespace CppRefactor

mutual

/-- How deep a tree nests. -/
def Tree.depth : Tree → Nat
  | .token _ => 0
  | .node _ _ ts => depthOf ts + 1

def Tree.depthOf : List Tree → Nat
  | [] => 0
  | t :: ts => max (depth t) (depthOf ts)

end

namespace Declare

/-- A symbol table in the making, and the access level of members at this point of a class. -/
structure State where
  table : SymbolTable
  access : Option Access

abbrev Declaring := StateM State

/-- The file and the scope in which something is declared. -/
structure Place where
  file : FileId
  scope : ScopeId

/-- What the walk comes to: an item, with the parameters of the templates around it and the
outermost of them, or a statement. -/
inductive Visit
  | item (t : Tree) (params : List String) (outer : Tree)
  | statement (t : Tree)

def Visit.ofItem (t : Tree) : Visit := .item t [] t

def run (f : SymbolTable → α × SymbolTable) : Declaring α :=
  modifyGet fun s => let (a, table) := f s.table; (a, { s with table })

def add (s : Symbol) : Declaring SymbolId := run (·.add s)

def change (f : SymbolTable → SymbolTable) : Declaring Unit := run fun t => ((), f t)

namespace Place

def site (p : Place) (offset : Nat) : Site := ⟨p.file, p.scope, offset⟩

/-- A symbol declared here. -/
def symbol (p : Place) (name : String) (kind : SymbolKind) (nameSpan declSpan : Span) : Symbol :=
  { name, kind, file := p.file, nameSpan, declSpan, parent := some p.scope }

def isClassBody (p : Place) : Declaring Bool :=
  return ((← get).table.scope p.scope).kind == .classBody

/-- The access level of what is declared in a class. -/
def memberAccess (p : Place) : Declaring (Option Access) := do
  if ← p.isClassBody then return (← get).access else return none

/-- Enters a scope inside this one. -/
def enter (p : Place) (kind : ScopeKind) (owner : Option SymbolId) (span : Span) :
    Declaring Place := do
  let scope ← run (·.addScope kind p.scope owner span)
  return { p with scope }

end Place

/-- Runs with another access level and goes back to the one before. -/
def withAccess (access : Option Access) (body : Declaring Unit) : Declaring Unit := do
  let saved := (← get).access
  modify ({ · with access })
  body
  modify ({ · with access := saved })

/-- The type that specifiers and a declarator declare. A trailing return type takes the place of the
specifiers. -/
def typeRef (p : Place) (specifiers : Tree) (declarator : Option Tree)
    (target : Option SymbolId) : TypeRef :=
  let specs := (declarator.bind Declarator.trailingSpecifiers?).getD specifiers
  let name :=
    match specs.child? .elaboratedType with
    | some elaborated => elaborated.name?
    | none => specs.name?
  { spelled := Specifiers.typeText specs
    path := name.bind TypePath.ofName?
    isConst := specs.hasToken .constKw
    pointers := (declarator.map Declarator.pointerText).getD ""
    target
    site := p.site specifiers.span.start }

/-- The types of the parameters of a declarator. -/
def parameterTypes (declarator : Tree) : List String :=
  match Declarator.parameters? declarator with
  | some params =>
    if Parameters.isEmpty params then [] else (Parameters.list params).map parameterType
  | none => []

def templateParameterNames (template : Tree) : List String :=
  (templateParameters template).filterMap fun p => (TemplateParameter.name? p).map (·.text)

/-- Declares the parameters of the outermost template that are among `names`. -/
def declareTemplateParameters (p : Place) (names : List String) (outer : Tree) :
    Declaring Unit := do
  if outer.kind == .templateDecl then
    (templateParameters outer).forM fun param =>
      match TemplateParameter.name? param with
      | some token =>
        if names.contains token.text then
          discard (add (p.symbol token.text .templateParam token.span param.span))
        else pure ()
      | none => pure ()

def declareParameter (p : Place) (param : Tree) : Declaring Unit := do
  match param.declaredName?.bind Name.last? with
  | none => pure ()
  | some segment =>
    let base := p.symbol segment.text .parameter segment.span param.span
    discard <| add <|
      match param.specifiers? with
      | some specs => { base with
          type := some (typeRef p specs param.declarator? none)
          flags := { isConst := specs.hasToken .constKw } }
      | none => base

/-- The name of a class or enumeration and its span, which is empty without a name. -/
def typeName (t : Tree) : String × Span :=
  match t.name?.bind Name.last? with
  | some segment => (segment.text, segment.span)
  | none => ("", .point t.span.start)

/-- `class A;` -/
def declareForward (p : Place) (elaborated : Tree) (params : List String) (outer : Tree) :
    Declaring Unit := do
  match elaborated.name? with
  | none => pure ()
  | some name =>
    if !Name.isQualified name then
      match Name.last? name with
      | none => pure ()
      | some segment =>
        let access := (← get).access
        let symbol := p.symbol segment.text (.ofKey elaborated.leadKind?) segment.span outer.span
        discard (add { symbol with templateParams := params, access })

variable (go : Place → Visit → Declaring Unit)

def declareClass (p : Place) (t : Tree) (params : List String) (outer : Tree) :
    Declaring (Option SymbolId) := do
  let (name, nameSpan) := typeName t
  let kind := SymbolKind.ofKey (if Class.key t == .enumKw then none else some (Class.key t))
  let members := Class.members? t
  let id ← add { p.symbol name kind nameSpan outer.span with
    access := (← get).access
    templateParams := params
    flags := { isDefinition := members.isSome }
    bases := ((Class.bases t).filterMap Tree.name?).map fun n => .ofName n (p.site t.span.start) }
  match members with
  | none => return none
  | some list =>
    let inner ← p.enter .classBody (some id) list.span
    withAccess (some (Class.defaultAccess t)) do
      declareTemplateParameters inner params outer
      list.items.forM fun member => go inner (.ofItem member)
    return some id

def declareEnum (p : Place) (t : Tree) (outer : Tree) : Declaring (Option SymbolId) := do
  let (name, nameSpan) := typeName t
  let list := Enumeration.list? t
  let id ← add { p.symbol name .enumKind nameSpan outer.span with
    access := (← get).access
    flags := { isScoped := Enumeration.isScoped t, isDefinition := list.isSome } }
  match list with
  | none => return none
  | some list =>
    let inner ← p.enter .enumBody (some id) list.span
    (Enumeration.enumerators t).forM fun e =>
      match e.firstToken? .ident with
      | some token => discard (add (inner.symbol token.text .enumerator token.span e.span))
      | none => pure ()
    return some id

/-- What a declarator of a declaration declares. One with a qualified name defines a member that is
declared elsewhere. -/
def declareDeclarator (p : Place) (specs : Tree) (target : Option SymbolId) (params : List String)
    (outer declarator : Tree) : Declaring Unit := do
  match (Declarator.name? declarator).map Name.segments with
  | some [segment] =>
    let inClass ← p.isClassBody
    let access ← p.memberAccess
    let kind : SymbolKind :=
      if specs.hasToken .typedefKw then .typeAlias
      else if Declarator.isFunction declarator then if inClass then .method else .function
      else if inClass then .field else .variableKind
    let symbol := { p.symbol segment.text kind segment.span outer.span with
      access
      type := some (typeRef p specs (some declarator) target)
      flags :=
        { isStatic := specs.hasToken .staticKw
          isConst := specs.hasToken .constKw
          isInline := specs.hasToken .inlineKw
          isVirtual := specs.hasToken .virtualKw } }
    discard <| add <|
      if kind.isFunction then { symbol with
        params := parameterTypes declarator
        qualifiers := Declarator.qualifiers declarator
        templateParams := params }
      else symbol
  | _ => pure ()

def declareSimple (p : Place) (t : Tree) (params : List String) (outer : Tree) :
    Declaring Unit := do
  match t.specifiers? with
  | none => pure ()
  | some specs =>
    let declarators := t.childrenOf .initDeclarator
    let target ←
      match specs.child? .classSpec, specs.child? .enumSpec, specs.child? .elaboratedType with
      | some c, _, _ => declareClass go p c params outer
      | none, some e, _ => declareEnum p e outer
      | none, none, some e =>
        if declarators.isEmpty && !specs.hasToken .friendKw then
          declareForward p e params outer
        pure none
      | none, none, none => pure none
    (declarators.filterMap Tree.declarator?).forM
      (declareDeclarator p specs target params outer)

/-- The symbol of a function that is defined here, not yet in a scope. -/
def functionSymbol (p : Place) (t declarator : Tree) (segment : Name.Segment) (qualified : Bool)
    (path : Option TypePath) (params : List String) (outer : Tree) : Declaring Symbol := do
  let inClass ← p.isClassBody
  let access ← p.memberAccess
  let base := { p.symbol segment.text (if inClass || qualified then .method else .function)
      segment.span outer.span with
    access
    params := parameterTypes declarator
    qualifiers := Declarator.qualifiers declarator
    templateParams := params
    flags := { isDefinition := true }
    qualifier := if qualified then path.bind TypePath.qualifier? else none }
  match t.specifiers? with
  | some specs => return { base with
      type := some (typeRef p specs (some declarator) none)
      flags :=
        { isDefinition := true
          isStatic := specs.hasToken .staticKw
          isInline := specs.hasToken .inlineKw
          isVirtual := specs.hasToken .virtualKw } }
  | none => return base

/-- A function with its body. One with a qualified name is no member of the scope it stands in. -/
def declareFunction (p : Place) (t : Tree) (params : List String) (outer : Tree) :
    Declaring Unit := do
  match t.declarator?, t.declaredName? with
  | some declarator, some name =>
    let segments := Name.segments name
    match segments.getLast? with
    | none => pure ()
    | some segment =>
      let qualified := 1 < segments.length
      let path := TypePath.ofName? name
      let symbol ← functionSymbol p t declarator segment qualified path params outer
      let id ← if qualified then run (·.addDetached symbol) else add symbol
      if qualified then change fun t => { t with outOfLine := t.outOfLine ++ [id] }
      let parameters := Declarator.parameters? declarator
      let body := (parameters.map fun ps => ⟨ps.span.start, t.span.stop⟩).getD t.span
      let inner ← p.enter .function (some id) body
      withAccess none do
        declareTemplateParameters inner params outer
        ((parameters.map Parameters.list).getD []).forM (declareParameter inner)
        (((t.child? .compoundStmt).map (·.children)).getD []).forM fun s => go inner (.statement s)
  | _, _ => pure ()

/-- Enters the namespaces of a name, one in the other; the last is inline if the definition is. -/
def enterNamespaces (span : Span) (isInline : Bool) :
    List (String × Span) → Place → Declaring Place
  | [], p => return p
  | (name, nameSpan) :: rest, p => do
    let id ← run (·.declareNamespace name p.scope nameSpan)
    if rest.isEmpty && isInline then
      change (·.modifySymbol id fun s => { s with flags := { s.flags with isInline := true } })
    enterNamespaces span isInline rest (← p.enter .namespaceBlock (some id) span)

def declareNamespace (p : Place) (t : Tree) : Declaring Unit := do
  match t.child? .declList with
  | none => pure ()
  | some body =>
    let names := ((t.name?.map Name.segments).getD []).map fun s => (s.text, s.span)
    let names := if names.isEmpty then [("", .point t.span.start)] else names
    let inner ← enterNamespaces body.span (t.hasToken .inlineKw) names p
    body.items.forM fun item => go inner (.ofItem item)

def declareNamespaceAlias (p : Place) (t : Tree) (outer : Tree) : Declaring Unit := do
  match t.name?.bind Name.last?, namespaceAliasTarget? t with
  | some segment, some target =>
    discard (add { p.symbol segment.text .namespaceAlias segment.span outer.span with
      type := some (.ofName target (p.site t.span.start)) })
  | _, _ => pure ()

def declareAlias (p : Place) (t : Tree) (params : List String) (outer : Tree) :
    Declaring Unit := do
  match t.firstToken? .ident with
  | none => pure ()
  | some name =>
    discard (add { p.symbol name.text .typeAlias name.span outer.span with
      access := (← get).access
      templateParams := params
      type := t.specifiers?.map fun specs => typeRef p specs t.declarator? none })

def declareItem (p : Place) (t : Tree) (params : List String) (outer : Tree) :
    Declaring Unit := do
  match t.kind with
  | .namespaceDef => declareNamespace go p t
  | .namespaceAlias => declareNamespaceAlias p t outer
  | .linkageSpec =>
    match t.child? .declList, t.item? with
    | some body, _ => body.items.forM fun item => go p (.ofItem item)
    | none, some item => go p (.item item params outer)
    | none, none => pure ()
  | .usingDirective =>
    match t.name?.bind TypePath.ofName? with
    | some path => change (·.modifyScope p.scope fun s =>
        { s with usings := s.usings ++ [⟨p.file, t.span, path, p.scope⟩] })
    | none => pure ()
  | .usingDecl =>
    match t.name?.bind TypePath.ofName? with
    | some path => change (·.modifyScope p.scope fun s =>
        { s with usingDeclarations :=
            s.usingDeclarations ++ [⟨path.last.name, path, t.span.start⟩] })
    | none => pure ()
  | .aliasDecl => declareAlias p t params outer
  | .templateDecl =>
    match t.item? with
    | some item => go p (.item item (params ++ templateParameterNames t) outer)
    | none => pure ()
  | .simpleDecl => declareSimple go p t params outer
  | .functionDef => declareFunction go p t params outer
  | .accessSpec => modify ({ · with access := some (AccessSection.access t) })
  | _ => pure ()

def declareStatement (p : Place) (t : Tree) : Declaring Unit := do
  match t.kind with
  | .simpleDecl | .aliasDecl | .usingDirective | .usingDecl | .namespaceAlias | .templateDecl
  | .functionDef => go p (.ofItem t)
  | .compoundStmt | .switchStmt | .ifStmt | .forStmt | .whileStmt | .doStmt | .tryStmt
  | .catchClause =>
    let inner ← p.enter .block none t.span
    t.children.forM fun s => go inner (.statement s)
  | .condition => t.children.forM fun s => go p (.statement s)
  | .param => declareParameter p t
  | _ => pure ()

/-- Declares what a visit comes to, down to a depth. -/
def visit : Nat → Place → Visit → Declaring Unit
  | 0, _, _ => pure ()
  | n + 1, p, .item t params outer => declareItem (visit n) p t params outer
  | n + 1, p, .statement t => declareStatement (visit n) p t

end Declare

/-- Adds the scopes and symbols of a file. -/
def SymbolTable.declareFile (t : SymbolTable) (file : FileId) (root : Tree) : SymbolTable :=
  let (scope, t) := t.addFile file root.span
  let walk := root.items.forM fun item =>
    Declare.visit (2 * root.depth) ⟨file, scope⟩ (.ofItem item)
  (walk.run ⟨t, none⟩).2.table

end CppRefactor
