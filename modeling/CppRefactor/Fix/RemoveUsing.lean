import CppRefactor.Fix.Request

/-!
Removing using-directives. Names that were found through a removed directive and are lost without it
get the namespace as a qualifier.
-/

namespace CppRefactor

structure RemoveUsing where
  directive : UsingDirective
  /-- The namespace as written. -/
  name : String
  /-- Directives of the same namespace in all files are removed. -/
  everywhere : Bool
  deriving DecidableEq, Repr, Inhabited

/-- What a directive names: a namespace, or a path that leads to none. -/
inductive Nominee
  | known (ns : SymbolId)
  | unknown (path : String)
  deriving DecidableEq, Repr, Inhabited

namespace SymbolTable

/-- The using-directives of a file. -/
def directivesIn (t : SymbolTable) (file : FileId) : List UsingDirective :=
  ((t.scopesOf file).flatMap fun s => (t.scope s).usings).filter (·.file == file)

def nominee (t : SymbolTable) (d : UsingDirective) : Nominee :=
  match (t.lookupPath ⟨d.site, .scopes, []⟩ d.path).findSome? t.standsFor? with
  | some ns => .known ns
  | none => .unknown d.path.text

/-- The directive holds for a whole file or namespace. -/
def isOfNamespace (t : SymbolTable) (d : UsingDirective) : Bool := (t.scope d.scope).isNamespaceBody

/-- The directive stands outside namespaces, classes and functions. -/
def isOfFile (t : SymbolTable) (d : UsingDirective) : Bool := (t.scope d.scope).kind == .file

/-- The file sees another one. -/
def sees (t : SymbolTable) (file other : FileId) : Bool :=
  file != other && (t.seenFrom file).contains other

end SymbolTable

namespace RemoveUsing

/-- A file that may have to be changed: the directives removed from it, and the part in which names
may have been found through a removed directive. -/
structure Affected where
  file : FileId
  removed : List Span
  reach : Span

/-- The directives that are not to count any more, and the files affected by that. -/
structure Removal where
  disabled : List DirectivePlace
  files : List Affected

def wholeFile (s : Snapshot) (file : FileId) : Span := ⟨0, (s.file file).text.utf8ByteSize⟩

def fileIds (s : Snapshot) : List FileId := List.range s.files.size

/-- Removes one directive. Directives of the same namespace in files that its file sees do not count
either, so names are qualified as if it were the only one. -/
def localRemoval (s : Snapshot) (d : UsingDirective) : Removal :=
  let t := s.symbols
  let others := ((t.seenFrom d.file).filter (· != d.file)).flatMap t.directivesIn
  let same := others.filter fun o => t.isOfNamespace o && t.nominee o == t.nominee d
  let stop :=
    if t.isOfFile d then (s.file d.file).text.utf8ByteSize else (t.scope d.scope).span.stop
  let including := (fileIds s).filter fun f => t.isOfNamespace d && t.sees f d.file
  { disabled := d.place :: same.map (·.place)
    files := ⟨d.file, [d.span], ⟨d.span.stop, max stop d.span.stop⟩⟩ ::
      including.map fun f => ⟨f, [], wholeFile s f⟩ }

/-- Where the first of some spans ends. -/
def firstStop (first : Span) (rest : List Span) : Nat :=
  rest.foldl (fun n span => min n span.stop) first.stop

/-- Removes the directives of the same namespace that stand outside namespaces, in every file. -/
def globalRemoval (s : Snapshot) (d : UsingDirective) : Removal :=
  let t := s.symbols
  let removedFrom (f : FileId) : List UsingDirective :=
    (t.directivesIn f).filter fun o => t.isOfFile o && t.nominee o == t.nominee d
  let byFile := (fileIds s).map fun f => (f, removedFrom f)
  let affected : List (Option Affected) := byFile.map fun (f, own) =>
    let seesOne := byFile.any fun (g, theirs) => !theirs.isEmpty && t.sees f g
    match own.map (·.span), seesOne with
    | [], false => none
    | [], true => some ⟨f, [], wholeFile s f⟩
    | spans, true => some ⟨f, spans, wholeFile s f⟩
    | first :: rest, false =>
      some ⟨f, first :: rest, ⟨firstStop first rest, (wholeFile s f).stop⟩⟩
  { disabled := byFile.flatMap fun (_, own) => own.map (·.place)
    files := affected.filterMap id }

def removal (s : Snapshot) (f : RemoveUsing) : Removal :=
  if f.everywhere then globalRemoval s f.directive else localRemoval s f.directive

/-- A name refers to something that may be found through a directive: it is not declared there, and
it is no member behind a dot or an arrow. -/
def isReference (name : Cursor) : Bool :=
  match name.up? with
  | none => false
  | some parent =>
    match parent.kind with
    | .namespaceDef | .classSpec | .enumSpec | .templateParam => false
    | .namespaceAlias => ((parent.childrenOf .qualifiedName)[1]?).any (·.same name)
    | .declarator => 1 < (Name.segments name.focus).length
    | .nameRef => !NameReference.isMember parent
    | _ => true

/-- What the first segment of a name has to be. -/
def firstFilter (name : Tree) : Filter :=
  if 1 < (Name.segments name).length then .scopes else .any

/-- Where a name needs the qualifier: its first segment is found in the namespace of that path, and
is not found without the disabled directives. -/
def lostAt? (t : SymbolTable) (file : FileId) (namespacePath : List String)
    (disabled : List DirectivePlace) (name : Tree) : Option Nat := do
  let first ← (Name.segments name).head?
  let site ← t.siteAt? file first.span.start
  let found ← (t.lookup ⟨site, firstFilter name, []⟩ first.text).head?
  guard ((t.qualifyingNames found).dropLast == namespacePath)
  guard !((t.lookup ⟨site, firstFilter name, disabled⟩ first.text).any fun other =>
    t.denoteSame other found)
  return first.span.start

/-- The names in an affected file that may have been found through a removed directive. -/
def referencesIn (s : Snapshot) (a : Affected) : List Cursor :=
  ((s.file a.file).root.nodesOf .qualifiedName).filter fun n =>
    !Name.isGlobal n.focus && isReference n && a.reach.encloses n.span &&
      !a.removed.any (·.encloses n.span)

/-- The places in an affected file where the qualifier is needed. -/
def lostNames (s : Snapshot) (disabled : List DirectivePlace) (namespacePath : List String)
    (a : Affected) : List Nat :=
  (referencesIn s a).filterMap fun n => lostAt? s.symbols a.file namespacePath disabled n.focus

/-- The line of a directive that stands alone on it, or else the directive. -/
def lineOf (f : SourceFile) (span : Span) : Span :=
  let start := f.lines.lineStart span.start
  let stop := f.lines.lineEnd span.stop
  let isBlank (s : Span) : Bool := (Text.trim (Text.slice f.text s)).isEmpty
  if isBlank ⟨start, span.start⟩ && isBlank ⟨span.stop, stop⟩ then
    ⟨start, max (f.lines.nextLineStart span.stop) stop⟩
  else span

def description (f : RemoveUsing) : String :=
  if f.everywhere then
    "Remove All Occurrences of \"using namespace " ++ f.name ++
      "\" in Global Scope and Adjust Type Names Accordingly"
  else "Remove \"using namespace " ++ f.name ++ "\""

/-- The fixes offered on a using-directive. -/
def offers (r : Request) : Except FixError (List RemoveUsing) := do
  match r.find? .usingDirective with
  | none => return []
  | some c =>
    let name ← orError (.malformed .directiveWithoutName) c.focus.name?
    let directive ← orError (.unresolved .usingDirective)
      ((r.symbols.directivesIn r.file).find? fun d =>
        c.span.encloses d.span || d.span.encloses c.span)
    let here : RemoveUsing := ⟨directive, name.spelling, false⟩
    return if r.symbols.isOfFile directive then [here, { here with everywhere := true }] else [here]

/-- The text that qualifies a name. -/
def qualifier (names : List String) : String := "::".intercalate names ++ "::"

/-- Removes the directives from an affected file and qualifies the names that are lost. -/
def editsIn (s : Snapshot) (names : List String) (c : Changeset) (a : Affected)
    (lost : List Nat) : Changeset :=
  if a.removed.isEmpty && lost.isEmpty then c
  else c.editFile s a.file fun change =>
    let change := a.removed.foldl (fun c span => c.remove (lineOf (s.file a.file) span)) change
    lost.foldl (fun c offset => c.insert offset (qualifier names)) change

def changes (r : Request) (f : RemoveUsing) : Changeset :=
  let s := r.snapshot
  let removal := f.removal s
  match s.symbols.nominee f.directive with
  | .known ns =>
    let names := s.symbols.qualifyingNames ns
    removal.files.foldl (fun c a => editsIn s names c a (lostNames s removal.disabled names a))
      .empty
  | .unknown _ => removal.files.foldl (fun c a => editsIn s [] c a []) .empty

end RemoveUsing

end CppRefactor
