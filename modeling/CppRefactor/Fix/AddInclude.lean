import CppRefactor.Fix.IncludeInsertion
import CppRefactor.Fix.Request
import CppRefactor.Fix.StandardHeader

/-!
Adding an include for a name that nothing is found for, or only forward declarations. Documents,
headers below the search paths and the standard library may declare it.
-/

namespace CppRefactor

structure AddInclude where
  kind : IncludeKind
  path : String
  deriving DecidableEq, Repr, Inhabited

namespace AddInclude

/-- A class is declared, but not defined here. -/
def isForward (t : SymbolTable) (id : SymbolId) : Bool :=
  (t.symbol id).kind.isClass && !(t.symbol id).flags.isDefinition

/-- The path up to a segment, itself included. -/
def upTo (path : TypePath) (i : Nat) : TypePath :=
  { path with segments := path.segments.take (i + 1) }

/-- The first segment of a path up to which it finds nothing but forward declarations. -/
def firstUndefined? (t : SymbolTable) (site : Site) (path : TypePath) : Option Nat :=
  (List.range path.segments.length).find? fun i =>
    (t.lookupPath ⟨site, .any, []⟩ (upTo path i)).all (isForward t)

/-- The symbol is declared in another file than this one, in a namespace. -/
def isDeclaredElsewhere (t : SymbolTable) (file : FileId) (s : Symbol) : Bool :=
  s.file != file && Header.isOffered t s

/-- The other documents that declare a name outside classes, in order. -/
def declaringFiles (s : Snapshot) (file : FileId) (names : List String) : List FileId :=
  let t := s.symbols
  let joined := "::".intercalate names
  let declaring := (t.withName (names.getLastD "")).filter fun id =>
    let name := t.qualifiedName id
    isDeclaredElsewhere t file (t.symbol id) &&
      (name == joined || ("::" ++ joined).toList.isSuffixOf name.toList)
  let files := declaring.map fun id => (t.symbol id).file
  (List.range s.files.size).filter files.contains

/-- How a header is included from a directory: by its name if it stands there, else by its shortest
path from a search path, else by its path from the directory. -/
def spelling? (searchPaths : List Path) (directory header : Path) : Option AddInclude :=
  match header.from? directory with
  | some ⟨[name]⟩ => some ⟨.quoted, Path.slashed ⟨[name]⟩⟩
  | beside =>
    let system := (searchPaths.filterMap header.from?).map Path.slashed
    match SymbolTable.leastBy String.utf8ByteSize system with
    | some path => some ⟨.system, path⟩
    | none => beside.map fun p => ⟨.quoted, p.slashed⟩

/-- The includes that make a name known. -/
def forName (s : Snapshot) (file : FileId) (directory : Path) (names : List String) :
    List AddInclude :=
  let documents := (declaringFiles s file names).map fun id => (s.file id).path
  let headers := (Header.declaring s.headers ("::".intercalate names)).map (·.path)
  (documents ++ headers).filterMap (spelling? s.searchPaths directory) ++
    ((standardHeader? names).map (⟨.system, ·⟩)).toList

/-- A header somewhere declares the name. -/
def isKnown (s : Snapshot) (file : FileId) (names : List String) : Bool :=
  !(declaringFiles s file names).isEmpty || (standardHeader? names).isSome ||
    !(Header.declaring s.headers ("::".intercalate names)).isEmpty

/-- The includes of files without an extension that are called like a class. -/
def forwarding (s : Snapshot) (file : FileId) (directory : Path) (name : String) :
    List AddInclude :=
  let documents := (List.range s.files.size).filter fun id =>
    let path := (s.file id).path
    id != file && path.extension?.isNone && path.fileName? == some name
  documents.filterMap (fun id => spelling? s.searchPaths directory (s.file id).path) ++
    (Header.forwarding s.headers name).map fun h => ⟨.system, h.relative⟩

/-- The includes for a path that is undefined from a segment on: those for its longest beginning
that some header declares, then forwarding headers. -/
def candidates (s : Snapshot) (file : FileId) (path : TypePath) (undefined : Nat) :
    List AddInclude :=
  let directory := (s.file file).path.parent?.getD ⟨[]⟩
  let ends := ((List.range path.segments.length).drop undefined).reverse
  let beginnings := ends.map fun i => (upTo path i).names
  let declaring :=
    match beginnings.find? (isKnown s file) with
    | some names => forName s file directory names
    | none => []
  SymbolTable.distinct <|
    declaring ++ forwarding s file directory (path.names.getD undefined "")

/-- The includes offered on a name that is used. -/
def offers (r : Request) : Except FixError (List AddInclude) := do
  match r.find? .qualifiedName with
  | none => return []
  | some name =>
    let path ← orError (.malformed .emptyName) (TypePath.ofName? name.focus)
    let t := r.symbols
    if (Name.last? name.focus).all fun s => (t.declaredAt? r.file s.span.start).isSome then
      return []
    let site ← orError (.unresolved .nameScope) (r.siteAt? name.span.start)
    match firstUndefined? t site path with
    | none => return []
    | some i => return candidates r.snapshot r.file path i

def description (a : AddInclude) : String := "Add #include " ++ Include.spell a.kind a.path

def changes (r : Request) (a : AddInclude) : Changeset :=
  let i := Insertion.ofInclude r.text r.lines r.source.includes a.kind a.path
  Changeset.empty.editFile r.snapshot r.file (·.insert i.offset i.text)

end AddInclude

end CppRefactor
