import CppRefactor.Project.Header
import CppRefactor.Project.IncludeGraph
import CppRefactor.Project.Document
import CppRefactor.Symbols.Link
import CppRefactor.Symbols.Reference

/-!
Snapshots: the documents of a project at one moment, parsed, with what they include and declare.
-/

namespace CppRefactor

structure SourceFile where
  path : Path
  text : String
  revision : Nat
  parse : Parse
  lines : LineIndex
  includes : List Include
  deriving Inhabited

namespace SourceFile

def ofDocument (path : Path) (d : Document) : SourceFile :=
  let parse := CppRefactor.parse d.text
  let lines := LineIndex.ofText d.text
  { path, text := d.text, revision := d.revision, parse, lines
    includes := Include.ofTree parse.tree lines }

def tree (f : SourceFile) : Tree := f.parse.tree

def root (f : SourceFile) : Cursor := .root f.tree

def document (f : SourceFile) : Document := ⟨f.text, f.revision⟩

/-- The file's name is one of a header. -/
def isHeader (f : SourceFile) : Bool := f.path.isHeader

end SourceFile

structure Snapshot where
  searchPaths : List Path
  /-- The files in the order of their paths; a file's number is its place. -/
  files : Array SourceFile
  graph : IncludeGraph
  symbols : SymbolTable
  headers : List Header
  deriving Inhabited

namespace Snapshot

/-- The symbols of files, each of which sees the files it includes. -/
def symbolsOf (files : List SourceFile) (graph : IncludeGraph) : SymbolTable :=
  let declared := files.zipIdx.foldl
    (fun (t : SymbolTable) (f, id) => t.declareFile id f.tree) .empty
  let visible := (List.range files.length).foldl
    (fun (t : SymbolTable) id => t.setVisible id (graph.allIncludes id)) declared
  visible.withLinks

def ofDocuments (searchPaths : List Path) (headers : List Header)
    (documents : PathMap Document) : Snapshot :=
  let files := documents.entries.map fun (p, d) => SourceFile.ofDocument p d
  let graph := .ofFiles searchPaths (files.map fun f => (f.path, f.includes))
  { searchPaths, files := files.toArray, graph, symbols := symbolsOf files graph, headers }

def idOf? (s : Snapshot) (path : Path) : Option FileId := s.files.findIdx? (·.path == path)

/-- The number of the file at a path as written. -/
def fileId? (s : Snapshot) (path : Path) : Option FileId := s.idOf? path.normalize

def file? (s : Snapshot) (id : FileId) : Option SourceFile := s.files[id]?

def file (s : Snapshot) (id : FileId) : SourceFile := s.files.getD id default

/-- The extensions of implementation files, in the order in which a counterpart is looked for. -/
def implementationExtensions : List String := ["cpp", "cc", "cxx", "c++", "c"]

/-- The extensions of headers, in the order in which a counterpart is looked for. -/
def counterpartExtensions : List String := ["h", "hpp", "hh", "hxx"]

/-- The implementation file of a header, or the header of an implementation file, if it stands
beside the file under the same name. -/
def associated? (s : Snapshot) (id : FileId) : Option FileId := do
  let f ← s.file? id
  let stem ← f.path.stem?
  let extension ← f.path.extension?
  guard (f.isHeader || implementationExtensions.contains extension)
  let extensions := if f.isHeader then implementationExtensions else counterpartExtensions
  extensions.findSome? fun e => s.idOf? (f.path.withFileName (stem ++ "." ++ e))

/-- The members of a scope; for a block of a namespace those of the whole namespace. -/
def scopeMembers (s : Snapshot) (scope : ScopeId) : List SymbolId :=
  let found := s.symbols.scope scope
  match found.owner with
  | some owner =>
    if found.isNamespaceBody then s.symbols.members owner else found.members
  | none => found.members

end Snapshot

end CppRefactor
