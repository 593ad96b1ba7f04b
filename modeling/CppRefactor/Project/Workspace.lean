import CppRefactor.Project.Snapshot

/-!
Workspaces: the documents of a project and the headers below its search paths. A revision is given
once.
-/

namespace CppRefactor

structure Workspace where
  searchPaths : List Path
  documents : PathMap Document
  headers : List Header
  lastRevision : Nat
  deriving Inhabited

/-- Why a directory is not loaded, or not all of it. -/
inductive LoadError
  | notFound (directory : String)
  | notText (files : List String)
  deriving DecidableEq, Repr, Inhabited

def LoadError.message : LoadError → String
  | notFound directory => "Directory not found: " ++ directory
  | notText files =>
    "Failed to load " ++ toString files.length ++ " file(s):\n  " ++
      "\n  ".intercalate (files.map (· ++ ": stream did not contain valid UTF-8"))

namespace Workspace

/-- A workspace without documents, with the headers that are on a disk now. -/
def ofSearchPaths (disk : Option Disk) (searchPaths : List Path) : Workspace :=
  ⟨searchPaths, .empty, Header.scan disk searchPaths, 0⟩

/-- Looks for headers again. -/
def rescan (w : Workspace) (disk : Option Disk) : Workspace :=
  { w with headers := Header.scan disk w.searchPaths }

/-- Puts a document in place under a revision that was given elsewhere. -/
def setAt (w : Workspace) (path : Path) (d : Document) : Workspace :=
  { w with
    documents := w.documents.insert path.normalize d
    lastRevision := max w.lastRevision d.revision }

/-- Puts a document in place under a new revision. -/
def set (w : Workspace) (path : Path) (text : String) : Nat × Workspace :=
  (w.lastRevision + 1, w.setAt path ⟨text, w.lastRevision + 1⟩)

/-- Whether there was a document, and the workspace without it. -/
def remove (w : Workspace) (path : Path) : Bool × Workspace :=
  (w.documents.contains path.normalize,
    { w with documents := w.documents.erase path.normalize })

def find? (w : Workspace) (path : Path) : Option Document := w.documents.find? path.normalize

def snapshot (w : Workspace) : Snapshot := .ofDocuments w.searchPaths w.headers w.documents

/-- The path's extension is one of a header or an implementation file. -/
def isSource (p : Path) : Bool :=
  p.extension?.any fun e =>
    ["h", "hh", "hpp", "hxx", "c", "cc", "cpp", "cxx", "c++"].contains
      (.ofList (e.toList.map Char.toLower))

/-- Sets every source file below a directory as a document. The result is their number, unless some
are no text. -/
def loadDirectory (w : Workspace) (disk : Option Disk) (directory : String) :
    Except LoadError Nat × Workspace :=
  let dir := Path.ofString directory
  match disk.filter (·.isDirectory dir) with
  | none => (.error (.notFound directory), w)
  | some disk =>
    let sources := (disk.below dir).map fun (below, text) =>
      (Path.mk (dir.components ++ below), text)
    let sources := sources.filter fun (path, _) => isSource path
    let texts := sources.filterMap fun (path, text) => text.map fun t => (path, t)
    let w := texts.foldl (fun w (path, text) => (w.set path text).2) w
    let failed := (sources.filter (·.2.isNone)).map fun (path, _) => path.text
    (if failed.isEmpty then .ok texts.length else .error (.notText failed), w)

end Workspace

end CppRefactor
