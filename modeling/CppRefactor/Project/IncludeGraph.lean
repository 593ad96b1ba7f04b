import CppRefactor.Project.Include
import CppRefactor.Project.Path
import CppRefactor.Symbols.Symbol

/-!
Which file of a project includes which. Files are known by their numbers in the order of paths.
-/

namespace CppRefactor

/-- Which file includes which, in both directions. -/
structure IncludeGraph where
  /-- For each file those it includes, each once, in the order of the directives. -/
  targets : List (List FileId)
  /-- For each file those that include it, in the order of the files. -/
  sources : List (List FileId)
  deriving DecidableEq, Repr, Inhabited

namespace IncludeGraph

/-- The paths at which the file of a directive may be: next to the including file if it is quoted,
then in the search paths. -/
def candidates (searchPaths : List Path) (including : Path) (i : Include) : List Path :=
  let target := Path.ofString i.path
  let beside :=
    match i.kind with
    | .quoted => including.parent?.toList
    | .system => []
  (beside ++ searchPaths).map fun dir => (dir.join target).normalize

/-- The file that a directive names. -/
def resolve? (searchPaths : List Path) (paths : List Path) (including : Path) (i : Include) :
    Option FileId :=
  (candidates searchPaths including i).findSome? fun p => paths.findIdx? (· == p)

/-- The files a file includes itself. -/
def includes (g : IncludeGraph) (file : FileId) : List FileId := (g.targets[file]?).getD []

/-- The files that include a file themselves. -/
def includedBy (g : IncludeGraph) (file : FileId) : List FileId := (g.sources[file]?).getD []

/-- The graph of `n` files that include nothing. -/
def ofSize (n : Nat) : IncludeGraph := ⟨List.replicate n [], List.replicate n []⟩

/-- Enters in both directions that a file includes a target, unless the target is the file itself or
is among those it includes. -/
def addEdge (file : FileId) (g : IncludeGraph) (target : FileId) : IncludeGraph :=
  if target = file || (g.includes file).contains target then g
  else
    { targets := g.targets.modify file (· ++ [target])
      sources := g.sources.modify target (· ++ [file]) }

/-- Enters the edges of one file. -/
def addFile (searchPaths paths : List Path) (g : IncludeGraph) :
    (Path × List Include) × FileId → IncludeGraph
  | ((path, directives), file) =>
    (directives.filterMap (resolve? searchPaths paths path)).foldl (addEdge file) g

def ofFiles (searchPaths : List Path) (files : List (Path × List Include)) : IncludeGraph :=
  files.zipIdx.foldl (addFile searchPaths (files.map (·.1))) (ofSize files.length)

/-- Follows edges from the files on a stack for `n` files; `seen` are those found so far. New
neighbours of a file go on the stack in order, so the last of them is next. -/
def explore (next : FileId → List FileId) : Nat → List FileId → List FileId → List FileId
  | 0, _, seen => seen
  | _ + 1, [], seen => seen
  | n + 1, file :: stack, seen =>
    let new := (next file).filter (!seen.contains ·)
    explore next n (new.reverse ++ stack) (seen ++ new)

/-- The files that edges lead to from a file, without itself. -/
def reachable (g : IncludeGraph) (next : FileId → List FileId) (file : FileId) : List FileId :=
  (explore next (g.targets.length + 1) [file] [file]).drop 1

/-- The files a file includes, through other files too. -/
def allIncludes (g : IncludeGraph) (file : FileId) : List FileId := g.reachable g.includes file

/-- The files that include a file, through other files too. -/
def allIncluders (g : IncludeGraph) (file : FileId) : List FileId := g.reachable g.includedBy file

end IncludeGraph

end CppRefactor
