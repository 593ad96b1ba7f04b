import CppRefactor.Project.PathMap

/-!
What is read from a disk: the files below one directory.
-/

namespace CppRefactor

structure Disk where
  root : Path
  /-- The texts of the files by their paths below the root; a file that is not text has none. -/
  files : PathMap (Option String)
  deriving Inhabited

namespace Disk

/-- The files below a directory in the order of a walk that goes depth first and by name, with
their paths from there. -/
def below (disk : Disk) (dir : Path) : List (List Component × Option String) :=
  match dir.normalize.from? disk.root.normalize with
  | none => []
  | some inner =>
    (disk.files.entries.filterMap fun (path, text) =>
      (path.from? inner).map fun rest => (rest.components, text)).filter (!·.1.isEmpty)

def isDirectory (disk : Disk) (dir : Path) : Bool :=
  dir.normalize == disk.root.normalize || !(disk.below dir).isEmpty

end Disk

end CppRefactor
