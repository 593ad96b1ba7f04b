import CppRefactor.Edit.Host
import CppRefactor.Project.Workspace

/-!
Hosts and workspaces: a host starts with the documents of a workspace, and what changes in it is
copied back.
-/

namespace CppRefactor

namespace Host

def ofWorkspace (w : Workspace) : Host := .ofDocuments w.documents

/-- Copies a document into a workspace, unless the workspace has the document at that revision. -/
def copyInto (w : Workspace) (path : Path) (d : Document) : Workspace :=
  if (w.find? path).any (·.revision == d.revision) then w else w.setAt path d

/-- Copies every document of a host into a workspace under the host's revisions. -/
def copyAllInto (h : Host) (w : Workspace) : Workspace :=
  h.documents.entries.foldl (fun w (path, d) => copyInto w path d.document) w

end Host

end CppRefactor
