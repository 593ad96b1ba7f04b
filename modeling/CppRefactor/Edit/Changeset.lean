import CppRefactor.Edit.Change
import CppRefactor.Project.Document
import CppRefactor.Project.Path

/-!
Changesets: changes of several documents that are made together or not at all. The files keep the
order in which they were first touched.
-/

namespace CppRefactor

/-- A hash of texts, by which a document is known to be unchanged. -/
class TextHash where
  hash : String → UInt64

/-- A hash to run with. -/
instance : TextHash := ⟨fun text => text.toList.foldl (fun h c => 31 * h + c.val.toUInt64) 7⟩

/-- The change of one document, with the revision and the hash of the text it was computed from. -/
structure DocumentEdits where
  /-- The path as written. -/
  name : String
  change : Change
  revision : Nat
  textHash : UInt64
  deriving DecidableEq, Repr, Inhabited

def DocumentEdits.path (f : DocumentEdits) : Path := .ofString f.name

/-- The document is in the state the edits were computed from, as far as its hash tells. -/
def DocumentEdits.fits [TextHash] (f : DocumentEdits) (d : Document) : Bool :=
  d.revision == f.revision && TextHash.hash d.text == f.textHash

/-- Where the cursor goes, in the text after the change. -/
structure CursorMove where
  name : String
  offset : Nat
  selection : Option Span
  deriving DecidableEq, Repr, Inhabited

def CursorMove.path (c : CursorMove) : Path := .ofString c.name

/-- No two files of a changeset have the same path. -/
structure Changeset where
  files : List DocumentEdits
  cursor : Option CursorMove
  distinct : (files.map (·.path)).Nodup
  deriving DecidableEq

namespace Changeset

def empty : Changeset := ⟨[], none, .nil⟩

instance : Inhabited Changeset := ⟨empty⟩

/-- The edits of the file of a path after a change. -/
def editAt (path : Path) (f : Change → Change) (e : DocumentEdits) : DocumentEdits :=
  if e.path == path then { e with change := f e.change } else e

@[simp] theorem editAt_path (path : Path) (f : Change → Change) (e : DocumentEdits) :
    (editAt path f e).path = e.path := by
  unfold editAt
  split <;> rfl

/-- Adds to the change of a document. The first time, the state of the document is noted. -/
def edit [TextHash] (c : Changeset) (name : String) (state : Document) (f : Change → Change) :
    Changeset :=
  let path := Path.ofString name
  if h : c.files.any (·.path == path) then
    { c with
      files := c.files.map (editAt path f)
      distinct := by
        have hpaths : (c.files.map (editAt path f)).map (·.path) = c.files.map (·.path) := by
          simp [Function.comp_def]
        rw [hpaths]
        exact c.distinct }
  else
    { c with
      files := c.files ++ [⟨name, f .empty, state.revision, TextHash.hash state.text⟩]
      distinct := by
        rw [List.map_append, List.nodup_append]
        refine ⟨c.distinct, by simp, ?_⟩
        intro p hp q hq
        simp only [List.map_cons, List.map_nil, List.mem_singleton] at hq
        obtain ⟨e, he, rfl⟩ := List.mem_map.mp hp
        rintro rfl
        exact h (List.any_eq_true.mpr ⟨e, he, beq_iff_eq.mpr hq⟩) }

def setCursor (c : Changeset) (name : String) (offset : Nat) : Changeset :=
  { c with cursor := some ⟨name, offset, none⟩ }

/-- Selects a span; the cursor is at its end. -/
def setSelection (c : Changeset) (name : String) (span : Span) : Changeset :=
  { c with cursor := some ⟨name, span.stop, some span⟩ }

def isEmpty (c : Changeset) : Bool := c.files.all (·.change.isEmpty)

/-- Sorts and checks the edits of files. -/
def finishFiles : List DocumentEdits → Except EditError (List DocumentEdits)
  | [] => .ok []
  | f :: fs => do
    let change ← f.change.finish
    return { f with change } :: (← finishFiles fs)

theorem finishFiles_paths (h : finishFiles fs = .ok gs) :
    gs.map (·.path) = fs.map (·.path) := by
  induction fs generalizing gs with
  | nil =>
    cases h
    rfl
  | cons f fs ih =>
    simp only [finishFiles] at h
    cases hf : f.change.finish with
    | error e => simp [hf, bind, Except.bind] at h
    | ok change =>
      cases hfs : finishFiles fs with
      | error e => simp [hf, hfs, bind, Except.bind] at h
      | ok rest =>
        simp only [hf, hfs, bind, Except.bind, pure, Except.pure, Except.ok.injEq] at h
        rw [← h, List.map_cons, List.map_cons, ih hfs]
        rfl

/-- Sorts and checks the edits of each file, and leaves out the files without any. -/
def finish (c : Changeset) : Except EditError Changeset :=
  match h : finishFiles c.files with
  | .error e => .error e
  | .ok files => .ok
    { c with
      files := files.filter (!·.change.isEmpty)
      distinct := by
        have hd := c.distinct
        rw [← finishFiles_paths h] at hd
        exact hd.sublist (List.filter_sublist.map _) }

variable [TextHash]

/-- The new text of a file, for the document found under its path. -/
def newText (f : DocumentEdits) (found : Option Document) : Except EditError String :=
  match found with
  | none => .error (.unknownDocument f.name)
  | some d => if f.fits d then f.change.apply d.text else .error (.stale f.name)

/-- The new text of each file, for documents found by normalized path. -/
def preview (c : Changeset) (find : Path → Option Document) :
    Except EditError (List (String × String)) :=
  c.files.mapM fun f => do return (f.name, ← newText f (find f.path.normalize))

end Changeset

end CppRefactor
