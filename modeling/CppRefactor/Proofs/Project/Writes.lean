import CppRefactor.Proofs.Edit.Preview
import CppRefactor.Proofs.Project.Ranks

/-!
What a workspace answers after documents were set and removed, in any order and under any spelling
of their paths: the document last set under a path with the same normal form.
-/

namespace CppRefactor

/-- What is done to the documents of a workspace. -/
inductive Write
  | set (path : Path) (text : String)
  | setAt (path : Path) (d : Document)
  | remove (path : Path)
  deriving DecidableEq, Repr

namespace Write

def path : Write → Path
  | set path _ => path
  | setAt path _ => path
  | remove path => path

/-- The document that is put in place; a text has the revision that setting it returns. -/
def document? (w : Workspace) : Write → Option Document
  | set path text => some ⟨text, (w.set path text).1⟩
  | setAt _ d => some d
  | remove _ => none

def perform (w : Workspace) : Write → Workspace
  | set path text => (w.set path text).2
  | setAt path d => w.setAt path d
  | remove path => (w.remove path).2

theorem find?_perform (w : Workspace) (c : Write) (q : Path) :
    (c.perform w).find? q =
      if q.normalize = c.path.normalize then c.document? w else w.find? q := by
  cases c with
  | set path text => exact PathMap.find?_insert ..
  | setAt path d => exact PathMap.find?_insert ..
  | remove path => exact PathMap.find?_erase ..

theorem lastRevision_le_perform (w : Workspace) (c : Write) :
    w.lastRevision ≤ (c.perform w).lastRevision := by
  cases c with
  | set path text => exact Nat.le_max_left ..
  | setAt path d => exact Nat.le_max_left ..
  | remove path => exact Nat.le_refl _

theorem revision_le_perform {w : Workspace} {c : Write} (h : c.document? w = some d) :
    d.revision ≤ (c.perform w).lastRevision := by
  cases c with
  | set path text =>
    cases h
    exact Nat.le_max_right ..
  | setAt path d =>
    cases h
    exact Nat.le_max_right ..
  | remove path => cases h

theorem perform_reachable {w : Workspace} (h : w.Reachable) (c : Write) :
    (c.perform w).Reachable := by
  cases c with
  | set path text => exact h.set path text
  | setAt path d => exact h.setAt path d
  | remove path => exact h.remove path

end Write

namespace Workspace

def after (w : Workspace) (writes : List Write) : Workspace :=
  writes.foldl (fun w c => c.perform w) w

/-- The paths that are written, as they are spelled, each with the document put in place there or
with none. The latest comes first. -/
def log (w : Workspace) : List Write → List (Path × Option Document)
  | [] => []
  | c :: rest => (c.perform w).log rest ++ [(c.path, c.document? w)]

theorem find?_after (w : Workspace) (writes : List Write) (q : Path) :
    (w.after writes).find? q =
      ((w.log writes).find? fun e => e.1.normalize = q.normalize).elim (w.find? q) (·.2) := by
  induction writes generalizing w with
  | nil => rfl
  | cons c rest ih =>
    rw [after, List.foldl_cons, ← after, ih, log, List.find?_append, c.find?_perform]
    cases ((c.perform w).log rest).find? fun e => e.1.normalize = q.normalize with
    | some e => rfl
    | none =>
      by_cases hq : q.normalize = c.path.normalize
      · simp [hq]
      · simp [hq, Ne.symm hq]

theorem lastRevision_le_after (w : Workspace) (writes : List Write) :
    w.lastRevision ≤ (w.after writes).lastRevision := by
  induction writes generalizing w with
  | nil => exact Nat.le_refl _
  | cons c rest ih => exact Nat.le_trans (c.lastRevision_le_perform w) (ih _)

/-- The last revision is above those of all documents that were put in place. -/
theorem revision_le_after {w : Workspace} (h : (p, some d) ∈ w.log writes) :
    d.revision ≤ (w.after writes).lastRevision := by
  induction writes generalizing w with
  | nil => cases h
  | cons c rest ih =>
    rcases List.mem_append.mp h with h | h
    · exact ih h
    · have hd : c.document? w = some d := (congrArg Prod.snd (List.mem_singleton.mp h)).symm
      exact Nat.le_trans (Write.revision_le_perform hd) ((c.perform w).lastRevision_le_after rest)

theorem Reachable.after (h : Reachable w) (writes : List Write) : (w.after writes).Reachable := by
  induction writes generalizing w with
  | nil => exact h
  | cons c rest ih => exact ih (c.perform_reachable h)

theorem snapshot_paths (w : Workspace) :
    w.snapshot.files.toList.map (·.path) = w.documents.paths := by
  simp [Workspace.snapshot, Snapshot.ofDocuments, PathMap.paths, SourceFile.ofDocument]

theorem snapshot_idOf? {w : Workspace} (hw : w.documents.Ordered) (p : Path) :
    w.snapshot.idOf? p = (w.documents.find? p).map fun _ => w.documents.rank p := by
  rw [← w.snapshot_document? p, Snapshot.document?, Option.map_map]
  cases hid : w.snapshot.idOf? p with
  | none => rfl
  | some id =>
    obtain ⟨hlt, hp, -⟩ := Array.findIdx?_eq_some_iff_getElem.mp hid
    have hp : w.documents.paths[id]? = some p := by
      rw [← w.snapshot_paths]
      simpa [hlt] using hp
    exact congrArg some (PathMap.countP_before_getElem hw.paths hp).symm

theorem of_snapshot_file? {w : Workspace} {id : FileId} (hw : w.documents.Ordered)
    (h : w.snapshot.file? id = some f) :
    w.documents.rank f.path = id ∧ w.documents.find? f.path = some f.document := by
  have hp : w.documents.paths[id]? = some f.path := by
    rw [← w.snapshot_paths, List.getElem?_map, Array.getElem?_toList]
    exact congrArg (Option.map _) h
  have hrank : w.documents.rank f.path = id := PathMap.countP_before_getElem hw.paths hp
  obtain ⟨d, hd⟩ := PathMap.mem_paths.mp (List.mem_of_getElem? hp)
  have hid := w.snapshot_idOf? hw f.path
  have hdoc := w.snapshot_document? f.path
  rw [hd, hrank] at hid
  rw [Snapshot.document?, hid, Option.map_some, Option.map_some, Snapshot.file,
    Array.getD_eq_getD_getElem?, show w.snapshot.files[id]? = some f from h] at hdoc
  exact ⟨hrank, hdoc.symm⟩

/-- After any writes the documents stand under normal forms, a path leads to what was last written
under one with the same normal form, a text that is set gets a revision above all that were given or
stored, and the files of a snapshot are numbered by the ranks of their paths. -/
theorem after_writes (disk : Option Disk) (searchPaths : List Path) (writes : List Write) :
    let w := (ofSearchPaths disk searchPaths).after writes
    let log := (ofSearchPaths disk searchPaths).log writes
    (∀ p ∈ w.documents.paths, p.normalize = p) ∧
    (∀ q, w.find? q = (log.find? fun e => e.1.normalize = q.normalize).bind (·.2)) ∧
    (∀ path text p d, (p, some d) ∈ log → d.revision < (w.set path text).1) ∧
    (∀ q, w.snapshot.fileId? q = (w.find? q).map fun _ => w.documents.rank q.normalize) ∧
    ∀ id f, w.snapshot.file? id = some f →
      w.documents.rank f.path = id ∧ w.documents.find? f.path = some f.document := by
  intro w log
  have hw : w.Reachable := (Reachable.ofSearchPaths disk searchPaths).after writes
  refine ⟨?_, ?_, ?_, ?_, ?_⟩
  · intro p hp
    obtain ⟨d, hd⟩ := PathMap.mem_paths.mp hp
    exact hw.normalized p d hd
  · intro q
    rw [find?_after]
    cases log.find? fun e => e.1.normalize = q.normalize with
    | none => rfl
    | some e => rfl
  · intro path text p d h
    exact Nat.lt_succ_of_le (revision_le_after h)
  · exact fun q => snapshot_idOf? hw.ordered _
  · exact fun id f hf => of_snapshot_file? hw.ordered hf

end Workspace

end CppRefactor
