import CppRefactor.Edit.Changeset
import CppRefactor.Project.PathMap

/-!
Hosts: the open documents with their cursors and the history of the changesets made to them. Every
new text gets a revision that no document had before, after undo and redo too.
-/

namespace CppRefactor

structure OpenDocument where
  text : String
  revision : Nat
  cursor : Nat
  selection : Option Span
  deriving DecidableEq, Repr, Inhabited

def OpenDocument.document (d : OpenDocument) : Document := ⟨d.text, d.revision⟩

/-- A document before and after a changeset. -/
structure Step where
  /-- The path as the changeset had it. -/
  name : String
  before : OpenDocument
  after : OpenDocument
  deriving DecidableEq, Repr, Inhabited

def Step.path (s : Step) : Path := .ofString s.name

structure Host where
  documents : PathMap OpenDocument
  /-- What can be undone and redone, the latest first. -/
  undoable : List (List Step)
  redoable : List (List Step)
  lastRevision : Nat
  deriving Inhabited

namespace Host

def empty : Host := ⟨.empty, [], [], 0⟩

/-- A host that has documents open at their revisions. -/
def ofDocuments (documents : PathMap Document) : Host :=
  { documents := ⟨documents.entries.map fun (p, d) => (p, ⟨d.text, d.revision, 0, none⟩)⟩
    undoable := []
    redoable := []
    lastRevision := documents.entries.foldl (fun r (_, d) => max r d.revision) 0 }

def find? (h : Host) (path : Path) : Option OpenDocument := h.documents.find? path.normalize

end Host

/-- What is done to a host. An action that fails leaves the host as it is at that point: what it has
written by then stays. -/
abbrev Action := ExceptT EditError (StateM Host)

namespace Action

/-- The result of an action, and the host behind it. -/
def perform (a : Action α) (h : Host) : Except EditError α × Host := a.run.run h

/-- A revision that no document had before. -/
def nextRevision : StateM Host Nat :=
  modifyGet fun h => (h.lastRevision + 1, { h with lastRevision := h.lastRevision + 1 })

/-- Puts a document in place. -/
def write (path : Path) (d : OpenDocument) : StateM Host Unit :=
  modify fun h => { h with documents := h.documents.insert path d }

/-- Puts a state of a document in place under a new revision. The result is the document. -/
def put (path : Path) (d : OpenDocument) : StateM Host OpenDocument := do
  let d := { d with revision := ← nextRevision }
  write path d
  return d

/-- Opens a document or overwrites it. The result is its revision. -/
def openText (path : Path) (text : String) : StateM Host Nat := do
  return (← put path.normalize ⟨text, 0, 0, none⟩).revision

/-- What a changeset makes of one document, before it has a revision. -/
def stepOf [TextHash] (c : Changeset) (f : DocumentEdits) : Action Step := do
  let found := (← get).documents.find? f.path
  let text ← MonadExcept.ofExcept (Changeset.newText f (found.map (·.document)))
  let before := found.getD default
  let after : OpenDocument :=
    match c.cursor.filter (·.path == f.path) with
    | some target => ⟨text, 0, target.offset, target.selection⟩
    | none => ⟨text, 0, f.change.mapOffset before.cursor, none⟩
  return ⟨f.name, before, after⟩

/-- Makes a step; the result has the revision. -/
def take (s : Step) : StateM Host Step := do
  return { s with after := ← put s.path s.after }

/-- Makes steps that can be undone. -/
def record (steps : List Step) : StateM Host Unit := do
  let taken ← steps.mapM take
  unless taken.isEmpty do
    modify fun h => { h with undoable := taken :: h.undoable, redoable := [] }

/-- Makes a changeset in all its files, or in none if one cannot be changed. -/
def apply [TextHash] (c : Changeset) : Action Unit := do
  record (← c.files.mapM (stepOf c))

end Action

/-- The way along the history: back to what was before a changeset, or forth again. -/
inductive Direction
  | back
  | forth
  deriving DecidableEq, Repr, Inhabited

namespace Direction

/-- The state of a document that a step is made from. -/
def source : Direction → Step → OpenDocument
  | back, s => s.after
  | forth, s => s.before

/-- The state of a document that a step leads to. -/
def target : Direction → Step → OpenDocument
  | back, s => s.before
  | forth, s => s.after

/-- The changesets that can be gone through that way. -/
def history : Direction → Host → List (List Step)
  | back, h => h.undoable
  | forth, h => h.redoable

/-- Moves a changeset from its place in the one history to the front of the other. -/
def move (d : Direction) (i : Nat) (steps : List Step) (h : Host) : Host :=
  match d with
  | back => { h with undoable := h.undoable.eraseIdx i, redoable := steps :: h.redoable }
  | forth => { h with undoable := steps :: h.undoable, redoable := h.redoable.eraseIdx i }

end Direction

/-- The first changeset of a history that touches a path, with its place. -/
def latest? (history : List (List Step)) (path : Path) : Option (Nat × List Step) := do
  let i ← history.findIdx? fun steps => steps.any (·.path == path)
  return (i, ← history[i]?)

namespace Action

/-- The document of a path, which errors show by a name. -/
def require (name : String) (path : Path) : Action OpenDocument := do
  match (← get).documents.find? path with
  | some d => return d
  | none => throw (.unknownDocument name)

/-- Fails unless a document has the text that a step is made from. -/
def check (d : Direction) (s : Step) : Action Unit := do
  let current ← require s.name s.path
  unless current.text == (d.source s).text do throw (.stale s.name)

/-- Puts the documents of steps in the states that the steps lead to. -/
def putAll (d : Direction) (steps : List Step) : StateM Host Unit :=
  steps.forM fun s => discard (put s.path (d.target s))

/-- Goes through the latest changeset that touched a document; false if there is none. -/
def travel (d : Direction) (path : Path) : Action Bool := do
  match latest? (d.history (← get)) path.normalize with
  | none => return false
  | some (i, steps) =>
    steps.forM (check d)
    putAll d steps
    modify (d.move i steps)
    return true

/-- Takes back the latest changeset that touched a document. -/
def undo (path : Path) : Action Bool := travel .back path

/-- Makes the latest changeset again that was taken back and touched a document. -/
def redo (path : Path) : Action Bool := travel .forth path

/-- Changes a document that is open. -/
def modifyAt (path : Path) (f : OpenDocument → Except EditError OpenDocument) : Action Unit := do
  let d ← require path.normalize.text path.normalize
  write path.normalize (← MonadExcept.ofExcept (f d))

/-- Puts the cursor of a document at an offset, or at the end if that comes before. -/
def setCursor (path : Path) (offset : Nat) : Action Unit :=
  modifyAt path fun d => .ok { d with cursor := min offset d.text.utf8ByteSize, selection := none }

/-- Selects a span of a document; the cursor is at its end. -/
def select (path : Path) (span : Span) : Action Unit :=
  modifyAt path fun d =>
    if d.text.utf8ByteSize < span.stop then
      .error (.outOfBounds span d.text.utf8ByteSize)
    else .ok { d with cursor := span.stop, selection := some span }

/-- The result and the host, if the action does not fail. -/
def outcome (a : Action α) (h : Host) : Except EditError (α × Host) :=
  match a.perform h with
  | (.ok x, h) => .ok (x, h)
  | (.error e, _) => .error e

end Action

namespace Host

def openText (h : Host) (path : Path) (text : String) : Nat × Host :=
  (Action.openText path text).run h

def apply [TextHash] (h : Host) (c : Changeset) : Except EditError Host :=
  (·.2) <$> (Action.apply c).outcome h

def undo (h : Host) (path : Path) : Except EditError (Bool × Host) := (Action.undo path).outcome h

def redo (h : Host) (path : Path) : Except EditError (Bool × Host) := (Action.redo path).outcome h

def setCursor (h : Host) (path : Path) (offset : Nat) : Except EditError Host :=
  (·.2) <$> (Action.setCursor path offset).outcome h

def select (h : Host) (path : Path) (span : Span) : Except EditError Host :=
  (·.2) <$> (Action.select path span).outcome h

end Host

end CppRefactor
