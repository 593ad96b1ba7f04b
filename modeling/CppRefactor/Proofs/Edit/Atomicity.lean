import CppRefactor.Proofs.Edit.Documents

/-!
Calls of a host change everything they name or nothing, and nothing else.
-/

namespace CppRefactor

/-- What can be asked of a host. -/
inductive Call
  | openText (path : Path) (text : String)
  | apply (changes : Changeset)
  | undo (path : Path)
  | redo (path : Path)
  | setCursor (path : Path) (offset : Nat)
  | select (path : Path) (span : Span)

namespace Call

/-- What a call does, without its result. -/
def action [TextHash] : Call → Action Unit
  | openText path text => do let _ ← Action.openText path text
  | apply changes => Action.apply changes
  | undo path => do let _ ← Action.undo path
  | redo path => do let _ ← Action.redo path
  | setCursor path offset => Action.setCursor path offset
  | select path span => Action.select path span

/-- The paths of the steps that were found in a history. -/
def pathsOf : Option (Nat × List Step) → List Path
  | none => []
  | some (_, steps) => steps.map (·.path)

/-- The documents that a call names, or the changeset does that it goes through. -/
def names (h : Host) : Call → List Path
  | openText path _ => [path.normalize]
  | apply changes => changes.files.map (·.path)
  | undo path => pathsOf (latest? h.undoable path.normalize)
  | redo path => pathsOf (latest? h.redoable path.normalize)
  | setCursor path _ => [path.normalize]
  | select path _ => [path.normalize]

end Call

namespace Action

/-- Outside of some paths the action leaves the documents of a host alone. -/
def Spares (paths : List Path) (h : Host) (a : Action α) : Prop :=
  ∀ x h', a.perform h = (.ok x, h') → ∀ p ∉ paths, h'.documents.find? p = h.documents.find? p

theorem Atomic.ignore {a : Action α} (ha : Atomic a) : Atomic (do let _ ← a) := by
  intro h e h' he
  cases hr : a.perform h with
  | mk r h₁ =>
    cases r with
    | error e' =>
      rw [perform_bind_error hr] at he
      cases he
      exact ha h e h' hr
    | ok x =>
      rw [perform_bind_ok hr] at he
      cases he

theorem Spares.ignore {a : Action α} (ha : Spares paths h a) :
    Spares paths h (do let _ ← a) := by
  intro _ h' hr
  obtain ⟨x, h₁, hx, hr⟩ := of_perform_bind hr
  cases hr
  exact ha x h' hx

theorem record_spares (hp : p ∉ steps.map (·.path)) (h : Host) :
    ((record steps).run h).2.documents.find? p = h.documents.find? p := by
  by_cases hn : steps = []
  · rw [hn]
    rfl
  · obtain ⟨taken, -, hr⟩ := record_run steps hn h
    rw [hr]
    exact Host.find?_putAll_of_notMem hp _ h

theorem apply_spares [TextHash] (c : Changeset) (h : Host) :
    Spares (c.files.map (·.path)) h (apply c) := by
  intro _ h' hr p hp
  obtain ⟨steps, hpaths, -, rfl⟩ := apply_ok hr
  rw [← hpaths] at hp
  exact record_spares hp h

theorem move_documents (way : Direction) (i : Nat) (steps : List Step) (h : Host) :
    (way.move i steps h).documents = h.documents := by
  cases way <;> rfl

theorem travel_spares (way : Direction) (path : Path) (h : Host) :
    Spares (Call.pathsOf (latest? (way.history h) path.normalize)) h (travel way path) := by
  intro b h' hr p hp
  rcases of_travel_ok hr with ⟨-, -, rfl⟩ | ⟨i, steps, hl, -, -, rfl⟩
  · rfl
  · rw [hl] at hp
    rw [move_documents]
    exact Host.find?_putAll_of_notMem hp _ h

theorem modifyAt_spares (path : Path) (f : OpenDocument → Except EditError OpenDocument)
    (h : Host) : Spares [path.normalize] h (modifyAt path f) := by
  intro _ h' hr p hp
  obtain ⟨d, h₁, hd, hr⟩ := of_perform_bind hr
  cases (require_looks _ _).host_eq hd
  obtain ⟨d', h₁, hd', hr⟩ := of_perform_bind hr
  cases (Looks.ofExcept (f d)).host_eq hd'
  cases hr
  exact h.documents.find?_insert_ne (by simpa using hp) d'

end Action

namespace Call

theorem action_atomic [TextHash] (c : Call) : c.action.Atomic := by
  cases c with
  | openText path text => exact (Action.Succeeds.lift _).atomic.ignore
  | apply changes => exact Action.apply_atomic changes
  | undo path => exact (Action.travel_atomic .back path).ignore
  | redo path => exact (Action.travel_atomic .forth path).ignore
  | setCursor path offset => exact Action.modifyAt_atomic path _
  | select path span => exact Action.modifyAt_atomic path _

theorem action_spares [TextHash] (c : Call) (h : Host) : c.action.Spares (c.names h) h := by
  cases c with
  | openText path text =>
    apply Action.Spares.ignore
    intro _ h' hr p hp
    cases hr
    exact h.documents.find?_insert_ne (by simpa [names] using hp) _
  | apply changes => exact Action.apply_spares changes h
  | undo path => exact (Action.travel_spares .back path h).ignore
  | redo path => exact (Action.travel_spares .forth path h).ignore
  | setCursor path offset => exact Action.modifyAt_spares path _ h
  | select path span => exact Action.modifyAt_spares path _ h

/-- A call that fails leaves the host exactly as it was, and one that succeeds every document it
does not name. -/
theorem all_or_nothing [TextHash] (c : Call) (h : Host) :
    (∀ e h', c.action.perform h = (.error e, h') → h' = h) ∧
      ∀ h', c.action.perform h = (.ok (), h') →
        ∀ p ∉ c.names h, h'.documents.find? p = h.documents.find? p :=
  ⟨fun e h' => c.action_atomic h e h', fun h' => c.action_spares h () h'⟩

end Call

end CppRefactor
