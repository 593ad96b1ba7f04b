import CppRefactor.Edit.Host

/-!
Actions on a host. One that only looks may fail at any point, and one that cannot fail may write:
the first followed by the second changes everything or nothing.
-/

namespace CppRefactor

namespace Action

theorem perform_bind_ok {f : α → Action β} (ha : perform a h = (.ok x, h₁)) :
    perform (a >>= f) h = (f x).perform h₁ := by
  change StateT.bind (m := Id) a (ExceptT.bindCont f) h = _
  simp only [StateT.bind, show a h = (.ok x, h₁) from ha]
  rfl

theorem perform_bind_error {f : α → Action β} (ha : perform a h = (.error e, h₁)) :
    perform (a >>= f) h = (.error e, h₁) := by
  change StateT.bind (m := Id) a (ExceptT.bindCont f) h = _
  simp only [StateT.bind, show a h = (.error e, h₁) from ha]
  rfl

theorem perform_lift (w : StateM Host α) (h : Host) :
    perform (liftM w) h = (.ok (w.run h).1, (w.run h).2) := rfl

theorem of_perform_bind {f : α → Action β} (h : perform (a >>= f) s = (.ok y, s')) :
    ∃ x s₁, a.perform s = (.ok x, s₁) ∧ (f x).perform s₁ = (.ok y, s') := by
  cases ha : a.perform s with
  | mk r s₁ =>
    cases r with
    | error e =>
      rw [perform_bind_error ha] at h
      cases h
    | ok x =>
      rw [perform_bind_ok ha] at h
      exact ⟨x, s₁, rfl, h⟩

/-- The action leaves the host as it is. -/
def Looks (a : Action α) : Prop := ∀ h, (a.perform h).2 = h

namespace Looks

theorem pure (x : α) : Looks (Pure.pure x) := fun _ => rfl

theorem get : Looks MonadState.get := fun _ => rfl

theorem throw (e : EditError) : Looks (MonadExcept.throw e : Action α) := fun _ => rfl

theorem ofExcept (r : Except EditError α) : Looks (MonadExcept.ofExcept r) := by
  cases r with
  | error e => exact .throw e
  | ok x => exact .pure x

theorem bind {a : Action α} {f : α → Action β} (ha : Looks a) (hf : ∀ x, Looks (f x)) :
    Looks (a >>= f) := by
  intro h
  have hs := ha h
  cases hr : a.perform h with
  | mk r h₁ =>
    rw [hr] at hs
    cases r with
    | error e =>
      rw [perform_bind_error hr]
      exact hs
    | ok x =>
      rw [perform_bind_ok hr, hf x h₁]
      exact hs

theorem mapM {f : α → Action β} (hf : ∀ x, Looks (f x)) (xs : List α) : Looks (xs.mapM f) := by
  induction xs with
  | nil => exact .pure []
  | cons x xs ih =>
    rw [List.mapM_cons]
    exact .bind (hf x) fun _ => .bind ih fun _ => .pure _

theorem forM {f : α → Action PUnit} (hf : ∀ x, Looks (f x)) (xs : List α) : Looks (xs.forM f) := by
  induction xs with
  | nil => exact .pure ()
  | cons x xs ih => exact .bind (hf x) fun _ => ih

theorem host_eq (ha : Looks a) (h : a.perform s = (r, s')) : s' = s := by
  have hs := ha s
  rwa [h] at hs

end Looks

/-- The action does not fail. -/
def Succeeds (a : Action α) : Prop := ∀ h, ∃ x h', a.perform h = (.ok x, h')

namespace Succeeds

theorem pure (x : α) : Succeeds (Pure.pure x) := fun h => ⟨x, h, rfl⟩

theorem lift (w : StateM Host α) : Succeeds (liftM w) := fun h => ⟨_, _, perform_lift w h⟩

theorem bind {a : Action α} {f : α → Action β} (ha : Succeeds a) (hf : ∀ x, Succeeds (f x)) :
    Succeeds (a >>= f) := by
  intro h
  obtain ⟨x, h₁, hx⟩ := ha h
  rw [perform_bind_ok hx]
  exact hf x h₁

end Succeeds

theorem Succeeds.modify (f : Host → Host) : Succeeds (modify f) := fun h => ⟨(), f h, rfl⟩

/-- Where the action fails, the host is as before. -/
def Atomic (a : Action α) : Prop := ∀ h e h', a.perform h = (.error e, h') → h' = h

theorem Succeeds.atomic (ha : Succeeds a) : Atomic a := by
  intro h e h' he
  obtain ⟨x, h₁, hx⟩ := ha h
  rw [hx] at he
  cases he

theorem Looks.then {a : Action α} {f : α → Action β} (ha : Looks a) (hf : ∀ x, Atomic (f x)) :
    Atomic (a >>= f) := by
  intro h e h' he
  cases hr : a.perform h with
  | mk r h₁ =>
    cases ha.host_eq hr
    cases r with
    | error e' =>
      rw [perform_bind_error hr] at he
      cases he
      rfl
    | ok x =>
      rw [perform_bind_ok hr] at he
      exact hf x h e h' he

theorem stepOf_looks [TextHash] (c : Changeset) (f : DocumentEdits) : Looks (stepOf c f) := by
  apply Looks.bind .get
  intro _
  exact .bind (.ofExcept _) fun _ => .pure _

theorem apply_atomic [TextHash] (c : Changeset) : Atomic (apply c) := by
  apply Looks.then (.mapM (stepOf_looks c) c.files)
  intro steps
  exact (Succeeds.lift (record steps)).atomic

theorem require_looks (name : String) (path : Path) : Looks (require name path) := by
  apply Looks.bind .get
  intro h
  cases h.documents.find? path with
  | none => exact .throw _
  | some d => exact .pure d

theorem check_looks (d : Direction) (s : Step) : Looks (check d s) := by
  apply Looks.bind (require_looks s.name s.path)
  intro current
  cases current.text == (d.source s).text with
  | true => exact .pure ()
  | false => exact .throw _

/-- The texts of all documents are compared before one of them is written. -/
theorem travel_atomic (d : Direction) (path : Path) : Atomic (travel d path) := by
  apply Looks.then .get
  intro h
  split
  · exact (Succeeds.pure false).atomic
  · rename_i i steps _
    apply Looks.then (.forM (check_looks d) steps)
    intro _
    apply Succeeds.atomic
    apply Succeeds.bind (.lift (putAll d steps))
    intro _
    exact .bind (.modify _) fun _ => .pure true

theorem modifyAt_atomic (path : Path) (f : OpenDocument → Except EditError OpenDocument) :
    Atomic (modifyAt path f) := by
  apply Looks.then (require_looks _ _)
  intro d
  apply Looks.then (.ofExcept (f d))
  intro d
  exact (Succeeds.lift (write _ d)).atomic

end Action

end CppRefactor
