import CppRefactor.Proofs.Edit.Action

/-!
What actions write: the documents they name, and the histories.
-/

namespace CppRefactor

/-- What a document is apart from its revision. -/
structure Content where
  text : String
  cursor : Nat
  selection : Option Span
  deriving DecidableEq, Repr

def OpenDocument.content (d : OpenDocument) : Content := ⟨d.text, d.cursor, d.selection⟩

/-- What a step says apart from revisions. -/
def Step.plain (s : Step) : String × Content × Content :=
  (s.name, s.before.content, s.after.content)

namespace Host

def content (h : Host) (p : Path) : Option Content := (h.documents.find? p).map (·.content)

/-- A state of a document put in place under a new revision. -/
def put (h : Host) (path : Path) (d : OpenDocument) : Host := ((Action.put path d).run h).2

def putAll (target : Step → OpenDocument) (steps : List Step) (h : Host) : Host :=
  steps.foldl (fun h s => h.put s.path (target s)) h

theorem find?_put_ne (h : Host) (hp : p ≠ path) (d : OpenDocument) :
    (h.put path d).documents.find? p = h.documents.find? p :=
  h.documents.find?_insert_ne hp _

theorem content_put_self (h : Host) (path : Path) (d : OpenDocument) :
    (h.put path d).content path = some d.content := by
  have hf : (h.put path d).documents.find? path = some { d with revision := h.lastRevision + 1 } :=
    h.documents.find?_insert_self path _
  rw [content, hf]
  rfl

theorem putAll_histories (target : Step → OpenDocument) (steps : List Step) (h : Host) :
    (h.putAll target steps).undoable = h.undoable ∧
      (h.putAll target steps).redoable = h.redoable := by
  induction steps generalizing h with
  | nil => exact ⟨rfl, rfl⟩
  | cons s steps ih => exact ih (h.put s.path (target s))

theorem find?_putAll_of_notMem (hp : p ∉ steps.map (·.path)) (target : Step → OpenDocument)
    (h : Host) : (h.putAll target steps).documents.find? p = h.documents.find? p := by
  induction steps generalizing h with
  | nil => rfl
  | cons s steps ih =>
    rw [List.map_cons, List.mem_cons, not_or] at hp
    have hs := ih hp.2 (h.put s.path (target s))
    rw [find?_put_ne h hp.1] at hs
    exact hs

theorem content_putAll_of_notMem (hp : p ∉ steps.map (·.path)) (target : Step → OpenDocument)
    (h : Host) : (h.putAll target steps).content p = h.content p := by
  rw [content, content, find?_putAll_of_notMem hp]

theorem content_putAll_of_mem (hd : (steps.map (·.path)).Nodup) (hs : s ∈ steps)
    (target : Step → OpenDocument) (h : Host) :
    (h.putAll target steps).content s.path = some (target s).content := by
  induction steps generalizing h with
  | nil => cases hs
  | cons t steps ih =>
    rw [List.map_cons, List.nodup_cons] at hd
    cases hs with
    | head =>
      have hc := content_putAll_of_notMem hd.1 target (h.put s.path (target s))
      rw [content_put_self] at hc
      exact hc
    | tail _ hs => exact ih hd.2 hs _

end Host

namespace Action

theorem putAll_run (d : Direction) (steps : List Step) (h : Host) :
    (putAll d steps).run h = ((), h.putAll d.target steps) := by
  induction steps generalizing h with
  | nil => rfl
  | cons s steps ih => exact ih (h.put s.path (d.target s))

/-- The steps that are taken differ from those that are to be taken in revisions only. -/
theorem mapM_take_run (steps : List Step) (h : Host) :
    ∃ taken, (steps.mapM take).run h = (taken, h.putAll (·.after) steps) ∧
      taken.map Step.plain = steps.map Step.plain := by
  induction steps generalizing h with
  | nil => exact ⟨[], rfl, rfl⟩
  | cons s steps ih =>
    obtain ⟨taken, hrun, hplain⟩ := ih (h.put s.path s.after)
    -- The step is recorded with the revision that its document gets.
    let first : Step := { s with after := { s.after with revision := h.lastRevision + 1 } }
    refine ⟨first :: taken, ?_, ?_⟩
    · rw [List.mapM_cons, StateT.run_bind]
      change StateT.run (steps.mapM take >>= fun ts => pure (first :: ts))
        (h.put s.path s.after) = _
      rw [StateT.run_bind, hrun]
      rfl
    · rw [List.map_cons, List.map_cons, hplain]
      rfl

theorem record_run (steps : List Step) (hn : steps ≠ []) (h : Host) :
    ∃ taken, taken.map Step.plain = steps.map Step.plain ∧
      ((record steps).run h).2 =
        { h.putAll (·.after) steps with undoable := taken :: h.undoable, redoable := [] } := by
  obtain ⟨taken, hrun, hplain⟩ := mapM_take_run steps h
  refine ⟨taken, hplain, ?_⟩
  rw [record, StateT.run_bind, hrun, ← (h.putAll_histories (·.after) steps).1]
  cases taken with
  | nil => simp_all
  | cons t taken => rfl

theorem stepOf_ok [TextHash] (h : (stepOf c f).perform s = (.ok step, s')) :
    step.name = f.name ∧ s.documents.find? f.path = some step.before := by
  obtain ⟨_, _, hget, h⟩ := of_perform_bind h
  cases hget
  obtain ⟨text, _, htext, h⟩ := of_perform_bind h
  cases h
  refine ⟨rfl, ?_⟩
  cases hf : s.documents.find? f.path with
  | none =>
    rw [hf] at htext
    cases htext
  | some d => rfl

theorem mapM_stepOf_ok [TextHash] {fs : List DocumentEdits}
    (h : Action.perform (fs.mapM (stepOf c)) s = (.ok steps, s')) :
    steps.map (·.path) = fs.map (·.path) ∧
      ∀ step ∈ steps, s.documents.find? step.path = some step.before := by
  induction fs generalizing steps s' with
  | nil =>
    cases h
    exact ⟨rfl, nofun⟩
  | cons f fs ih =>
    rw [List.mapM_cons] at h
    obtain ⟨step, s₁, hstep, h⟩ := of_perform_bind h
    cases (stepOf_looks c f).host_eq hstep
    obtain ⟨rest, s₂, hrest, h⟩ := of_perform_bind h
    cases h
    obtain ⟨hname, hfound⟩ := stepOf_ok hstep
    obtain ⟨hpaths, hall⟩ := ih hrest
    have hpath : step.path = f.path := by rw [Step.path, hname, DocumentEdits.path]
    refine ⟨by rw [List.map_cons, List.map_cons, hpaths, hpath], ?_⟩
    intro t ht
    cases ht with
    | head => rw [hpath, hfound]
    | tail _ ht => exact hall t ht

theorem apply_ok [TextHash] (h : (apply c).perform s = (.ok (), s')) :
    ∃ steps, steps.map (·.path) = c.files.map (·.path) ∧
      (∀ step ∈ steps, s.documents.find? step.path = some step.before) ∧
      s' = ((record steps).run s).2 := by
  obtain ⟨steps, s₁, hsteps, h⟩ := of_perform_bind h
  cases (Looks.mapM (stepOf_looks c) c.files).host_eq hsteps
  cases h
  obtain ⟨hpaths, hfound⟩ := mapM_stepOf_ok hsteps
  exact ⟨steps, hpaths, hfound, rfl⟩

theorem check_ok (h : s.documents.find? step.path = some d)
    (ht : d.text = (way.source step).text) : (check way step).perform s = (.ok (), s) := by
  have hr : (require step.name step.path).perform s = (.ok d, s) := by
    rw [require, perform_bind_ok (rfl : Action.perform get s = (.ok s, s)), h]
    rfl
  rw [check, perform_bind_ok hr, ht, beq_self_eq_true]
  rfl

theorem forM_check_ok {steps : List Step}
    (h : ∀ step ∈ steps, ∃ d, s.documents.find? step.path = some d ∧
      d.text = (way.source step).text) :
    Action.perform (steps.forM (check way)) s = (.ok (), s) := by
  induction steps with
  | nil => rfl
  | cons step steps ih =>
    obtain ⟨d, hf, ht⟩ := h step List.mem_cons_self
    have hrest := ih fun t hm => h t (List.mem_cons_of_mem step hm)
    exact (perform_bind_ok (check_ok hf ht)).trans hrest

theorem of_forM_check_ok {steps : List Step}
    (h : Action.perform (steps.forM (check way)) s = (.ok (), s')) :
    ∀ step ∈ steps, ∃ d, s.documents.find? step.path = some d := by
  induction steps generalizing s' with
  | nil => exact nofun
  | cons step steps ih =>
    obtain ⟨_, s₁, hcheck, hrest⟩ := of_perform_bind h
    cases (check_looks way step).host_eq hcheck
    intro t ht
    cases ht with
    | tail _ ht => exact ih hrest t ht
    | head =>
      cases hf : s.documents.find? step.path with
      | some d => exact ⟨d, rfl⟩
      | none =>
        have hr : (require step.name step.path).perform s =
            (.error (.unknownDocument step.name), s) := by
          rw [require, perform_bind_ok (rfl : Action.perform get s = (.ok s, s)), hf]
          rfl
        rw [check, perform_bind_error hr] at hcheck
        cases hcheck

theorem travel_ok (hl : latest? (way.history s) path.normalize = some (i, steps))
    (hc : Action.perform (steps.forM (check way)) s = (.ok (), s)) :
    (travel way path).perform s = (.ok true, way.move i steps (s.putAll way.target steps)) := by
  rw [travel, perform_bind_ok (rfl : Action.perform get s = (.ok s, s)), hl]
  change Action.perform (steps.forM (check way) >>= fun _ => _) s = _
  rw [perform_bind_ok hc, perform_bind_ok (perform_lift _ _), putAll_run]
  rfl

theorem of_travel_ok (h : (travel way path).perform s = (.ok b, s')) :
    (latest? (way.history s) path.normalize = none ∧ b = false ∧ s' = s) ∨
      ∃ i steps, latest? (way.history s) path.normalize = some (i, steps) ∧ b = true ∧
        (∀ step ∈ steps, ∃ d, s.documents.find? step.path = some d) ∧
        s' = way.move i steps (s.putAll way.target steps) := by
  cases hl : latest? (way.history s) path.normalize with
  | none =>
    rw [travel, perform_bind_ok (rfl : Action.perform get s = (.ok s, s)), hl] at h
    cases h
    exact .inl ⟨rfl, rfl, rfl⟩
  | some found =>
    obtain ⟨i, steps⟩ := found
    have hc : Action.perform (steps.forM (check way)) s = (.ok (), s) := by
      rw [travel, perform_bind_ok (rfl : Action.perform get s = (.ok s, s)), hl] at h
      obtain ⟨_, s₁, hc, _⟩ := of_perform_bind h
      cases (Looks.forM (check_looks way) steps).host_eq hc
      exact hc
    rw [travel_ok hl hc] at h
    cases h
    exact .inr ⟨i, steps, rfl, rfl, of_forM_check_ok hc, rfl⟩

end Action

end CppRefactor
