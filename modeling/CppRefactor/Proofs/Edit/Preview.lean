import CppRefactor.Proofs.Edit.Reachable

/-!
Previewing a changeset and making it. Both go through the files in their order and stop at the first
that cannot be changed; but a preview normalizes the paths it looks up, and a host does not.
-/

namespace CppRefactor

/-- The document of a snapshot that stands under a path. -/
def Snapshot.document? (s : Snapshot) (p : Path) : Option Document :=
  (s.idOf? p).map fun id => (s.file id).document

namespace SourceFile

theorem document_findIdx? (files : List SourceFile) (p : Path) :
    (files.findIdx? (·.path == p)).map (fun id => (files.toArray.getD id default).document) =
      (files.map fun f => (f.path, f.document)).lookup p := by
  induction files with
  | nil => rfl
  | cons f files ih =>
    rw [List.map_cons, List.findIdx?_cons, PathMap.lookup_cons, ← ih]
    by_cases hp : f.path = p
    · rw [if_pos hp.symm, beq_iff_eq.mpr hp]
      rfl
    · rw [if_neg (Ne.symm hp), beq_false_of_ne hp, if_neg Bool.false_ne_true, Option.map_map]
      congr 1
      funext id
      simp [Array.getD_eq_getD_getElem?]

end SourceFile

namespace Workspace

theorem snapshot_document? (w : Workspace) (p : Path) :
    w.snapshot.document? p = w.documents.find? p := by
  have hfiles : (w.documents.entries.map fun e => SourceFile.ofDocument e.1 e.2).map
      (fun f => (f.path, f.document)) = w.documents.entries := by
    rw [List.map_map]
    exact List.map_id _
  rw [PathMap.find?, ← hfiles, ← SourceFile.document_findIdx?, Snapshot.document?, Snapshot.idOf?]
  exact congrArg (Option.map _) (List.findIdx?_toArray ..)

end Workspace

namespace Host

theorem ofWorkspace_document? (w : Workspace) (p : Path) :
    ((ofWorkspace w).documents.find? p).map (·.document) = w.documents.find? p := by
  have hm := PathMap.lookup_map w.documents.entries
    (fun d => (⟨d.text, d.revision, 0, none⟩ : OpenDocument)) p
  refine (congrArg (Option.map OpenDocument.document) hm).trans ?_
  rw [Option.map_map]
  exact Option.map_id'

end Host

namespace Action

/-- The action leaves the host as it is, and its result is, through a view, that of a computation
without a host. -/
def Shows (a : Action α) (h : Host) (view : α → β) (r : Except EditError β) : Prop :=
  ∃ x, a.perform h = (x, h) ∧ x.map view = r

theorem Shows.mapM {f : α → Action β} {g : α → Except EditError γ} {xs : List α}
    (hf : ∀ x ∈ xs, Shows (f x) h view (g x)) :
    Shows (xs.mapM f) h (List.map view) (xs.mapM g) := by
  induction xs with
  | nil => exact ⟨_, rfl, rfl⟩
  | cons x xs ih =>
    obtain ⟨r, hr, hg⟩ := hf x List.mem_cons_self
    obtain ⟨rs, hrs, hgs⟩ := ih fun y hy => hf y (.tail _ hy)
    rw [Shows, List.mapM_cons, List.mapM_cons, ← hg, ← hgs]
    cases r with
    | error e => exact ⟨_, perform_bind_error hr, rfl⟩
    | ok y =>
      rw [perform_bind_ok hr]
      cases rs with
      | error e => exact ⟨_, perform_bind_error hrs, rfl⟩
      | ok ys => exact ⟨_, perform_bind_ok hrs, rfl⟩

/-- The name and the new text of a step. -/
def newTextOf (s : Step) : String × String := (s.name, s.after.text)

theorem perform_ofExcept (r : Except EditError α) (h : Host) :
    Action.perform (MonadExcept.ofExcept r) h = (r, h) := by
  cases r with
  | error e => rfl
  | ok x => rfl

theorem stepOf_shows [TextHash] (c : Changeset) (f : DocumentEdits) (h : Host) :
    Shows (stepOf c f) h newTextOf
      ((f.name, ·) <$> Changeset.newText f ((h.documents.find? f.path).map (·.document))) := by
  have hget : Action.perform get h = (.ok h, h) := rfl
  have htext := perform_ofExcept
    (Changeset.newText f ((h.documents.find? f.path).map (·.document))) h
  cases hn : Changeset.newText f ((h.documents.find? f.path).map (·.document)) with
  | error e =>
    exact ⟨_, (perform_bind_ok hget).trans (perform_bind_error (htext.trans (by rw [hn]))), rfl⟩
  | ok text =>
    refine ⟨_, (perform_bind_ok hget).trans (perform_bind_ok (htext.trans (by rw [hn]))), ?_⟩
    cases c.cursor.filter (·.path == f.path) with
    | none => rfl
    | some target => rfl

end Action

namespace Changeset

/-- A changeset that is previewed has a host's documents before it, whatever form the paths of the
changeset have. -/
def Finds (c : Changeset) (find : Path → Option Document) (h : Host) : Prop :=
  ∀ f ∈ c.files, find f.path.normalize = (h.documents.find? f.path).map (·.document)

theorem Finds.shows [TextHash] {c : Changeset} (hc : c.Finds find h) :
    Action.Shows (c.files.mapM (Action.stepOf c)) h (List.map Action.newTextOf)
      (c.preview find) := by
  apply Action.Shows.mapM
  intro f hf
  have hs := Action.stepOf_shows c f h
  rwa [← hc f hf] at hs

theorem preview_names {fs : List DocumentEdits} {g : DocumentEdits → Except EditError String}
    (h : (fs.mapM fun f => (f.name, ·) <$> g f) = .ok texts) :
    texts.map (·.1) = fs.map (·.name) := by
  induction fs generalizing texts with
  | nil =>
    cases h
    rfl
  | cons f fs ih =>
    rw [List.mapM_cons] at h
    cases hf : g f with
    | error e =>
      rw [hf] at h
      cases h
    | ok text =>
      rw [hf] at h
      cases hfs : fs.mapM fun f => (f.name, ·) <$> g f with
      | error e =>
        rw [hfs] at h
        cases h
      | ok rest =>
        rw [hfs] at h
        cases h
        rw [List.map_cons, List.map_cons, ih hfs]

/-- A preview and a host agree: both have the same new text for each file, or both fail for the same
reason. -/
def Agrees [TextHash] (c : Changeset) (find : Path → Option Document) (h : Host) : Prop :=
  (∃ texts h', c.preview find = .ok texts ∧ h.apply c = .ok h' ∧
    texts.map (·.1) = c.files.map (·.name) ∧
    ∀ name text, (name, text) ∈ texts →
      (h'.documents.find? (.ofString name)).map (·.text) = some text) ∨
  ∃ e, c.preview find = .error e ∧ h.apply c = .error e

theorem text_record {steps : List Step} (hd : (steps.map (·.path)).Nodup) (hs : s ∈ steps)
    (h : Host) :
    (((Action.record steps).run h).2.documents.find? s.path).map (·.text) = some s.after.text := by
  obtain ⟨taken, -, hr⟩ := Action.record_run steps (List.ne_nil_of_mem hs) h
  have hc := congrArg (Option.map Content.text) (Host.content_putAll_of_mem hd hs (·.after) h)
  rw [Host.content, Option.map_map] at hc
  rw [hr]
  exact hc

theorem Finds.agrees [TextHash] {c : Changeset} (hc : c.Finds find h) : c.Agrees find h := by
  obtain ⟨r, hr, hp⟩ := hc.shows
  cases r with
  | error e =>
    refine .inr ⟨e, hp.symm, ?_⟩
    have he : (Action.apply c).perform h = (.error e, h) := Action.perform_bind_error hr
    rw [Host.apply, Action.outcome, he]
    rfl
  | ok steps =>
    have hok : (Action.apply c).perform h = (.ok (), ((Action.record steps).run h).2) :=
      Action.perform_bind_ok hr
    refine .inl ⟨_, _, hp.symm, by rw [Host.apply, Action.outcome, hok]; rfl,
      preview_names hp.symm, ?_⟩
    intro name text ht
    obtain ⟨s, hs, he⟩ := List.mem_map.mp ht
    cases he
    have hd : (steps.map (·.path)).Nodup := (Action.mapM_stepOf_ok hr).1 ▸ c.distinct
    exact text_record hd hs h

/-- Where every path of a changeset is normalized, previewing it on the snapshot of a workspace and
making it in a host with the documents of the workspace agree. -/
theorem agrees_of_normalized [TextHash] (w : Workspace) (c : Changeset)
    (hn : ∀ f ∈ c.files, f.path.normalize = f.path) :
    c.Agrees w.snapshot.document? (.ofWorkspace w) := by
  apply Finds.agrees
  intro f hf
  rw [w.snapshot_document?, Host.ofWorkspace_document?, hn f hf]

/-- A host finds nothing under a path that is not normalized, so what it makes a preview has shown
before. -/
theorem agrees_of_apply [TextHash] (hw : w.Reachable) (h : (Host.ofWorkspace w).apply c = .ok h') :
    c.Agrees w.snapshot.document? (.ofWorkspace w) := by
  apply agrees_of_normalized
  intro f hf
  rw [Host.apply, Action.outcome] at h
  cases hr : (Action.apply c).perform (Host.ofWorkspace w) with
  | mk r h₁ =>
    rw [hr] at h
    cases r with
    | error e => cases h
    | ok _ =>
      obtain ⟨steps, hpaths, hfound, -⟩ := Action.apply_ok hr
      obtain ⟨s, hs, hpath⟩ := List.mem_map.mp (hpaths ▸ List.mem_map_of_mem hf)
      exact hpath ▸ (Host.Reachable.ofWorkspace hw).normalized _ _ (hfound s hs)

/-- A preview finds the document of `/x/../a.cpp`, and a host with the same documents does not. -/
theorem written_path_unknown :
    let w := ((Workspace.ofSearchPaths none []).set (.ofString "/a.cpp") "int a;\n").2
    let c := empty.edit "/x/../a.cpp" ⟨"int a;\n", 1⟩ (·.replace ⟨4, 5⟩ "b")
    c.preview w.snapshot.document? = .ok [("/x/../a.cpp", "int b;\n")] ∧
      (Host.ofWorkspace w).apply c = .error (.unknownDocument "/x/../a.cpp") ∧
      ¬ c.Agrees w.snapshot.document? (.ofWorkspace w) := by
  intro w c
  have hp : c.preview w.snapshot.document? = .ok [("/x/../a.cpp", "int b;\n")] := by
    rw [show w.snapshot.document? = w.documents.find? from funext w.snapshot_document?]
    rfl
  have ha : (Host.ofWorkspace w).apply c = .error (.unknownDocument "/x/../a.cpp") := rfl
  refine ⟨hp, ha, ?_⟩
  rintro (⟨_, _, -, h, -⟩ | ⟨e, h, -⟩)
  · rw [ha] at h
    cases h
  · rw [hp] at h
    cases h

end Changeset

end CppRefactor
