import CppRefactor.Proofs.Edit.Reachable

/-!
Revisions over a run of calls. Whatever writes a text gives it a revision above all that were given
before, undo and redo too. So a revision of a document stands for one text, and of the changesets
computed from one revision of a document one at most is made.
-/

namespace CppRefactor

namespace Host

/-- No document has a revision above the last that was given. -/
def Bounded (h : Host) : Prop :=
  ∀ p d, h.documents.find? p = some d → d.revision ≤ h.lastRevision

/-- From `s` to `t` a document kept its text with its revision, or it has a revision that was given
on the way. -/
structure Advances (s t : Host) : Prop where
  last : s.lastRevision ≤ t.lastRevision
  documents : ∀ p e, t.documents.find? p = some e →
    (∃ d, s.documents.find? p = some d ∧ d.document = e.document) ∨
      s.lastRevision < e.revision ∧ e.revision ≤ t.lastRevision

namespace Advances

theorem refl (h : Host) : h.Advances h := ⟨Nat.le_refl _, fun _ e he => .inl ⟨e, he, rfl⟩⟩

theorem trans (h : Advances s t) (h' : Advances t u) : Advances s u := by
  refine ⟨Nat.le_trans h.last h'.last, ?_⟩
  intro p e he
  rcases h'.documents p e he with ⟨d, hd, hde⟩ | ⟨hl, hu⟩
  · have hr : d.revision = e.revision := congrArg Document.revision hde
    rcases h.documents p d hd with ⟨c, hc, hcd⟩ | ⟨hl, hu⟩
    · exact .inl ⟨c, hc, hcd.trans hde⟩
    · exact .inr ⟨hr ▸ hl, hr ▸ Nat.le_trans hu h'.last⟩
  · exact .inr ⟨Nat.lt_of_le_of_lt h.last hl, hu⟩

theorem bounded (h : Advances s t) (hs : s.Bounded) : t.Bounded := by
  intro p e he
  rcases h.documents p e he with ⟨d, hd, hde⟩ | ⟨-, hu⟩
  · have hr : d.revision = e.revision := congrArg Document.revision hde
    exact hr ▸ Nat.le_trans (hs p d hd) h.last
  · exact hu

theorem text_eq (h : Advances s t) (hs : s.Bounded) (hd : s.documents.find? p = some d)
    (he : t.documents.find? p = some e) (hr : d.revision = e.revision) : d.text = e.text := by
  rcases h.documents p e he with ⟨d', hd', hde⟩ | ⟨hl, -⟩
  · cases hd.symm.trans hd'
    exact congrArg Document.text hde
  · have hle := hs p d hd
    omega

theorem lt_revision (h : Advances s t) (hd : s.documents.find? p = some d) (hr : r < d.revision)
    (hs : r ≤ s.lastRevision) (he : t.documents.find? p = some e) : r < e.revision := by
  rcases h.documents p e he with ⟨d', hd', hde⟩ | ⟨hl, -⟩
  · cases hd.symm.trans hd'
    have hde : d.revision = e.revision := congrArg Document.revision hde
    exact hde ▸ hr
  · exact Nat.lt_of_le_of_lt hs hl

end Advances

theorem put_advances (h : Host) (path : Path) (d : OpenDocument) : h.Advances (h.put path d) := by
  refine ⟨Nat.le_succ _, ?_⟩
  intro p e he
  by_cases hp : p = path
  · subst hp
    cases (h.documents.find?_insert_self p _).symm.trans he
    exact .inr ⟨Nat.lt_succ_self _, Nat.le_refl _⟩
  · rw [find?_put_ne h hp] at he
    exact .inl ⟨e, he, rfl⟩

theorem putAll_advances (target : Step → OpenDocument) (steps : List Step) (h : Host) :
    h.Advances (h.putAll target steps) := by
  induction steps generalizing h with
  | nil => exact .refl h
  | cons s steps ih => exact (h.put_advances s.path (target s)).trans (ih _)

theorem lt_revision_putAll (hp : p ∈ steps.map (·.path)) (target : Step → OpenDocument)
    (h : Host) : ∃ d, (h.putAll target steps).documents.find? p = some d ∧
      h.lastRevision < d.revision := by
  induction steps generalizing h with
  | nil => cases hp
  | cons s steps ih =>
    by_cases hrest : p ∈ steps.map (·.path)
    · obtain ⟨d, hd, hl⟩ := ih hrest (h.put s.path (target s))
      exact ⟨d, hd, Nat.lt_trans (Nat.lt_succ_self _) hl⟩
    · obtain rfl : p = s.path := (List.mem_cons.mp hp).resolve_right hrest
      have hf := find?_putAll_of_notMem hrest target (h.put s.path (target s))
      exact ⟨_, hf.trans (h.documents.find?_insert_self _ _), Nat.lt_succ_self _⟩

end Host

namespace Action

/-- The action gives new revisions to what it writes. -/
def Advances (a : Action α) : Prop := ∀ h x h', a.perform h = (.ok x, h') → h.Advances h'

theorem Advances.ignore {a : Action α} (ha : Advances a) : Advances (do let _ ← a) := by
  intro h _ h' hr
  obtain ⟨x, h₁, hx, hr⟩ := of_perform_bind hr
  cases hr
  exact ha h x h' hx

theorem record_advances (steps : List Step) (h : Host) :
    h.Advances ((record steps).run h).2 := by
  by_cases hn : steps = []
  · rw [hn]
    exact .refl h
  · obtain ⟨taken, -, hr⟩ := record_run steps hn h
    rw [hr]
    exact ⟨(h.putAll_advances _ steps).last, (h.putAll_advances _ steps).documents⟩

theorem apply_advances [TextHash] (c : Changeset) : Advances (apply c) := by
  intro h _ h' hr
  obtain ⟨steps, -, -, rfl⟩ := apply_ok hr
  exact record_advances steps h

theorem travel_advances (way : Direction) (path : Path) : Advances (travel way path) := by
  intro h b h' hr
  rcases of_travel_ok hr with ⟨-, -, rfl⟩ | ⟨i, steps, -, -, -, rfl⟩
  · exact .refl _
  · have ha := h.putAll_advances way.target steps
    cases way with
    | back => exact ⟨ha.last, ha.documents⟩
    | forth => exact ⟨ha.last, ha.documents⟩

theorem require_ok (h : (require name path).perform s = (.ok d, s')) :
    s.documents.find? path = some d := by
  cases hf : s.documents.find? path with
  | none =>
    rw [require, perform_bind_ok (rfl : Action.perform get s = (.ok s, s)), hf] at h
    cases h
  | some d' =>
    rw [require, perform_bind_ok (rfl : Action.perform get s = (.ok s, s)), hf] at h
    cases h
    rfl

/-- A change that leaves text and revision alone needs no new revision. -/
theorem modifyAt_advances (path : Path) {f : OpenDocument → Except EditError OpenDocument}
    (hf : ∀ d d', f d = .ok d' → d'.document = d.document) : Advances (modifyAt path f) := by
  intro h _ h' hr
  obtain ⟨d, h₁, hd, hr⟩ := of_perform_bind hr
  cases (require_looks _ _).host_eq hd
  obtain ⟨d', h₁, hd', hr⟩ := of_perform_bind hr
  cases (Looks.ofExcept (f d)).host_eq hd'
  cases hr
  refine ⟨Nat.le_refl _, ?_⟩
  intro p e he
  by_cases hp : p = path.normalize
  · subst hp
    cases (h.documents.find?_insert_self _ _).symm.trans he
    have hk : f d = .ok d' := by
      cases hfd : f d with
      | error e => rw [hfd] at hd'; cases hd'
      | ok d'' => rw [hfd] at hd'; cases hd'; rfl
    exact .inl ⟨d, require_ok hd, (hf d d' hk).symm⟩
  · have hne := h.documents.find?_insert_ne hp d'
    exact .inl ⟨e, hne.symm.trans he, rfl⟩

end Action

namespace Call

theorem action_advances [TextHash] (c : Call) (h : Host) : h.Advances (c.action.perform h).2 := by
  have ha : c.action.Advances := by
    cases c with
    | openText path text =>
      apply Action.Advances.ignore
      intro h _ h' hr
      cases hr
      exact h.put_advances path.normalize _
    | apply changes => exact Action.apply_advances changes
    | undo path => exact (Action.travel_advances .back path).ignore
    | redo path => exact (Action.travel_advances .forth path).ignore
    | setCursor path offset =>
      apply Action.modifyAt_advances
      rintro d _ ⟨⟩
      rfl
    | select path span =>
      apply Action.modifyAt_advances
      intro d d' hd
      split at hd <;> cases hd
      rfl
  cases hr : c.action.perform h with
  | mk r h' =>
    cases r with
    | error e =>
      cases c.action_atomic h e h' hr
      exact .refl h
    | ok x => exact ha h x h' hr

end Call

namespace Host

/-- The host a run begins with: one without documents, or with those of a workspace. -/
def start : Option Workspace → Host
  | none => .empty
  | some w => .ofWorkspace w

/-- The host after calls, those that fail included. -/
def after [TextHash] (h : Host) (calls : List Call) : Host :=
  calls.foldl (fun h c => (c.action.perform h).2) h

theorem le_foldl_max (entries : List (Path × Document)) (r : Nat) :
    r ≤ entries.foldl (fun r (_, d) => max r d.revision) r := by
  induction entries generalizing r with
  | nil => exact Nat.le_refl r
  | cons entry rest ih => exact Nat.le_trans (Nat.le_max_left _ _) (ih _)

theorem revision_le_foldl_max {entries : List (Path × Document)} (h : entries.lookup p = some d)
    (r : Nat) : d.revision ≤ entries.foldl (fun r (_, d) => max r d.revision) r := by
  induction entries generalizing r with
  | nil => cases h
  | cons entry rest ih =>
    obtain ⟨q, c⟩ := entry
    rw [PathMap.lookup_cons] at h
    split at h
    · cases h
      exact Nat.le_trans (Nat.le_max_right _ _) (le_foldl_max rest _)
    · exact ih h _

theorem start_bounded (w : Option Workspace) : (start w).Bounded := by
  intro p e he
  cases w with
  | none => cases he
  | some w =>
    have hm := (PathMap.lookup_map w.documents.entries
      (fun d => (⟨d.text, d.revision, 0, none⟩ : OpenDocument)) p).symm.trans he
    obtain ⟨d, hd, rfl⟩ := Option.map_eq_some_iff.mp hm
    exact revision_le_foldl_max hd 0

theorem after_append [TextHash] (h : Host) (calls rest : List Call) :
    h.after (calls ++ rest) = (h.after calls).after rest :=
  List.foldl_append

theorem after_advances [TextHash] (h : Host) (calls : List Call) : h.Advances (h.after calls) := by
  induction calls generalizing h with
  | nil => exact .refl h
  | cons c calls ih => exact (c.action_advances h).trans (ih _)

theorem after_take_advances [TextHash] (h : Host) (calls : List Call) (hij : i ≤ j) :
    (h.after (calls.take i)).Advances (h.after (calls.take j)) := by
  obtain ⟨k, rfl⟩ := Nat.exists_eq_add_of_le hij
  rw [List.take_add, after_append]
  exact after_advances _ _

theorem after_take_succ [TextHash] (h : Host) {calls : List Call} (hc : calls[i]? = some c) :
    h.after (calls.take (i + 1)) = (c.action.perform (h.after (calls.take i))).2 := by
  rw [List.take_add_one, hc, after_append]
  rfl

/-- The host makes a changeset. -/
def Accepts [TextHash] (h : Host) (c : Changeset) : Prop := ((Action.apply c).perform h).1 = .ok ()

end Host

namespace Action

/-- Each document of a changeset that is made has the revision that the changeset was computed
from. -/
theorem newText_revision [TextHash]
    (h : Changeset.newText f (found.map OpenDocument.document) = .ok text) :
    ∃ d, found = some d ∧ d.revision = f.revision := by
  cases found with
  | none => cases h
  | some d =>
    simp only [Option.map_some, Changeset.newText] at h
    split at h
    · rename_i hf
      exact ⟨d, rfl, beq_iff_eq.mp (Bool.and_eq_true_iff.mp hf).1⟩
    · cases h

theorem stepOf_revision [TextHash] (h : (stepOf c f).perform s = (.ok step, s')) :
    ∃ d, s.documents.find? f.path = some d ∧ d.revision = f.revision := by
  obtain ⟨_, _, hget, h⟩ := of_perform_bind h
  cases hget
  obtain ⟨text, _, htext, -⟩ := of_perform_bind h
  cases hn : Changeset.newText f ((s.documents.find? f.path).map (·.document)) with
  | error e =>
    rw [hn] at htext
    cases htext
  | ok text => exact newText_revision hn

theorem mapM_stepOf_revision [TextHash] {fs : List DocumentEdits}
    (h : Action.perform (fs.mapM (stepOf c)) s = (.ok steps, s')) (hf : f ∈ fs) :
    ∃ d, s.documents.find? f.path = some d ∧ d.revision = f.revision := by
  induction fs generalizing steps s' with
  | nil => cases hf
  | cons g fs ih =>
    rw [List.mapM_cons] at h
    obtain ⟨step, s₁, hstep, h⟩ := of_perform_bind h
    cases (stepOf_looks c g).host_eq hstep
    obtain ⟨rest, s₂, hrest, -⟩ := of_perform_bind h
    cases hf with
    | head => exact stepOf_revision hstep
    | tail _ hf => exact ih hrest hf

end Action

namespace Host

theorem Accepts.perform [TextHash] (h : Accepts s c) :
    (Action.apply c).perform s = (.ok (), ((Action.apply c).perform s).2) :=
  Prod.ext h rfl

theorem Accepts.revision [TextHash] (h : Accepts s c) (hf : f ∈ c.files) :
    ∃ d, s.documents.find? f.path = some d ∧ d.revision = f.revision := by
  obtain ⟨steps, s₁, hsteps, -⟩ := Action.of_perform_bind h.perform
  exact Action.mapM_stepOf_revision hsteps hf

/-- A changeset that is made gives each of its documents a revision above those there were. -/
theorem Accepts.lt_revision [TextHash] (h : Accepts s c) (hf : f ∈ c.files) :
    ∃ d, ((Action.apply c).perform s).2.documents.find? f.path = some d ∧
      s.lastRevision < d.revision := by
  obtain ⟨steps, hpaths, -, hs'⟩ := Action.apply_ok h.perform
  have hp : f.path ∈ steps.map (·.path) := hpaths ▸ List.mem_map_of_mem hf
  have hn : steps ≠ [] := by
    rintro rfl
    cases hp
  obtain ⟨taken, -, hr⟩ := Action.record_run steps hn s
  rw [hs', hr]
  exact lt_revision_putAll hp _ s

/-- A changeset is not computed from a revision that one made earlier was computed from, if they
share the document. -/
theorem Accepts.revision_lt [TextHash] (h : Accepts s c) (hs : s.Bounded)
    (ht : ((Action.apply c).perform s).2.Advances t) (h' : Accepts t c') (hf : f ∈ c.files)
    (hf' : f' ∈ c'.files) (hp : f.path = f'.path) : f.revision < f'.revision := by
  obtain ⟨d, hd, hr⟩ := h.revision hf
  obtain ⟨d₁, hd₁, hl⟩ := h.lt_revision hf
  obtain ⟨e, he, hr'⟩ := h'.revision hf'
  have hle : f.revision ≤ s.lastRevision := hr ▸ hs _ _ hd
  have hlast := (Action.apply_advances c s () _ h.perform).last
  rw [← hr']
  exact ht.lt_revision hd₁ (Nat.lt_of_le_of_lt hle hl) (Nat.le_trans hle hlast) (hp ▸ he)

end Host

/-- In a run of calls, a document that has one revision at two moments has one text at both, and two
changesets computed from one revision of a document they share are not both made. -/
theorem revision_stands_for_text [TextHash] (w : Option Workspace) (calls : List Call) :
    (∀ i j p d e, ((Host.start w).after (calls.take i)).documents.find? p = some d →
      ((Host.start w).after (calls.take j)).documents.find? p = some e →
      d.revision = e.revision → d.text = e.text) ∧
    (∀ i j c c', i ≠ j → calls[i]? = some (.apply c) → calls[j]? = some (.apply c') →
      ((Host.start w).after (calls.take i)).Accepts c →
      ((Host.start w).after (calls.take j)).Accepts c' →
      ∀ f ∈ c.files, ∀ f' ∈ c'.files, f.path = f'.path → f.revision ≠ f'.revision) := by
  have hb (i : Nat) : ((Host.start w).after (calls.take i)).Bounded :=
    (Host.after_advances _ _).bounded (Host.start_bounded w)
  constructor
  · intro i j p d e hd he hr
    rcases Nat.le_total i j with hij | hij
    · exact (Host.after_take_advances _ calls hij).text_eq (hb i) hd he hr
    · exact ((Host.after_take_advances _ calls hij).text_eq (hb j) he hd hr.symm).symm
  · have later : ∀ i j c c', i < j → calls[i]? = some (.apply c) →
        ((Host.start w).after (calls.take i)).Accepts c →
        ((Host.start w).after (calls.take j)).Accepts c' →
        ∀ f ∈ c.files, ∀ f' ∈ c'.files, f.path = f'.path → f.revision < f'.revision := by
      intro i j c c' hij hc h h' f hf f' hf' hp
      have ht := Host.after_take_advances (Host.start w) calls hij
      rw [Host.after_take_succ _ hc] at ht
      exact h.revision_lt (hb i) ht h' hf hf' hp
    intro i j c c' hij hc hc' h h' f hf f' hf' hp
    rcases Nat.lt_or_gt_of_ne hij with hij | hij
    · exact Nat.ne_of_lt (later i j c c' hij hc h h' f hf f' hf' hp)
    · exact Nat.ne_of_gt (later j i c' c hij hc' h' h f' hf' f hf hp.symm)

/-- Undoing a change brings the text back, but not the revision: the change is not made again. -/
example :
    let change := Changeset.empty.edit "/a" ⟨"x", 1⟩ (·.insert 0 "y")
    let h := (Host.start none).after
      [.openText (.ofString "/a") "x", .apply change, .undo (.ofString "/a")]
    (h.find? (.ofString "/a")).map (·.document) = some ⟨"x", 3⟩ ∧
      ((Action.apply change).perform h).1 = .error (.stale "/a") :=
  ⟨rfl, rfl⟩

end CppRefactor
