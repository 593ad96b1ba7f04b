import CppRefactor.Proofs.Edit.Revisions
import CppRefactor.Proofs.Edit.Splice

/-!
Cursors over a run of calls. A cursor is in the text of its document whatever is done to the
document, undo and redo too. The one way out is a changeset that puts it elsewhere: nothing compares
that offset with the new text.
-/

namespace CppRefactor

/-- The cursor is in the text or at its end, and what is selected ends at the cursor. -/
structure Content.Placed (c : Content) : Prop where
  cursor : c.cursor ≤ c.text.utf8ByteSize
  selection : ∀ span, c.selection = some span → span.start ≤ span.stop ∧ span.stop = c.cursor

theorem Content.placed_of_cursor {text : String} (h : o ≤ text.utf8ByteSize) :
    Placed ⟨text, o, none⟩ :=
  ⟨h, nofun⟩

def Step.Placed (s : Step) : Prop := s.before.content.Placed ∧ s.after.content.Placed

theorem Step.Placed.target (h : Step.Placed s) (way : Direction) :
    (way.target s).content.Placed := by
  cases way with
  | back => exact h.1
  | forth => exact h.2

theorem Step.Placed.of_plain {taken steps : List Step} (h : ∀ s ∈ steps, s.Placed)
    (hplain : taken.map Step.plain = steps.map Step.plain) : ∀ s ∈ taken, s.Placed := by
  intro t ht
  obtain ⟨s, hs, he⟩ := List.mem_map.mp (hplain ▸ List.mem_map_of_mem ht)
  simp only [Step.plain, Prod.mk.injEq] at he
  obtain ⟨hbefore, hafter⟩ := h s hs
  exact ⟨he.2.1 ▸ hbefore, he.2.2 ▸ hafter⟩

/-- Cursors are placed in the documents and in the states that histories lead back or forth to. -/
structure Host.Placed (h : Host) : Prop where
  documents : ∀ p d, h.documents.find? p = some d → d.content.Placed
  undoable : ∀ steps ∈ h.undoable, ∀ s ∈ steps, s.Placed
  redoable : ∀ steps ∈ h.redoable, ∀ s ∈ steps, s.Placed

namespace Host.Placed

theorem empty : Placed .empty := ⟨nofun, nofun, nofun⟩

theorem put {h : Host} (hp : h.Placed) {d : OpenDocument} (hd : d.content.Placed) (path : Path) :
    (h.put path d).Placed := by
  refine ⟨fun p e he => ?_, hp.undoable, hp.redoable⟩
  by_cases heq : p = path
  · subst heq
    have hc := h.content_put_self p d
    rw [content, he, Option.map_some, Option.some.injEq] at hc
    rwa [hc]
  · rw [find?_put_ne h heq] at he
    exact hp.documents p e he

theorem putAll {h : Host} (hp : h.Placed) {target : Step → OpenDocument}
    (hs : ∀ s ∈ steps, (target s).content.Placed) : (h.putAll target steps).Placed := by
  induction steps generalizing h with
  | nil => exact hp
  | cons s steps ih =>
    exact ih (hp.put (hs s List.mem_cons_self) s.path) fun t ht => hs t (.tail _ ht)

theorem record {h : Host} (hp : h.Placed) (hs : ∀ s ∈ steps, s.Placed) :
    ((Action.record steps).run h).2.Placed := by
  by_cases hn : steps = []
  · rw [hn]
    exact hp
  · obtain ⟨taken, hplain, hr⟩ := Action.record_run steps hn h
    rw [hr]
    refine ⟨(hp.putAll fun s hm => (hs s hm).2).documents, ?_, nofun⟩
    rintro _ (_ | ⟨_, ht⟩)
    · exact Step.Placed.of_plain hs hplain
    · exact hp.undoable _ ht

theorem history {h : Host} (hp : h.Placed) {way : Direction} (hs : steps ∈ way.history h) :
    ∀ s ∈ steps, s.Placed := by
  cases way with
  | back => exact hp.undoable steps hs
  | forth => exact hp.redoable steps hs

theorem move {h : Host} (hp : h.Placed) (way : Direction) (i : Nat)
    (hs : ∀ s ∈ steps, s.Placed) : (way.move i steps h).Placed := by
  have push {history : List (List Step)} (hh : ∀ ss ∈ history, ∀ s ∈ ss, s.Placed) :
      ∀ ss ∈ steps :: history, ∀ s ∈ ss, s.Placed := by
    rintro _ (_ | ⟨_, hm⟩)
    · exact hs
    · exact hh _ hm
  cases way with
  | back => exact ⟨hp.documents, fun ss h => hp.undoable ss (List.mem_of_mem_eraseIdx h),
      push hp.redoable⟩
  | forth => exact ⟨hp.documents, push hp.undoable,
      fun ss h => hp.redoable ss (List.mem_of_mem_eraseIdx h)⟩

end Host.Placed

theorem mem_of_latest? {history : List (List Step)} (h : latest? history p = some (i, steps)) :
    steps ∈ history := by
  obtain ⟨j, -, h⟩ := Option.bind_eq_some_iff.mp h
  obtain ⟨ss, hss, h⟩ := Option.bind_eq_some_iff.mp h
  cases h
  exact List.mem_of_getElem? hss

namespace Changeset

/-- If the changeset is made, it puts the cursor into the new text, at the end of what it
selects. -/
def Aims [TextHash] (c : Changeset) (h : Host) : Prop :=
  ∀ target, c.cursor = some target → ∀ f ∈ c.files, target.path = f.path →
    ∀ text, newText f ((h.documents.find? f.path).map (·.document)) = .ok text →
      Content.Placed ⟨text, target.offset, target.selection⟩

theorem newText_ok [TextHash] (h : newText f (found.map OpenDocument.document) = .ok text) :
    ∃ d, found = some d ∧ f.change.apply d.text = .ok text := by
  cases found with
  | none => cases h
  | some d =>
    simp only [Option.map_some, newText] at h
    split at h
    · exact ⟨d, rfl, h⟩
    · cases h

end Changeset

namespace Action

theorem stepOf_after [TextHash] (h : (stepOf c f).perform s = (.ok step, s')) :
    ∃ text, Changeset.newText f ((s.documents.find? f.path).map (·.document)) = .ok text ∧
      step.after.content =
        match c.cursor.filter (·.path == f.path) with
        | some target => ⟨text, target.offset, target.selection⟩
        | none => ⟨text, f.change.mapOffset step.before.cursor, none⟩ := by
  obtain ⟨_, _, hget, h⟩ := of_perform_bind h
  cases hget
  obtain ⟨text, _, htext, h⟩ := of_perform_bind h
  cases h
  refine ⟨text, ?_, ?_⟩
  · cases hn : Changeset.newText f ((s.documents.find? f.path).map (·.document)) with
    | error e =>
      rw [hn] at htext
      cases htext
    | ok text' =>
      rw [hn] at htext
      cases htext
      rfl
  · cases c.cursor.filter (·.path == f.path) with
    | none => rfl
    | some target => rfl

theorem stepOf_placed [TextHash] (h : (stepOf c f).perform s = (.ok step, s')) (hs : s.Placed)
    (hf : f ∈ c.files) (hforward : ∀ e ∈ f.change.edits, e.Forward) (hc : c.Aims s) :
    step.Placed := by
  obtain ⟨-, hfound⟩ := stepOf_ok h
  obtain ⟨text, htext, hafter⟩ := stepOf_after h
  have hbefore := hs.documents _ _ hfound
  refine ⟨hbefore, ?_⟩
  rw [hafter]
  cases ht : c.cursor.filter (·.path == f.path) with
  | some target =>
    obtain ⟨hcursor, hpath⟩ := Option.filter_eq_some_iff.mp ht
    exact hc target hcursor f hf (beq_iff_eq.mp hpath) text htext
  | none =>
    rw [hfound] at htext
    obtain ⟨d, hd, happly⟩ := Changeset.newText_ok htext
    cases hd
    exact Content.placed_of_cursor (Change.mapOffset_le happly hforward hbefore.cursor)

theorem mapM_stepOf_placed [TextHash] (hs : s.Placed) (hc : c.Aims s) {fs : List DocumentEdits}
    (hfs : fs ⊆ c.files) (hforward : ∀ f ∈ fs, ∀ e ∈ f.change.edits, e.Forward)
    (h : Action.perform (fs.mapM (stepOf c)) s = (.ok steps, s')) : ∀ t ∈ steps, t.Placed := by
  induction fs generalizing steps s' with
  | nil =>
    cases h
    exact nofun
  | cons f fs ih =>
    rw [List.mapM_cons] at h
    obtain ⟨step, s₁, hstep, h⟩ := of_perform_bind h
    cases (stepOf_looks c f).host_eq hstep
    obtain ⟨rest, s₂, hrest, h⟩ := of_perform_bind h
    cases h
    have hf : f ∈ f :: fs := List.mem_cons_self
    rintro t (_ | ⟨_, ht⟩)
    · exact stepOf_placed hstep hs (hfs hf) (hforward f hf) hc
    · exact ih (fun g hg => hfs (.tail _ hg)) (fun g hg => hforward g (.tail _ hg)) hrest t ht

end Action

namespace Call

/-- The spans of a call have their starts first, and a changeset aims at its new text. -/
def Aims [TextHash] (h : Host) : Call → Prop
  | apply c => (∀ f ∈ c.files, ∀ e ∈ f.change.edits, e.Forward) ∧ c.Aims h
  | select _ span => span.start ≤ span.stop
  | _ => True

end Call

namespace Host.Placed

theorem travel {s : Host} (hs : s.Placed) (h : (Action.travel way path).perform s = (.ok b, s')) :
    s'.Placed := by
  rcases Action.of_travel_ok h with ⟨-, -, rfl⟩ | ⟨i, steps, hl, -, -, rfl⟩
  · exact hs
  · have hsteps := hs.history (mem_of_latest? hl)
    exact (hs.putAll fun t ht => (hsteps t ht).target way).move way i hsteps

theorem modifyAt {s : Host} (hs : s.Placed) {f : OpenDocument → Except EditError OpenDocument}
    (hf : ∀ d e, f d = .ok e → e.content.Placed)
    (h : (Action.modifyAt path f).perform s = (.ok x, s')) : s'.Placed := by
  obtain ⟨d, s₁, hd, h⟩ := Action.of_perform_bind h
  cases (Action.require_looks _ _).host_eq hd
  obtain ⟨e, s₁, he, h⟩ := Action.of_perform_bind h
  cases (Action.Looks.ofExcept (f d)).host_eq he
  cases h
  have hplaced : e.content.Placed := by
    cases hfd : f d with
    | error err =>
      rw [hfd] at he
      cases he
    | ok e' =>
      rw [hfd] at he
      cases he
      exact hf d e hfd
  refine ⟨fun p c hc => ?_, hs.undoable, hs.redoable⟩
  rw [PathMap.find?_insert] at hc
  split at hc
  · cases hc
    exact hplaced
  · exact hs.documents p c hc

theorem step [TextHash] {s : Host} (hs : s.Placed) {c : Call} (hc : c.Aims s)
    (h : c.action.perform s = (.ok (), s')) : s'.Placed := by
  cases c with
  | openText path text =>
    obtain ⟨_, _, hopen, h⟩ := Action.of_perform_bind h
    cases h
    cases hopen
    exact hs.put (Content.placed_of_cursor (Nat.zero_le _)) path.normalize
  | apply changes =>
    obtain ⟨steps, s₁, hsteps, h⟩ := Action.of_perform_bind h
    cases (Action.Looks.mapM (Action.stepOf_looks changes) _).host_eq hsteps
    cases h
    exact hs.record (Action.mapM_stepOf_placed hs hc.2 (List.Subset.refl _) hc.1 hsteps)
  | undo path =>
    obtain ⟨_, _, htravel, h⟩ := Action.of_perform_bind h
    cases h
    exact hs.travel htravel
  | redo path =>
    obtain ⟨_, _, htravel, h⟩ := Action.of_perform_bind h
    cases h
    exact hs.travel htravel
  | setCursor path offset =>
    apply hs.modifyAt _ h
    intro d e he
    cases he
    exact Content.placed_of_cursor (Nat.min_le_right _ _)
  | select path span =>
    apply hs.modifyAt _ h
    intro d e he
    split at he
    · cases he
    · rename_i hle
      cases he
      refine ⟨Nat.not_lt.mp hle, ?_⟩
      rintro _ ⟨⟩
      exact ⟨hc, rfl⟩

end Host.Placed

namespace Host

/-- The hosts that calls which aim lead to from none. -/
inductive Aimed [TextHash] : Host → Prop
  | empty : Aimed .empty
  | call (hh : Aimed h) {c : Call} (hc : c.Aims h) : Aimed (c.action.perform h).2

/-- Whatever is done to documents, as long as no changeset puts a cursor outside of its new text,
cursors are in their texts and selections end at them. -/
theorem Aimed.placed [TextHash] (h : Aimed s) : s.Placed := by
  induction h with
  | empty => exact .empty
  | @call s _ c hc ih =>
    cases hr : c.action.perform s with
    | mk r s' =>
      cases r with
      | error e =>
        cases c.action_atomic s e s' hr
        exact ih
      | ok _ => exact ih.step hc hr

/-- Two calls after which a cursor is behind the end of its text: the text is opened, and shortened
by a changeset that puts the cursor where the end was. -/
def overrun : Host :=
  let c := (Changeset.empty.edit "/a.cpp" ⟨"int a;\n", 1⟩ (·.remove ⟨0, 4⟩)).setCursor "/a.cpp" 7
  after .empty [.openText (.ofString "/a.cpp") "int a;\n", .apply c]

theorem cursor_behind_end :
    overrun.Reachable ∧ overrun.find? (.ofString "/a.cpp") = some ⟨"a;\n", 2, 7, none⟩ ∧
      ¬ overrun.Placed := by
  have hfound : overrun.documents.find? (.ofString "/a.cpp") = some ⟨"a;\n", 2, 7, none⟩ := by
    decide +kernel
  have hreach : overrun.Reachable := by
    unfold overrun
    exact .call (.call .empty _) _
  refine ⟨hreach, hfound, fun hp => ?_⟩
  exact absurd (hp.documents _ _ hfound).cursor (by decide)

end Host

end CppRefactor
