import CppRefactor.Proofs.Edit.Atomicity
import CppRefactor.Proofs.Project.Ranks

/-!
The hosts that calls can lead to. Their documents stand under normalized paths, in order: no call
but opening a document gives a host a path it did not have.
-/

namespace CppRefactor

namespace Host

/-- The hosts that calls lead to, from none or from the documents of a workspace. -/
inductive Reachable [TextHash] : Host → Prop
  | empty : Reachable .empty
  | ofWorkspace (hw : w.Reachable) : Reachable (.ofWorkspace w)
  | call (hh : Reachable h) (c : Call) : Reachable (c.action.perform h).2

/-- What is kept when a document is put in place under a normalized path or in the place of another
one. -/
structure Kept (P : PathMap OpenDocument → Prop) : Prop where
  insert {m : PathMap OpenDocument} {p : Path} (d : OpenDocument) : P m →
    p.normalize = p ∨ (∃ e, m.find? p = some e) → P (m.insert p d)

variable {P : PathMap OpenDocument → Prop}

theorem Kept.putAll (hP : Kept P) {h : Host} (hn : P h.documents)
    (hs : ∀ s ∈ steps, ∃ d, h.documents.find? s.path = some d) (target : Step → OpenDocument) :
    P (h.putAll target steps).documents := by
  induction steps generalizing h with
  | nil => exact hn
  | cons s steps ih =>
    have hput : P (h.put s.path (target s)).documents :=
      hP.insert _ hn (.inr (hs s List.mem_cons_self))
    refine ih hput fun t ht => ?_
    have hfind := h.documents.find?_insert s.path t.path { target s with
      revision := h.lastRevision + 1 }
    by_cases he : t.path = s.path
    · exact ⟨_, hfind.trans (if_pos he)⟩
    · obtain ⟨d, hd⟩ := hs t (List.mem_cons_of_mem s ht)
      exact ⟨d, (hfind.trans (if_neg he)).trans hd⟩

end Host

namespace Action

open Host (Kept)

variable {P : PathMap OpenDocument → Prop}

/-- The action keeps a property of the documents. -/
def Keeps (P : PathMap OpenDocument → Prop) (a : Action α) : Prop :=
  ∀ h x h', P h.documents → a.perform h = (.ok x, h') → P h'.documents

theorem Keeps.ignore {a : Action α} (ha : Keeps P a) : Keeps P (do let _ ← a) := by
  intro h _ h' hn hr
  obtain ⟨x, h₁, hx, hr⟩ := of_perform_bind hr
  cases hr
  exact ha h x h' hn hx

variable (hP : Kept P)

include hP

theorem apply_keeps [TextHash] (c : Changeset) : Keeps P (apply c) := by
  intro h _ h' hn hr
  obtain ⟨steps, -, hfound, rfl⟩ := apply_ok hr
  by_cases he : steps = []
  · rw [he]
    exact hn
  · obtain ⟨taken, -, hrun⟩ := record_run steps he h
    rw [hrun]
    exact hP.putAll hn (fun s hs => ⟨_, hfound s hs⟩) _

theorem travel_keeps (way : Direction) (path : Path) : Keeps P (travel way path) := by
  intro h b h' hn hr
  rcases of_travel_ok hr with ⟨-, -, rfl⟩ | ⟨i, steps, -, -, hfound, rfl⟩
  · exact hn
  · rw [move_documents]
    exact hP.putAll hn hfound _

theorem modifyAt_keeps (path : Path) (f : OpenDocument → Except EditError OpenDocument) :
    Keeps P (modifyAt path f) := by
  intro h _ h' hn hr
  obtain ⟨d, h₁, hd, hr⟩ := of_perform_bind hr
  cases (require_looks _ _).host_eq hd
  obtain ⟨d', h₁, hd', hr⟩ := of_perform_bind hr
  cases (Looks.ofExcept (f d)).host_eq hd'
  cases hr
  exact hP.insert d' hn (.inl path.normalize_normalize)

end Action

open Host (Kept)

variable {P : PathMap OpenDocument → Prop}

theorem Call.action_keeps [TextHash] (hP : Kept P) (c : Call) : c.action.Keeps P := by
  cases c with
  | openText path text =>
    apply Action.Keeps.ignore
    intro h _ h' hn hr
    cases hr
    exact hP.insert _ hn (.inl path.normalize_normalize)
  | apply changes => exact Action.apply_keeps hP changes
  | undo path => exact (Action.travel_keeps hP .back path).ignore
  | redo path => exact (Action.travel_keeps hP .forth path).ignore
  | setCursor path offset => exact Action.modifyAt_keeps hP path _
  | select path span => exact Action.modifyAt_keeps hP path _

namespace Host.Reachable

variable [TextHash]

theorem documents (h : Reachable s) (hP : Kept P) (empty : P .empty)
    (ofWorkspace : ∀ w, w.Reachable → P (Host.ofWorkspace w).documents) : P s.documents := by
  induction h with
  | empty => exact empty
  | ofWorkspace hw => exact ofWorkspace _ hw
  | @call s _ c ih =>
    cases hr : c.action.perform s with
    | mk r s' =>
      cases r with
      | error e =>
        cases c.action_atomic s e s' hr
        exact ih
      | ok _ => exact c.action_keeps hP s () s' ih hr

theorem normalized (h : Reachable s) : s.documents.Normalized :=
  h.documents ⟨fun d hm hp => hm.insert (hp.elim id fun ⟨_, he⟩ => hm _ _ he) d⟩ .empty
    fun _ hw => hw.normalized.map fun d => (⟨d.text, d.revision, 0, none⟩ : OpenDocument)

theorem ordered (h : Reachable s) : s.documents.Ordered :=
  h.documents ⟨fun d hm _ => hm.insert _ d⟩ .empty
    fun _ hw => hw.ordered.map fun d => (⟨d.text, d.revision, 0, none⟩ : OpenDocument)

end Host.Reachable

end CppRefactor
