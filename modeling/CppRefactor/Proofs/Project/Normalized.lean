import CppRefactor.Project.Sync

/-!
Documents stand under normalized paths, in every workspace.
-/

namespace CppRefactor

namespace Path

/-- A stack of components that taking them one after the other leaves as it is: no `.`, and `..`
only at the bottom or on a root. -/
def Settled : List Component → Prop
  | [] => True
  | .here :: _ => False
  | .up :: rest => (rest = [] ∨ rest.head? = some .root) ∧ Settled rest
  | _ :: rest => Settled rest

theorem Settled.tail (h : Settled (c :: stack)) : Settled stack := by
  cases c with
  | root => exact h
  | here => exact h.elim
  | up => exact h.2
  | name text => exact h

theorem Settled.push (h : Settled stack) (c : Component) : Settled (push stack c) := by
  cases c with
  | root => exact h
  | here => exact h
  | name text => exact h
  | up =>
    cases stack with
    | nil => exact ⟨.inl rfl, h⟩
    | cons d rest =>
      cases d with
      | root => exact ⟨.inr rfl, h⟩
      | here => exact h.elim
      | up => exact h.2
      | name text => exact h

theorem settled_foldl (cs : List Component) (h : Settled stack) :
    Settled (cs.foldl push stack) := by
  induction cs generalizing stack with
  | nil => exact h
  | cons c cs ih => exact ih (h.push c)

theorem Settled.push_eq (h : Settled (c :: stack)) : Path.push stack c = c :: stack := by
  cases c with
  | root => rfl
  | here => exact h.elim
  | name text => rfl
  | up =>
    cases stack with
    | nil => rfl
    | cons d rest =>
      obtain ⟨hr | hr, -⟩ := h
      · cases hr
      · cases hr
        rfl

theorem Settled.foldl_reverse (h : Settled stack) :
    stack.reverse.foldl Path.push [] = stack := by
  induction stack with
  | nil => rfl
  | cons c stack ih =>
    rw [List.reverse_cons, List.foldl_append, ih h.tail]
    exact h.push_eq

theorem normalize_normalize (p : Path) : p.normalize.normalize = p.normalize := by
  have hs : Settled (p.components.foldl push []) := settled_foldl p.components trivial
  simp only [normalize]
  rw [hs.foldl_reverse]

end Path

/-- The paths of a map are normalized. -/
def PathMap.Normalized (m : PathMap α) : Prop := ∀ p a, m.find? p = some a → p.normalize = p

namespace PathMap.Normalized

theorem empty : Normalized (.empty : PathMap α) := nofun

theorem insert {m : PathMap α} (hm : m.Normalized) (hp : p.normalize = p) (a : α) :
    (m.insert p a).Normalized := by
  intro q b hq
  rw [find?_insert] at hq
  split at hq
  · rename_i he
    rw [he, hp]
  · exact hm q b hq

theorem erase {m : PathMap α} (hm : m.Normalized) (p : Path) : (m.erase p).Normalized := by
  intro q a hq
  rw [find?_erase] at hq
  split at hq
  · cases hq
  · exact hm q a hq

theorem map {m : PathMap α} (hm : m.Normalized) (f : α → β) :
    Normalized ⟨m.entries.map fun (p, a) => (p, f a)⟩ := by
  intro q b hq
  rw [find?, lookup_map] at hq
  obtain ⟨a, ha, -⟩ := Option.map_eq_some_iff.mp hq
  exact hm q a ha

end PathMap.Normalized

namespace Workspace

/-- The workspaces that can be made. -/
inductive Reachable : Workspace → Prop
  | ofSearchPaths (disk : Option Disk) (paths : List Path) : Reachable (.ofSearchPaths disk paths)
  | rescan (hw : Reachable w) (disk : Option Disk) : Reachable (w.rescan disk)
  | setAt (hw : Reachable w) (path : Path) (d : Document) : Reachable (w.setAt path d)
  | set (hw : Reachable w) (path : Path) (text : String) : Reachable (w.set path text).2
  | remove (hw : Reachable w) (path : Path) : Reachable (w.remove path).2
  | loadDirectory (hw : Reachable w) (disk : Option Disk) (directory : String) :
    Reachable (w.loadDirectory disk directory).2
  | copyAllInto (hw : Reachable w) (h : Host) : Reachable (h.copyAllInto w)

/-- What documents keep when one is put in place and when one is taken away, those of every
workspace have. -/
theorem Reachable.documents {P : PathMap Document → Prop} (h : Reachable w) (empty : P .empty)
    (insert : ∀ m (p : Path) d, P m → P (m.insert p.normalize d))
    (erase : ∀ m (p : Path), P m → P (m.erase p.normalize)) : P w.documents := by
  have foldl {α : Type} {step : Workspace → α → Workspace}
      (hstep : ∀ w a, P w.documents → P (step w a).documents) (as : List α) (w : Workspace)
      (hw : P w.documents) : P (as.foldl step w).documents := by
    induction as generalizing w with
    | nil => exact hw
    | cons a as ih => exact ih _ (hstep w a hw)
  induction h with
  | ofSearchPaths disk paths => exact empty
  | rescan _ disk ih => exact ih
  | setAt _ path d ih => exact insert _ path d ih
  | set _ path text ih => exact insert _ path _ ih
  | remove _ path ih => exact erase _ path ih
  | loadDirectory _ disk directory ih =>
    simp only [Workspace.loadDirectory]
    split
    · exact ih
    · exact foldl (fun w a hw => insert _ a.1 _ hw) _ _ ih
  | copyAllInto _ h ih =>
    refine foldl (fun w (path, d) hw => ?_) _ _ ih
    simp only [Host.copyInto]
    split
    · exact hw
    · exact insert _ path _ hw

theorem Reachable.normalized (h : Reachable w) : w.documents.Normalized :=
  h.documents .empty (fun _ p d hm => hm.insert p.normalize_normalize d) fun _ _ hm => hm.erase _

end Workspace

end CppRefactor
