import CppRefactor.Fix.TemplateHeader
import CppRefactor.Proofs.Syntax.Spans
import CppRefactor.Syntax.Spot

/-!
Cursors stay in their tree: wherever a reader goes from the root, up, down or sideways, the focus
and the nodes around it are trees of the root.
-/

namespace CppRefactor

namespace Cursor

theorem map_focus_parts (c : Cursor) : c.parts.map focus = c.focus.parts := by
  apply List.ext_getElem
  · simp [parts]
  · intro i _ _
    simp [parts]

theorem focus_child? (k : Kind) (c : Cursor) : c.focus.child? k = (c.child? k).map focus := by
  rw [Tree.child?, ← map_focus_parts, List.find?_map]
  rfl

/-- The focus and the nodes around it are trees of a root. -/
structure Within (whole : Tree) (c : Cursor) : Prop where
  focus : c.focus ∈ whole.preorder
  above : ∀ p ∈ c.above, p.1 ∈ whole.preorder

theorem within_root (t : Tree) : Within t (.root t) :=
  ⟨t.self_mem_preorder, fun _ h => nomatch h⟩

namespace Within

theorem down {c : Cursor} (h : c.Within whole) (ht : t ∈ c.focus.parts) (i : Nat) :
    Within whole ⟨t, (c.focus, i) :: c.above⟩ := by
  refine ⟨Tree.mem_preorder_trans h.focus (Tree.mem_preorder_of_mem_parts ht), ?_⟩
  intro p hp
  rcases List.mem_cons.mp hp with rfl | hp
  · exact h.focus
  · exact h.above p hp

theorem part {c : Cursor} (h : c.Within whole) (hp : p ∈ c.parts) : p.Within whole := by
  obtain ⟨i, hi, rfl⟩ := List.mem_mapIdx.mp hp
  exact h.down (List.getElem_mem hi) i

theorem child {c : Cursor} (h : c.Within whole) (hd : c.child? k = some d) : d.Within whole :=
  h.part (List.mem_of_find?_eq_some hd)

theorem climb {above : List (Tree × Nat)} (h : ∀ p ∈ above, p.1 ∈ whole.preorder)
    (hd : d ∈ Cursor.climb above) : d.Within whole := by
  induction above with
  | nil => cases hd
  | cons p above ih =>
    rcases List.mem_cons.mp hd with rfl | hd
    · exact ⟨h p List.mem_cons_self, fun q hq => h q (List.mem_cons_of_mem _ hq)⟩
    · exact ih (fun q hq => h q (List.mem_cons_of_mem _ hq)) hd

theorem enclosing {c : Cursor} (h : c.Within whole) (hd : d ∈ c.enclosing) : d.Within whole :=
  climb h.above hd

theorem ancestors {c : Cursor} (h : c.Within whole) (hd : d ∈ c.ancestors) : d.Within whole :=
  (List.mem_cons.mp hd).elim (fun he => he ▸ h) h.enclosing

theorem up {c : Cursor} (h : c.Within whole) (hd : c.up? = some d) : d.Within whole := by
  obtain ⟨t, above⟩ := c
  cases above with
  | nil => cases hd
  | cons p above =>
    cases hd
    exact h.enclosing List.mem_cons_self

mutual

theorem walk {above : List (Tree × Nat)} {t : Tree} (h : Within whole ⟨t, above⟩)
    (hd : d ∈ Cursor.walk rest above t) : d ∈ rest ∨ d.Within whole := by
  cases t with
  | token t =>
    refine (List.mem_cons.mp hd).symm.imp_right ?_
    rintro rfl
    exact h
  | node k s ts =>
    rcases List.mem_cons.mp hd with rfl | hd
    · exact .inr h
    · exact walkParts h (fun _ => id) hd

theorem walkParts {above : List (Tree × Nat)} {parent : Tree} {ts : List Tree}
    (h : Within whole ⟨parent, above⟩) (hts : ∀ t ∈ ts, t ∈ parent.parts)
    (hd : d ∈ Cursor.walkParts rest parent i above ts) : d ∈ rest ∨ d.Within whole := by
  cases ts with
  | nil => exact .inl hd
  | cons t ts =>
    rcases walk (h.down (hts t List.mem_cons_self) i) hd with hd | hd
    · exact walkParts h (fun u hu => hts u (List.mem_cons_of_mem _ hu)) hd
    · exact .inr hd

end

theorem preorder {c : Cursor} (h : c.Within whole) (hd : d ∈ c.preorder) : d.Within whole :=
  (walk h hd).resolve_left List.not_mem_nil

mutual

theorem unwrap {above : List (Tree × Nat)} {t : Tree} (h : Within whole ⟨t, above⟩) :
    (Cursor.unwrap above t).Within whole := by
  cases t with
  | token => exact h
  | node k s ts =>
    unfold Cursor.unwrap
    split
    · rename_i he
      cases he
      cases hd : unwrapItem? (.node .templateDecl s ts) 0 above ts with
      | none => exact h
      | some d => exact unwrapItem h (fun _ => id) hd
    · exact h

theorem unwrapItem {above : List (Tree × Nat)} {parent : Tree} {ts : List Tree}
    (h : Within whole ⟨parent, above⟩) (hts : ∀ t ∈ ts, t ∈ parent.parts)
    (hd : unwrapItem? parent i above ts = some d) : d.Within whole := by
  cases ts with
  | nil => cases hd
  | cons t ts =>
    unfold unwrapItem? at hd
    split at hd
    · cases hd
      exact unwrap (h.down (hts t List.mem_cons_self) i)
    · exact unwrapItem h (fun u hu => hts u (List.mem_cons_of_mem _ hu)) hd

end

theorem withoutTemplates {c : Cursor} (h : c.Within whole) : c.withoutTemplates.Within whole :=
  unwrap h

theorem outermostTemplate {c : Cursor} (h : c.Within whole) :
    c.outermostTemplate.Within whole := by
  unfold Cursor.outermostTemplate
  cases hd : (c.enclosing.takeWhile (·.kind == .templateDecl)).getLast? with
  | none => exact h
  | some d =>
    exact h.enclosing ((List.takeWhile_sublist _).subset (List.mem_of_getLast? hd))

end Within

end Cursor

namespace Spot

open Cursor (Within)

theorem covering_within (t : Tree) (span : Span) : (covering (.root t) span).Within t := by
  unfold covering
  cases hd : ((Cursor.root t).preorder.filter (·.span.encloses span)).getLast? with
  | none => exact Cursor.within_root t
  | some d =>
    exact (Cursor.within_root t).preorder (List.mem_filter.mp (List.mem_of_getLast? hd)).1

theorem tokenAt?_within (h : tokenAt? (.root t) o = some c) : c.Within t := by
  have hleaf : ∀ d ∈ (Cursor.root t).leaves.filter (·.span.touches o), d.Within t :=
    fun d hd => (Cursor.within_root t).preorder
      (List.mem_filter.mp (List.mem_filter.mp hd).1).1
  unfold tokenAt? at h
  split at h
  · rename_i left right rest hl
    rw [hl] at hleaf
    split at h
    · cases h
      exact hleaf _ List.mem_cons_self
    · cases h
      exact hleaf _ (List.mem_cons_of_mem _ List.mem_cons_self)
  · rename_i only hl
    rw [hl] at hleaf
    cases h
    exact hleaf _ List.mem_cons_self
  · cases h

theorem nodesFrom_within {c : Cursor} (h : c.Within whole) (hd : d ∈ nodesFrom c) :
    d.Within whole :=
  h.ancestors (List.mem_filter.mp hd).1

theorem ofRoot_within (h : c ∈ (ofRoot (.root t) o selected).around) : c.Within t := by
  have hnodes (innermost : Option Cursor) (hin : ∀ d ∈ innermost, d.Within t)
      (hc : c ∈ (innermost.map nodesFrom).getD [.root t]) : c.Within t := by
    cases innermost with
    | none =>
      rw [List.mem_singleton.mp hc]
      exact Cursor.within_root t
    | some d => exact nodesFrom_within (hin d rfl) hc
  refine hnodes _ ?_ h
  intro d hd
  split at hd
  · cases hd
    exact covering_within t _
  · exact tokenAt?_within hd

end Spot

end CppRefactor
