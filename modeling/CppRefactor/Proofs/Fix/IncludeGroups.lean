import CppRefactor.Fix.IncludeInsertion
import CppRefactor.Proofs.Project.Includes
import Mathlib.Data.List.SplitBy

/-!
The groups of include directives. Those of a group stand on consecutive lines and are of one kind;
so they follow each other among all the directives of a file, also where some take no part. A
directive that is put on a line of its own before or behind one of them is of the group.
-/

namespace CppRefactor

namespace Include

/-- Directives of one kind on consecutive lines. -/
structure IsRun (is : List Include) : Prop where
  lines : is.IsChain fun i j => i.line + 1 = j.line
  kinds : is.IsChain fun i j => i.kind = j.kind

/-- Directives in the order of their paths. -/
def InOrder (is : List Include) : Prop := is.Pairwise (·.path ≤ ·.path)

variable {is run before behind : List Include} {i j : Include} {bytes : Nat}

theorem prefix_of_lines (hlines : (i :: is).Pairwise (·.line < ·.line))
    (hrun : (i :: run).IsChain fun i j => i.line + 1 = j.line) (h : run.Sublist is) :
    run <+: is := by
  induction is generalizing i run with
  | nil => exact (List.sublist_nil.mp h).symm ▸ List.prefix_rfl
  | cons j is ih =>
    obtain ⟨hfirst, hlines⟩ := List.pairwise_cons.mp hlines
    cases h with
    | cons_cons _ h =>
      exact (List.prefix_cons_inj j).mpr (ih hlines (List.isChain_cons_cons.mp hrun).2 h)
    | cons _ h =>
      cases run with
      | nil => exact List.nil_prefix
      | cons k run =>
        -- A directive in between would stand on a line between two that follow each other.
        have hbetween := hfirst j List.mem_cons_self
        have hbehind := (List.pairwise_cons.mp hlines).1 k (h.subset List.mem_cons_self)
        have hnext := (List.isChain_cons_cons.mp hrun).1
        omega

theorem IsRun.within (hrun : IsRun run) (hlines : is.Pairwise (·.line < ·.line))
    (h : run.Sublist is) : run <:+: is := by
  induction is generalizing run with
  | nil => exact (List.sublist_nil.mp h).symm ▸ List.infix_rfl
  | cons i is ih =>
    cases h with
    | cons _ h => exact List.infix_cons (ih hrun (List.pairwise_cons.mp hlines).2 h)
    | cons_cons _ h =>
      exact ((List.prefix_cons_inj i).mpr (prefix_of_lines hlines hrun.lines h)).isInfix

theorem IsRun.kind_eq (h : IsRun (i :: is)) : ∀ j ∈ i :: is, j.kind = i.kind := by
  have hpair := List.isChain_iff_pairwise.mp h.kinds
  intro j hj
  rcases List.mem_cons.mp hj with rfl | hj
  · rfl
  · exact ((List.pairwise_cons.mp hpair).1 j hj).symm

/-- A directive takes the line of one of a run, which moves to the next line. -/
theorem IsRun.insert (h : IsRun (before ++ j :: behind)) (hkind : i.kind = j.kind)
    (hline : i.line = j.line) :
    IsRun (before ++ i :: (j :: behind).map (·.movedBy bytes 1)) := by
  obtain ⟨hlines, hkinds⟩ := h
  constructor
  · obtain ⟨hbefore, hbehind, hjoin⟩ := List.isChain_append.mp hlines
    have hmoved :
        ((j :: behind).map (·.movedBy bytes 1)).IsChain fun k l => k.line + 1 = l.line := by
      rw [List.isChain_map]
      exact hbehind.imp fun k l h => congrArg (· + 1) h
    refine List.isChain_append.mpr ⟨hbefore, List.isChain_cons_cons.mpr ⟨?_, hmoved⟩, ?_⟩
    · exact congrArg (· + 1) hline
    · intro x hx y hy
      cases hy
      exact (hjoin x hx j rfl).trans hline.symm
  · obtain ⟨hbefore, hbehind, hjoin⟩ := List.isChain_append.mp hkinds
    have hmoved : ((j :: behind).map (·.movedBy bytes 1)).IsChain fun k l => k.kind = l.kind := by
      rw [List.isChain_map]
      exact hbehind
    refine List.isChain_append.mpr ⟨hbefore, List.isChain_cons_cons.mpr ⟨hkind, hmoved⟩, ?_⟩
    intro x hx y hy
    cases hy
    exact (hjoin x hx j rfl).trans hkind.symm

theorem IsRun.concat (h : IsRun is) (hlast : is.getLast? = some j) (hkind : i.kind = j.kind)
    (hline : i.line = j.line + 1) : IsRun (is ++ [i]) := by
  obtain ⟨hlines, hkinds⟩ := h
  constructor
  · refine hlines.append (List.isChain_singleton i) fun x hx y hy => ?_
    rw [hlast] at hx
    cases hx
    cases hy
    exact hline.symm
  · refine hkinds.append (List.isChain_singleton i) fun x hx y hy => ?_
    rw [hlast] at hx
    cases hx
    cases hy
    exact hkind.symm

theorem inOrder_iff : InOrder is ↔ is.IsChain (·.path ≤ ·.path) := by
  have : IsTrans Include (·.path ≤ ·.path) := ⟨fun _ _ _ => String.le_trans⟩
  exact List.isChain_iff_pairwise.symm

theorem inOrder_movedBy {lines : Nat} :
    InOrder (before ++ i :: behind.map (·.movedBy bytes lines)) ↔
      InOrder (before ++ i :: behind) := by
  simp [InOrder, List.pairwise_append, List.pairwise_map, movedBy]

/-- A directive goes in order before the first one with a greater path. -/
theorem InOrder.insert (h : InOrder (before ++ j :: behind))
    (hbefore : ∀ k ∈ before, ¬ i.path < k.path) (hnext : i.path < j.path) :
    InOrder (before ++ i :: j :: behind) := by
  obtain ⟨hfront, hback, hacross⟩ := List.pairwise_append.mp h
  have hle : i.path ≤ j.path := String.lt_asymm hnext
  refine List.pairwise_append.mpr ⟨hfront, List.pairwise_cons.mpr ⟨?_, hback⟩, ?_⟩
  · intro k hk
    rcases List.mem_cons.mp hk with rfl | hk
    · exact hle
    · exact String.le_trans hle ((List.pairwise_cons.mp hback).1 k hk)
  · intro k hk l hl
    rcases List.mem_cons.mp hl with rfl | hl
    · exact hbefore k hk
    · exact hacross k hk l hl

theorem InOrder.concat (h : InOrder is) (his : ∀ k ∈ is, ¬ i.path < k.path) :
    InOrder (is ++ [i]) := by
  refine List.pairwise_append.mpr ⟨h, List.pairwise_singleton _ i, fun k hk l hl => ?_⟩
  rw [List.mem_singleton.mp hl]
  exact his k hk

end Include

namespace IncludeGroup

open Include (IsRun InOrder)

variable {is : List Include} {groups : List IncludeGroup} {g : IncludeGroup}
  {path directory : String}

theorem infix_of_mem_splitBy {r : α → α → Bool} {as block : List α} (h : block ∈ as.splitBy r) :
    block <:+: as := by
  have hflatten := List.infix_of_mem_flatten h
  rwa [List.flatten_splitBy] at hflatten

theorem of_mem_ofIncludes (h : g ∈ ofIncludes is) : g.entries <:+: is ∧ IsRun g.entries := by
  obtain ⟨block, hblock, hg⟩ := List.mem_flatMap.mp h
  obtain ⟨run, hrun, hg⟩ := List.mem_filterMap.mp hg
  have hentries : g.entries = run := by
    split at hg
    · cases hg
    · cases hg
      rfl
  have hwithin := infix_of_mem_splitBy hrun
  have hlines := List.IsChain.infix (List.isChain_of_mem_splitBy hblock) hwithin
  rw [hentries]
  refine ⟨hwithin.trans (infix_of_mem_splitBy hblock), ?_, ?_⟩
  · exact hlines.imp fun _ _ h => beq_iff_eq.mp h
  · exact (List.isChain_of_mem_splitBy hrun).imp fun _ _ h => beq_iff_eq.mp h

theorem ofBlock_ne_nil (h : is ≠ []) : ofBlock is ≠ [] := by
  obtain ⟨run, hrun⟩ := List.exists_mem_of_ne_nil
    (is.splitBy fun i j => i.kind == j.kind) (List.splitBy_ne_nil.mpr h)
  cases run with
  | nil => exact absurd hrun (List.nil_notMem_splitBy _ _)
  | cons i rest => exact List.ne_nil_of_mem (List.mem_filterMap.mpr ⟨_, hrun, rfl⟩)

theorem ofIncludes_ne_nil (h : is ≠ []) : ofIncludes is ≠ [] := by
  obtain ⟨block, hblock⟩ := List.exists_mem_of_ne_nil
    (is.splitBy fun i j => i.line + 1 == j.line) (List.splitBy_ne_nil.mpr h)
  obtain ⟨g, hg⟩ :=
    List.exists_mem_of_ne_nil _ (ofBlock_ne_nil (List.ne_nil_of_mem_splitBy hblock))
  exact List.ne_nil_of_mem (List.mem_flatMap.mpr ⟨block, hblock, hg⟩)

theorem greatestBy_mem {measure : α → Nat} {as : List α} (h : greatestBy measure as = some a) :
    a ∈ as := by
  induction as generalizing a with
  | nil => cases h
  | cons b as ih =>
    rw [greatestBy] at h
    split at h
    · cases h
      exact List.mem_cons_self
    · rename_i c hc
      split at h
      · cases h
        exact .tail b (ih hc)
      · cases h
        exact List.mem_cons_self

theorem joined?_mem (h : joined? path directory groups = some g) : g ∈ groups := by
  rw [joined?, Option.or_eq_some_iff] at h
  rcases h with h | ⟨-, h⟩
  · exact (List.mem_filter.mp (greatestBy_mem h)).1
  · rw [List.findRev?_eq_findRev?TR] at h
    exact List.mem_reverse.mp (List.mem_of_find?_eq_some h)

theorem sortedFrom_iff (i : Include) (is : List Include) :
    sortedFrom i is = true ↔ (i :: is).IsChain (·.path ≤ ·.path) := by
  induction is generalizing i with
  | nil => simp [sortedFrom]
  | cons j is ih =>
    rw [sortedFrom, Bool.and_eq_true, ih, List.isChain_cons_cons, Bool.not_eq_true',
      decide_eq_false_iff_not]
    rfl

theorem isSorted_iff (g : IncludeGroup) : g.isSorted = true ↔ InOrder g.entries :=
  (sortedFrom_iff g.first g.rest).trans Include.inOrder_iff.symm

theorem getLast?_entries (g : IncludeGroup) : g.entries.getLast? = some g.last := by
  rw [entries, List.getLast?_cons, last, List.getLastD_eq_getLast?]

theorem last_mem (g : IncludeGroup) : g.last ∈ g.entries :=
  List.mem_of_getLast? g.getLast?_entries

end IncludeGroup

end CppRefactor
