import CppRefactor.Project.IncludeGraph
import Mathlib.Data.List.Perm.Subperm
import Mathlib.Logic.Relation

/-!
What a file includes through other files: the files that directives lead to from it, one behind the
other. A search along them ends, whatever circles there are, and finds each such file once. The two
directions of a graph are the same edges, since every edge is entered in both.
-/

namespace CppRefactor

open Relation (TransGen ReflTransGen)

namespace IncludeGraph

/-- An edge from one file to another. -/
def Step (next : FileId → List FileId) (file target : FileId) : Prop := target ∈ next file

/-- A search has come from `start` to the files it has seen, and has been on along all edges of
those that are no longer on its stack. -/
structure Exploring (next : FileId → List FileId) (start : FileId) (stack seen : List FileId) :
    Prop where
  starts : seen.head? = some start
  nodup : seen.Nodup
  stacked : ∀ file ∈ stack, file ∈ seen
  reached : ∀ file ∈ seen, ReflTransGen (Step next) start file
  explored : ∀ file ∈ seen, file ∉ stack → ∀ target ∈ next file, target ∈ seen

namespace Exploring

variable {next : FileId → List FileId} {first file : FileId} {stack seen : List FileId}

theorem start (next : FileId → List FileId) (start : FileId) :
    Exploring next start [start] [start] where
  starts := rfl
  nodup := List.pairwise_singleton _ start
  stacked _ h := h
  reached file h := by
    rw [List.mem_singleton.mp h]
  explored _ h hstack := absurd h hstack

/-- Taking a file from the stack keeps what a search is: its new neighbours are seen now, and they
are on the stack. -/
theorem step (h : Exploring next first (file :: stack) seen) (hnext : (next file).Nodup) :
    let new := (next file).filter (!seen.contains ·)
    Exploring next first (new.reverse ++ stack) (seen ++ new) := by
  intro new
  have hnew {target : FileId} : target ∈ new ↔ target ∈ next file ∧ target ∉ seen := by
    simp [new]
  have hfile : file ∈ seen := h.stacked file List.mem_cons_self
  refine ⟨?_, ?_, fun f hf => ?_, fun f hf => ?_, fun f hf hstack target htarget => ?_⟩
  · rw [List.head?_append, h.starts, Option.some_or]
  · refine List.nodup_append.mpr ⟨h.nodup, hnext.filter _, fun a ha b hb hab => ?_⟩
    exact (hnew.mp hb).2 (hab ▸ ha)
  · rcases List.mem_append.mp hf with hf | hf
    · exact List.mem_append_right seen (List.mem_reverse.mp hf)
    · exact List.mem_append_left new (h.stacked f (List.mem_cons_of_mem file hf))
  · rcases List.mem_append.mp hf with hf | hf
    · exact h.reached f hf
    · exact (h.reached file hfile).tail (hnew.mp hf).1
  · have hold : f ∈ seen := by
      refine (List.mem_append.mp hf).resolve_right fun hf => hstack ?_
      exact List.mem_append_left stack (List.mem_reverse.mpr hf)
    by_cases hseen : target ∈ seen
    · exact List.mem_append_left new hseen
    · refine List.mem_append_right seen (hnew.mpr ⟨?_, hseen⟩)
      by_cases hff : f = file
      · exact hff ▸ htarget
      · refine absurd (h.explored f hold ?_ target htarget) hseen
        exact List.not_mem_cons_of_ne_of_not_mem hff fun hf =>
          hstack (List.mem_append_right _ hf)

/-- A search among finitely many files ends: each step takes one file from the stack, and a file
that comes onto it is one fewer that has not been seen. -/
theorem explore (files : List FileId) (hnext : ∀ f, (next f).Nodup)
    (hfiles : ∀ f, ∀ target ∈ next f, target ∈ files) (n : Nat)
    (h : Exploring next first stack seen) (hseen : seen ⊆ files)
    (hn : stack.length + (files.length - seen.length) ≤ n) :
    Exploring next first [] (IncludeGraph.explore next n stack seen) := by
  induction n generalizing stack seen with
  | zero =>
    have hstack : stack = [] := List.eq_nil_of_length_eq_zero (by omega)
    exact hstack ▸ h
  | succ n ih =>
    cases stack with
    | nil => exact h
    | cons file stack =>
      have hstep := h.step (hnext file)
      have hsub : seen ++ (next file).filter (!seen.contains ·) ⊆ files := by
        refine List.append_subset.mpr ⟨hseen, fun target htarget => ?_⟩
        exact hfiles file target (List.mem_filter.mp htarget).1
      refine ih hstep hsub ?_
      have hle : (seen ++ (next file).filter (!seen.contains ·)).length ≤ files.length :=
        (List.subperm_of_subset hstep.nodup hsub).length_le
      simp only [List.length_append, List.length_reverse, List.length_cons] at hle hn ⊢
      omega

/-- A search that has ended has seen just the files that edges lead to. -/
theorem mem_iff (h : Exploring next first [] seen) :
    file ∈ seen ↔ ReflTransGen (Step next) first file := by
  refine ⟨h.reached file, fun hfile => ?_⟩
  induction hfile with
  | refl => exact List.mem_of_mem_head? h.starts
  | tail _ hstep ih => exact h.explored _ ih List.not_mem_nil _ hstep

end Exploring

/-- A file includes another one itself. -/
def Includes (g : IncludeGraph) : FileId → FileId → Prop := Step g.includes

/-- A graph of `n` files: its edges lead to these files, none twice, and stand in both
directions. -/
structure Valid (g : IncludeGraph) (n : Nat) : Prop where
  length_targets : g.targets.length = n
  length_sources : g.sources.length = n
  nodup (file : FileId) : (g.includes file).Nodup
  nodup_includedBy (file : FileId) : (g.includedBy file).Nodup
  lt : target ∈ g.includes file → target < n
  mem_includedBy : file ∈ g.includedBy target ↔ target ∈ g.includes file

theorem Valid.includes_lt {g : IncludeGraph} (h : g.Valid n) (hf : target ∈ g.includes file) :
    file < n := by
  rw [includes] at hf
  cases he : g.targets[file]? with
  | none => simp [he] at hf
  | some targets => exact h.length_targets ▸ (List.getElem?_eq_some_iff.mp he).1

section reachable

variable {g : IncludeGraph} {next : FileId → List FileId} (hnext : ∀ f, (next f).Nodup)
  (hlt : ∀ f, ∀ target ∈ next f, target < g.targets.length) (file : FileId)

include hnext hlt

theorem reachable_exploring : Exploring next file []
    (explore next (g.targets.length + 1) [file] [file]) := by
  refine (Exploring.start next file).explore (file :: List.range g.targets.length) hnext
    (fun f target htarget => ?_) _ (by simp) ?_
  · exact List.mem_cons_of_mem file (List.mem_range.mpr (hlt f target htarget))
  · simp
    omega

theorem reachable_nodup : (g.reachable next file).Nodup :=
  (reachable_exploring hnext hlt file).nodup.sublist (List.drop_sublist 1 _)

/-- A file other than the first is found if and only if one or more edges lead to it. -/
theorem mem_reachable :
    target ∈ g.reachable next file ↔ target ≠ file ∧ TransGen (Step next) file target := by
  have h := reachable_exploring hnext hlt file
  rw [reachable]
  generalize explore next (g.targets.length + 1) [file] [file] = seen at h
  cases seen with
  | nil => cases h.starts
  | cons first rest =>
    obtain rfl : first = file := Option.some.inj h.starts
    have hmem : target ∈ rest ↔ target ≠ first ∧ target ∈ first :: rest := by
      have hnot : first ∉ rest := (List.nodup_cons.mp h.nodup).1
      grind
    rw [List.drop_one, List.tail_cons, hmem, h.mem_iff, Relation.reflTransGen_iff_eq_or_transGen]
    exact and_congr_right fun hne => or_iff_right hne

end reachable

namespace Valid

variable {g : IncludeGraph} (h : g.Valid n)

include h

theorem allIncludes_nodup (file : FileId) : (g.allIncludes file).Nodup :=
  reachable_nodup h.nodup (fun _ _ hf => h.length_targets ▸ h.lt hf) file

theorem mem_allIncludes :
    target ∈ g.allIncludes file ↔ target ≠ file ∧ TransGen g.Includes file target :=
  mem_reachable h.nodup (fun _ _ hf => h.length_targets ▸ h.lt hf) file

theorem mem_allIncluders :
    file ∈ g.allIncluders target ↔ file ≠ target ∧ TransGen g.Includes file target := by
  have hlt (f : FileId) : ∀ includer ∈ g.includedBy f, includer < g.targets.length :=
    fun includer hi => h.length_targets ▸ h.includes_lt (h.mem_includedBy.mp hi)
  have hswap : Step g.includedBy = Function.swap g.Includes := by
    funext f d
    exact propext h.mem_includedBy
  rw [allIncluders, mem_reachable h.nodup_includedBy hlt, hswap, Relation.transGen_swap]

theorem mem_allIncludes_iff : target ∈ g.allIncludes file ↔ file ∈ g.allIncluders target := by
  rw [h.mem_allIncludes, h.mem_allIncluders, ne_comm]

end Valid

/-- A directive of one file names another one. -/
def Names (searchPaths : List Path) (files : List (Path × List Include)) (file target : FileId) :
    Prop :=
  ∃ path directives, files[file]? = some (path, directives) ∧
    ∃ i ∈ directives, resolve? searchPaths (files.map (·.1)) path i = some target

/-- What stands in the lists of files when one more file is put into one of them. -/
theorem mem_getD_modify {rows : List (List FileId)} (h : i < rows.length) (a b j : FileId) :
    b ∈ ((rows.modify i (· ++ [a]))[j]?).getD [] ↔ b ∈ (rows[j]?).getD [] ∨ (j = i ∧ b = a) := by
  rw [List.getElem?_modify]
  by_cases hij : i = j
  · subst hij
    rw [List.getElem?_eq_getElem h]
    simp
  · have hji : j ≠ i := fun hj => hij hj.symm
    cases rows[j]? <;> simp [hij, hji]

theorem nodup_getD_modify {rows : List (List FileId)} {i j : FileId}
    (h : ((rows[j]?).getD []).Nodup) (ha : a ∉ (rows[i]?).getD []) :
    (((rows.modify i (· ++ [a]))[j]?).getD []).Nodup := by
  rw [List.getElem?_modify]
  by_cases hij : i = j
  · subst hij
    cases he : rows[i]? with
    | none => exact List.nodup_nil
    | some row =>
      rw [he, Option.getD_some] at h ha
      simp only [Option.map_eq_map, Option.map_some, if_true, Option.getD_some]
      refine List.nodup_append.mpr ⟨h, List.pairwise_singleton _ a, fun b hb c hc hbc => ha ?_⟩
      rwa [← List.mem_singleton.mp hc, ← hbc]
  · cases he : rows[j]? with
    | none => exact List.nodup_nil
    | some row => simpa [he, hij] using h

theorem not_mem_includes_ofSize {n : Nat} : target ∉ (ofSize n).includes file := by
  rw [includes, ofSize, List.getElem?_replicate]
  split <;> simp

theorem not_mem_includedBy_ofSize {n : Nat} : file ∉ (ofSize n).includedBy target :=
  not_mem_includes_ofSize

theorem ofSize_valid (n : Nat) : (ofSize n).Valid n where
  length_targets := List.length_replicate
  length_sources := List.length_replicate
  nodup file := by
    rw [List.eq_nil_iff_forall_not_mem.mpr fun _ => not_mem_includes_ofSize]
    exact List.nodup_nil
  nodup_includedBy file := by
    rw [List.eq_nil_iff_forall_not_mem.mpr fun _ => not_mem_includedBy_ofSize]
    exact List.nodup_nil
  lt h := absurd h not_mem_includes_ofSize
  mem_includedBy := iff_of_false not_mem_includedBy_ofSize not_mem_includes_ofSize

namespace Valid

variable {g : IncludeGraph} {file : FileId} (h : g.Valid n) (hfile : file < n)

include h hfile

theorem mem_includes_addEdge (target : FileId) :
    t ∈ (g.addEdge file target).includes f ↔
      t ∈ g.includes f ∨ (f = file ∧ t = target ∧ t ≠ file) := by
  rw [addEdge]
  split
  · rename_i hold
    rw [Bool.or_eq_true, decide_eq_true_eq, List.contains_iff_mem] at hold
    grind
  · rename_i hnew
    rw [Bool.or_eq_true, decide_eq_true_eq, List.contains_iff_mem] at hnew
    rw [includes, mem_getD_modify (h.length_targets ▸ hfile), ← includes]
    grind

/-- An edge goes into the list of its file and into that of its target, so that both directions
stay the same edges. -/
theorem addEdge (htarget : target < n) : (g.addEdge file target).Valid n := by
  rw [IncludeGraph.addEdge]
  split
  · exact h
  · rename_i hnew
    rw [Bool.or_eq_true, decide_eq_true_eq, List.contains_iff_mem, not_or] at hnew
    have hincludes := mem_getD_modify (h.length_targets ▸ hfile) target
    have hincludedBy := mem_getD_modify (h.length_sources ▸ htarget) file
    exact
      { length_targets := (List.length_modify ..).trans h.length_targets
        length_sources := (List.length_modify ..).trans h.length_sources
        nodup := fun f => nodup_getD_modify (h.nodup f) hnew.2
        nodup_includedBy := fun f =>
          nodup_getD_modify (h.nodup_includedBy f) fun hin => hnew.2 (h.mem_includedBy.mp hin)
        lt := fun hf => ((hincludes _ _).mp hf).elim h.lt fun he => he.2 ▸ htarget
        mem_includedBy := by
          intro f t
          rw [includedBy, hincludedBy, includes, hincludes]
          exact or_congr h.mem_includedBy And.comm }

theorem addEdges (targets : List FileId) (htargets : ∀ t ∈ targets, t < n) :
    (targets.foldl (IncludeGraph.addEdge file) g).Valid n ∧ ∀ f t,
      t ∈ (targets.foldl (IncludeGraph.addEdge file) g).includes f ↔
        t ∈ g.includes f ∨ (f = file ∧ t ∈ targets ∧ t ≠ file) := by
  induction targets generalizing g with
  | nil => exact ⟨h, fun f t => by simp⟩
  | cons target targets ih =>
    have hstep := h.addEdge hfile (htargets target List.mem_cons_self)
    obtain ⟨hvalid, hmem⟩ := ih hstep fun t ht => htargets t (List.mem_cons_of_mem target ht)
    refine ⟨hvalid, fun f t => ?_⟩
    rw [List.foldl_cons, hmem, h.mem_includes_addEdge hfile, List.mem_cons]
    grind

end Valid

theorem resolve?_lt (h : resolve? searchPaths paths including i = some target) :
    target < paths.length := by
  obtain ⟨p, -, hp⟩ := List.exists_of_findSome?_eq_some h
  exact (List.findIdx?_eq_some_iff_getElem.mp hp).1

section run

variable (searchPaths : List Path) {paths : List Path} {g : IncludeGraph} (h : g.Valid paths.length)

include h

/-- A file gets an edge for each of its directives that names another file. -/
theorem Valid.addFile (path : Path) (directives : List Include) (hfile : file < paths.length) :
    (g.addFile searchPaths paths ((path, directives), file)).Valid paths.length ∧ ∀ f target,
      target ∈ (g.addFile searchPaths paths ((path, directives), file)).includes f ↔
        target ∈ g.includes f ∨ (f = file ∧
          (∃ i ∈ directives, resolve? searchPaths paths path i = some target) ∧ target ≠ file) := by
  have hrun := h.addEdges hfile (directives.filterMap (resolve? searchPaths paths path))
    fun target ht => by
      obtain ⟨i, -, hi⟩ := List.mem_filterMap.mp ht
      exact resolve?_lt hi
  simp only [List.mem_filterMap] at hrun
  exact hrun

theorem Valid.addFiles (files : List ((Path × List Include) × FileId))
    (hfiles : ∀ f ∈ files, f.2 < paths.length) :
    (files.foldl (IncludeGraph.addFile searchPaths paths) g).Valid paths.length ∧ ∀ file target,
      target ∈ (files.foldl (IncludeGraph.addFile searchPaths paths) g).includes file ↔
        target ∈ g.includes file ∨ (target ≠ file ∧ ∃ path directives,
          ((path, directives), file) ∈ files ∧
            ∃ i ∈ directives, resolve? searchPaths paths path i = some target) := by
  induction files generalizing g with
  | nil => exact ⟨h, fun file target => by simp⟩
  | cons f files ih =>
    obtain ⟨⟨path, directives⟩, source⟩ := f
    have hstep := h.addFile searchPaths path directives (hfiles _ List.mem_cons_self)
    obtain ⟨hvalid, hmem⟩ := ih hstep.1 fun f hf => hfiles f (List.mem_cons_of_mem _ hf)
    refine ⟨hvalid, fun file target => ?_⟩
    rw [List.foldl_cons, hmem, hstep.2]
    simp only [List.mem_cons, Prod.mk.injEq]
    grind

end run

variable {searchPaths : List Path} {files : List (Path × List Include)}

theorem ofFiles_run :
    (ofFiles searchPaths files).Valid files.length ∧ ∀ file target,
      target ∈ (ofFiles searchPaths files).includes file ↔
        target ≠ file ∧ Names searchPaths files file target := by
  have hlength : (files.map (·.1)).length = files.length := List.length_map ..
  have hstart : (ofSize files.length).Valid (files.map (·.1)).length :=
    hlength ▸ ofSize_valid files.length
  obtain ⟨hvalid, hmem⟩ := hstart.addFiles searchPaths files.zipIdx fun f hf =>
    hlength ▸ (List.mem_zipIdx' hf).1
  refine ⟨hlength ▸ hvalid, fun file target => ?_⟩
  rw [ofFiles, hmem, Names]
  simp only [List.mem_zipIdx_iff_getElem?, not_mem_includes_ofSize, false_or]

theorem ofFiles_valid : (ofFiles searchPaths files).Valid files.length := ofFiles_run.1

theorem includes_iff :
    (ofFiles searchPaths files).Includes file target ↔
      target ≠ file ∧ Names searchPaths files file target :=
  ofFiles_run.2 file target

end IncludeGraph

end CppRefactor
