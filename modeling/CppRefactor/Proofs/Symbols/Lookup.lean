import CppRefactor.Symbols.Lookup
import Mathlib.Data.List.Basic
import Mathlib.Data.List.Induction

/-!
Lookups of paths: the last segment of a path is looked up in what the path before it leads to.
-/

namespace CppRefactor

namespace SymbolTable

theorem mem_foldl_distinct [BEq α] [LawfulBEq α] {a : α} (as found : List α) :
    a ∈ as.foldl (fun found b => if found.contains b then found else found ++ [b]) found ↔
      a ∈ found ∨ a ∈ as := by
  induction as generalizing found with
  | nil => simp
  | cons b as ih =>
    rw [List.foldl_cons, ih]
    split
    · rename_i hb
      have hb := List.contains_iff_mem.mp hb
      grind
    · grind

@[simp] theorem mem_distinct [BEq α] [LawfulBEq α] {a : α} {as : List α} :
    a ∈ distinct as ↔ a ∈ as := by
  rw [distinct, mem_foldl_distinct]
  simp

theorem prefix_foldl_distinct [BEq α] (as found : List α) :
    found <+: as.foldl (fun found a => if found.contains a then found else found ++ [a]) found := by
  induction as generalizing found with
  | nil => exact List.prefix_rfl
  | cons a as ih =>
    refine List.IsPrefix.trans ?_ (ih _)
    dsimp only
    split
    · exact List.prefix_rfl
    · exact List.prefix_append found [a]

theorem distinct_cons [BEq α] (a : α) (as : List α) : ∃ rest, distinct (a :: as) = a :: rest := by
  obtain ⟨rest, hrest⟩ := prefix_foldl_distinct as [a]
  exact ⟨rest, hrest.symm⟩

theorem nodup_distinct [BEq α] [LawfulBEq α] (as : List α) : (distinct as).Nodup := by
  suffices h : ∀ found : List α, found.Nodup →
      (as.foldl (fun found b => if found.contains b then found else found ++ [b]) found).Nodup from
    h [] List.nodup_nil
  induction as with
  | nil => exact fun found h => h
  | cons b as ih =>
    intro found h
    refine ih _ ?_
    dsimp only
    split
    · exact h
    · rename_i hb
      have hb : b ∉ found := fun hmem => hb (List.contains_iff_mem.mpr hmem)
      refine List.nodup_append.mpr ⟨h, List.pairwise_singleton _ b, fun a ha c hc hac => hb ?_⟩
      rwa [← List.mem_singleton.mp hc, ← hac]

theorem distinct_concat [BEq α] [LawfulBEq α] (as : List α) (a : α) :
    distinct (as ++ [a]) = if as.contains a then distinct as else distinct as ++ [a] := by
  have hmem : (distinct as).contains a = as.contains a := by
    rw [Bool.eq_iff_iff, List.contains_iff_mem, List.contains_iff_mem, mem_distinct]
  rw [← hmem, distinct, List.foldl_append]
  rfl

/-- The elements that are left stand in the order in which they are first met. -/
theorem pairwise_distinct [BEq α] [LawfulBEq α] (as : List α) :
    (distinct as).Pairwise fun a b => as.idxOf a < as.idxOf b := by
  induction as using List.reverseRecOn with
  | nil => exact .nil
  | append_singleton as a ih =>
    have hold : (distinct as).Pairwise fun b c => (as ++ [a]).idxOf b < (as ++ [a]).idxOf c := by
      refine ih.imp_of_mem fun hb hc hlt => ?_
      rwa [List.idxOf_append_of_mem (mem_distinct.mp hb),
        List.idxOf_append_of_mem (mem_distinct.mp hc)]
    rw [distinct_concat]
    split
    · exact hold
    · rename_i hnew
      have hnew : a ∉ as := fun hmem => hnew (List.contains_iff_mem.mpr hmem)
      refine List.pairwise_append.mpr ⟨hold, List.pairwise_singleton _ _, fun b hb c hc => ?_⟩
      have hb := mem_distinct.mp hb
      rw [List.mem_singleton.mp hc, List.idxOf_append_of_mem hb, List.idxOf_append_of_notMem hnew]
      exact Nat.lt_add_right _ (List.idxOf_lt_length_of_mem hb)

theorem isEmpty_concat (as : List α) (a : α) : (as ++ [a]).isEmpty = false :=
  List.isEmpty_eq_false_iff.mpr (List.concat_ne_nil a as)

/-- What the last segment of a path is looked up in. -/
def ownerOf? (t : SymbolTable) (found : List SymbolId) : Option SymbolId :=
  found.find? fun s => (t.symbol s).kind.canQualify

theorem pathBehind_concat (t : SymbolTable) (below : Level) (q : Query) (found : List SymbolId)
    (segments : List PathSegment) (last : PathSegment) :
    t.pathBehind below q found (segments ++ [last]) =
      ((t.ownerOf? (t.pathBehind below { q with filter := .scopes } found segments)).map
        fun owner => below.member q owner last.name).getD [] := by
  induction segments generalizing found with
  | nil =>
    simp only [List.nil_append, pathBehind, ownerOf?]
    split
    · rename_i h
      rw [h]
      rfl
    · rename_i owner h
      rw [h]
      rfl
  | cons segment rest ih =>
    simp only [List.cons_append, pathBehind, ownerOf?]
    split
    · rfl
    · rename_i owner h
      rw [isEmpty_concat, if_neg Bool.false_ne_true, ite_self]
      exact ih _

theorem lookupPath_eq (t : SymbolTable) (q : Query) (path : TypePath) :
    t.lookupPath q path = t.pathAt (t.level (lookupDepth - 1)) q path := rfl

theorem lookupPath_append (t : SymbolTable) (q : Query) (isGlobal : Bool)
    {segments : List PathSegment} (hn : segments ≠ []) (last : PathSegment) :
    t.lookupPath q ⟨isGlobal, segments ++ [last]⟩ =
      ((t.ownerOf? (t.lookupPath { q with filter := .scopes } ⟨isGlobal, segments⟩)).map
        fun owner => (t.level (lookupDepth - 1)).member q owner last.name).getD [] := by
  rw [lookupPath_eq, lookupPath_eq]
  generalize t.level (lookupDepth - 1) = below
  cases segments with
  | nil => exact absurd rfl hn
  | cons first rest =>
    simp only [pathAt, List.cons_append]
    rw [isEmpty_concat, if_neg Bool.false_ne_true, ite_self]
    exact pathBehind_concat t below q _ _ _

/-- A path of names leads through what the names before the last lead to. -/
theorem lookupPath_concat (t : SymbolTable) (q : Query) {names : List String} (hn : names ≠ [])
    (name : String) :
    t.lookupPath q (.ofNames (names ++ [name])) =
      ((t.ownerOf? (t.lookupPath { q with filter := .scopes } (.ofNames names))).map
        fun owner => (t.level (lookupDepth - 1)).member q owner name).getD [] := by
  rw [TypePath.ofNames, List.map_append]
  exact t.lookupPath_append q false (mt List.map_eq_nil_iff.mp hn) ⟨name, []⟩

end SymbolTable

end CppRefactor
