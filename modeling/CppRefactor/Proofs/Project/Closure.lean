import CppRefactor.Proofs.Project.IncludeEdges
import CppRefactor.Proofs.Symbols.Built

/-!
A file sees itself and what it includes through other files.
-/

namespace CppRefactor

open Relation (TransGen ReflTransGen)

namespace SymbolTable

theorem visible_growth (visible : List (FileId × List FileId)) :
    GrowthInvariant fun t => t.visible = visible where
  addScope _ parent owner span h := by
    unfold addScope
    dsimp only
    split
    · split
      · exact h
      · exact h
    · exact h
  addDetached s h := h
  add s h := by
    unfold add
    dsimp only
    split
    · exact h
    · exact h
  declareNamespace name block span h := by
    unfold declareNamespace
    split
    · exact h
    · unfold addNamespace add
      exact h
  putOutOfLine id h := h
  addUsing id d h := h
  addUsingDeclaration id path offset h := h
  setContext id cls h := h
  setFlags id f h := h
  setKind id kind h := h
  link declaration definition h := h

theorem lookup_filter_ne {visible : List (FileId × List FileId)} (h : file ≠ other) :
    (visible.filter (·.1 != other)).lookup file = visible.lookup file := by
  induction visible with
  | nil => rfl
  | cons entry visible ih =>
    obtain ⟨key, files⟩ := entry
    rw [List.filter_cons]
    split
    · rw [List.lookup_cons, List.lookup_cons, ih]
    · rename_i hkey
      obtain rfl : key = other := by simpa using hkey
      rw [List.lookup_cons, beq_false_of_ne h, ih]

theorem seenFrom_setVisible_self (t : SymbolTable) (file : FileId) (files : List FileId) :
    (t.setVisible file files).seenFrom file =
      if files.contains file then files else file :: files := by
  simp [seenFrom, setVisible]

theorem seenFrom_setVisible_ne (t : SymbolTable) (files : List FileId) (h : file ≠ other) :
    (t.setVisible other files).seenFrom file = t.seenFrom file := by
  rw [seenFrom, setVisible, seenFrom]
  dsimp only
  rw [List.lookup_cons, beq_false_of_ne h, lookup_filter_ne h]

theorem seenFrom_declareFile_ne (t : SymbolTable) (root : Tree) (h : file ≠ other) :
    (t.declareFile other root).seenFrom file = t.seenFrom file := by
  have hvisible : (t.declareFile other root).visible = _ := (visible_growth _).declareFile rfl
  rw [seenFrom, hvisible, addFile, seenFrom]
  dsimp only
  split
  · rfl
  · rw [List.lookup_cons, beq_false_of_ne h]
    rfl

theorem seenFrom_declareFiles (t : SymbolTable) {files : List (SourceFile × FileId)}
    (h : ∀ f ∈ files, file ≠ f.2) :
    (files.foldl (fun (t : SymbolTable) (f, id) => t.declareFile id f.tree) t).seenFrom file =
      t.seenFrom file := by
  induction files generalizing t with
  | nil => rfl
  | cons f files ih =>
    rw [List.foldl_cons, ih _ fun g hg => h g (List.mem_cons_of_mem f hg)]
    exact seenFrom_declareFile_ne t f.1.tree (h f List.mem_cons_self)

/-- Of the files that are told what they see, each sees that and itself. -/
theorem seenFrom_setAll (t : SymbolTable) (graph : IncludeGraph) (n : Nat) (file : FileId) :
    ((List.range n).foldl (fun (t : SymbolTable) id => t.setVisible id (graph.allIncludes id))
      t).seenFrom file =
      if file < n then
        if (graph.allIncludes file).contains file then graph.allIncludes file
        else file :: graph.allIncludes file
      else t.seenFrom file := by
  induction n with
  | zero => rfl
  | succ n ih =>
    rw [List.range_succ, List.foldl_append, List.foldl_cons, List.foldl_nil]
    by_cases h : file = n
    · rw [h, seenFrom_setVisible_self, if_pos n.lt_succ_self]
    · rw [seenFrom_setVisible_ne _ _ h, ih]
      have hlt : file < n ↔ file < n + 1 :=
        ⟨Nat.lt_succ_of_lt, fun hn => Nat.lt_of_le_of_ne (Nat.le_of_lt_succ hn) h⟩
      simp only [hlt]

theorem isSeenFrom_symbolsOf {files : List SourceFile} {graph : IncludeGraph}
    (h : graph.Valid files.length) :
    (Snapshot.symbolsOf files graph).isSeenFrom file target = true ↔
      file = target ∨ target ∈ graph.allIncludes file := by
  have hlinked : (Snapshot.symbolsOf files graph).visible = _ := (visible_growth _).withLinks rfl
  rw [isSeenFrom, seenFrom, hlinked, ← seenFrom, seenFrom_setAll]
  split
  · rw [Bool.or_eq_true, beq_iff_eq, List.contains_iff_mem]
    split
    · exact Iff.rfl
    · grind
  · rename_i hlt
    have hnone : graph.allIncludes file = [] := by
      have hincludes : graph.includes file = [] := by
        have hlength : graph.targets.length ≤ file := h.length_targets ▸ Nat.le_of_not_lt hlt
        rw [IncludeGraph.includes, List.getElem?_eq_none hlength, Option.getD_none]
      rw [IncludeGraph.allIncludes, IncludeGraph.reachable, IncludeGraph.explore, hincludes]
      cases graph.targets.length <;> rfl
    have hempty : SymbolTable.empty.seenFrom file = [] := rfl
    rw [seenFrom_declareFiles, hempty, hnone]
    · simp
    · rintro ⟨f, id⟩ hf rfl
      exact hlt (List.mem_zipIdx' hf).1

end SymbolTable

theorem Snapshot.graph_valid {searchPaths : List Path} {headers : List Header}
    {documents : PathMap Document} :
    let s := Snapshot.ofDocuments searchPaths headers documents
    s.graph.Valid s.files.size := by
  intro s
  have h : s.graph.Valid (s.files.toList.map fun f => (f.path, f.includes)).length :=
    IncludeGraph.ofFiles_valid
  simpa using h

theorem isSeenFrom_iff {searchPaths : List Path} {headers : List Header}
    {documents : PathMap Document} {file target : FileId} :
    let s := Snapshot.ofDocuments searchPaths headers documents
    s.symbols.isSeenFrom file target = true ↔ ReflTransGen s.graph.Includes file target := by
  intro s
  have hvalid : s.graph.Valid s.files.size := Snapshot.graph_valid
  refine (SymbolTable.isSeenFrom_symbolsOf hvalid).trans ?_
  rw [hvalid.mem_allIncludes, Relation.reflTransGen_iff_eq_or_transGen]
  grind

/-- The files that a file includes through others are listed once each: they are the other files
that one or more edges lead to from it, where an edge leads to each other file that a directive
names. The lists of those that include a file are the same edges backwards, and those that include
it through others are found along them. A file sees itself, and what is seen from files that it
sees. -/
theorem includes_closed (searchPaths : List Path) (headers : List Header)
    (documents : PathMap Document) :
    let s := Snapshot.ofDocuments searchPaths headers documents
    let sources := s.files.toList.map fun f => (f.path, f.includes)
    (∀ file target, s.graph.Includes file target ↔
      target ≠ file ∧ IncludeGraph.Names searchPaths sources file target) ∧
    (∀ file, (s.graph.includedBy file).Nodup ∧ ∀ includer,
      includer ∈ s.graph.includedBy file ↔ s.graph.Includes includer file) ∧
    (∀ file, (s.graph.allIncludes file).Nodup ∧ ∀ target,
      target ∈ s.graph.allIncludes file ↔
        target ≠ file ∧ TransGen s.graph.Includes file target) ∧
    (∀ file target, target ∈ s.graph.allIncludes file ↔ file ∈ s.graph.allIncluders target) ∧
    (∀ file, s.symbols.isSeenFrom file file = true) ∧
    ∀ file target other, s.symbols.isSeenFrom file target = true →
      s.symbols.isSeenFrom target other = true → s.symbols.isSeenFrom file other = true := by
  intro s sources
  have hvalid : s.graph.Valid s.files.size := Snapshot.graph_valid
  refine ⟨fun _ _ => IncludeGraph.includes_iff, fun file => ?_, fun file => ?_, fun _ _ => ?_,
    fun file => ?_, ?_⟩
  · exact ⟨hvalid.nodup_includedBy file, fun _ => hvalid.mem_includedBy⟩
  · exact ⟨hvalid.allIncludes_nodup file, fun _ => hvalid.mem_allIncludes⟩
  · exact hvalid.mem_allIncludes_iff
  · exact isSeenFrom_iff.mpr .refl
  · intro file target other h h'
    exact isSeenFrom_iff.mpr ((isSeenFrom_iff.mp h).trans (isSeenFrom_iff.mp h'))

end CppRefactor
