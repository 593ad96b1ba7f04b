import CppRefactor.Proofs.Symbols.Placement

/-!
The scope that lookups at an offset begin in. Of the scopes at the offset it is the outermost of
those with the smallest span: where several have one span, as the namespaces of a definition under
a nested name do, it is not the innermost.
-/

namespace CppRefactor

theorem Span.contains_iff {s : Span} : s.contains offset = true ↔ offset ∈ s.offsets := by
  simp [contains, offsets]

/-- A span inside another one that is not shorter is the same, if there is an offset in it. -/
theorem Span.Within.eq_of_length_le {s t : Span} (h : s.Within t) (ho : offset ∈ s.offsets)
    (hle : t.length ≤ s.length) : s = t := by
  obtain ⟨start, stop⟩ := s
  obtain ⟨start', stop'⟩ := t
  obtain ⟨hstart, hstop⟩ := h
  obtain ⟨hge, hlt⟩ := ho
  dsimp only [length] at *
  rw [Span.mk.injEq]
  omega

namespace SymbolTable

variable {t t' : SymbolTable} {file : FileId} {offset : Nat}

theorem Nested.around_le (h : t.Nested) (hij : t.Around i j) : j ≤ i := by
  induction hij with
  | refl => exact Nat.le_refl i
  | tail _ hp ih => exact Nat.le_trans (Nat.le_of_lt (h.parent_lt hp)) ih

theorem Nested.around_within (h : t.Nested) (hij : t.Around i j) :
    (t.scope i).span.Within (t.scope j).span := by
  induction hij with
  | refl => exact .refl _
  | tail _ hp ih => exact ih.trans (h.within hp)

theorem Nested.parent_of_mem_children (h : t.Nested) (hc : c ∈ (t.scope i).children) :
    (t.scope c).parent = some i := by
  have hcount := List.count_pos_iff.mpr hc
  rw [h.children] at hcount
  split at hcount
  · assumption
  · cases hcount

/-- The scope that is found at an offset. It is at the offset if any is. Those with its span are in
it, and the others at the offset are around it. -/
structure IsFoundAt (t : SymbolTable) (file : FileId) (offset : Nat) (i : ScopeId) : Prop where
  isIn : t.IsIn file i
  contains : t.IsIn file j → offset ∈ (t.scope j).span.offsets →
    offset ∈ (t.scope i).span.offsets
  inside : t.IsIn file j → offset ∈ (t.scope j).span.offsets →
    (t.scope j).span = (t.scope i).span → t.Around j i
  around : t.IsIn file j → offset ∈ (t.scope j).span.offsets →
    (t.scope j).span ≠ (t.scope i).span → t.Around i j

theorem Nested.isFoundAt_of_leastBy (h : t.Nested) (ht : t.Indexed)
    (hi : leastBy (fun s => (t.scope s).span.length)
      ((t.scopesOf file).filter fun s => (t.scope s).span.contains offset) = some i) :
    t.IsFoundAt file offset i := by
  obtain ⟨front, back, hsplit, hfront, hback⟩ := leastBy_split hi
  have hmem (j : ScopeId) : j ∈ front ++ i :: back ↔
      t.IsIn file j ∧ offset ∈ (t.scope j).span.offsets := by
    rw [← hsplit, List.mem_filter, ht.mem_scopesOf, Span.contains_iff]
  have hsorted : (front ++ i :: back).Pairwise (· < ·) :=
    hsplit ▸ (ht.pairwise_scopesOf file).filter _
  have hlater : ∀ j ∈ back, i < j :=
    (List.pairwise_cons.mp (List.pairwise_append.mp hsorted).2.1).1
  obtain ⟨hin, hoffset⟩ := (hmem i).mp (List.mem_append_right _ List.mem_cons_self)
  -- Of one span, the scope with the lowest number is found, and it is around those behind it.
  have hshorter : ∀ j, j ∈ front ++ i :: back → (t.scope j).span.length ≤ (t.scope i).span.length →
      i ≤ j := by
    intro j hj hle
    rcases List.mem_append.mp hj with hj | hj
    · exact absurd hle (Nat.not_le.mpr (hfront j hj))
    · rcases List.mem_cons.mp hj with rfl | hj
      · exact Nat.le_refl _
      · exact Nat.le_of_lt (hlater j hj)
  have hleast : ∀ j, j ∈ front ++ i :: back →
      (t.scope i).span.length ≤ (t.scope j).span.length := by
    intro j hj
    rcases List.mem_append.mp hj with hj | hj
    · exact Nat.le_of_lt (hfront j hj)
    · rcases List.mem_cons.mp hj with rfl | hj
      · exact Nat.le_refl _
      · exact hback j hj
  refine ⟨hin, fun _ _ => hoffset, fun {j} hj ho heq => ?_, fun {j} hj ho hne => ?_⟩
  · rcases h.apart hin hj hoffset ho with hij | hji
    · have hle := hshorter j ((hmem j).mpr ⟨hj, ho⟩) (Nat.le_of_eq (congrArg Span.length heq))
      exact Nat.le_antisymm hle (h.around_le hij) ▸ .refl
    · exact hji
  · rcases h.apart hin hj hoffset ho with hij | hji
    · exact hij
    · have hle := hleast j ((hmem j).mpr ⟨hj, ho⟩)
      exact absurd ((h.around_within hji).eq_of_length_le ho hle) hne

/-- The file has a scope of its own. -/
def HasBody (t : SymbolTable) (file : FileId) : Prop :=
  ∃ i, t.IsIn file i ∧ (t.scope i).kind = .file

theorem HasBody.mono (h : t.HasBody file) (ht : t.Extends t') : t'.HasBody file := by
  obtain ⟨i, hi, hkind⟩ := h
  exact ⟨i, hi.mono ht, (Scope.core_inj (ht.scope i hi.lt)).1.trans hkind⟩

theorem addFile_hasBody (t : SymbolTable) (file : FileId) (span : Span) :
    (t.addFile file span).2.HasBody file := by
  have hself : (t.addFile file span).2.scope t.scopes.size = fileScope file span := by
    rw [scope_addFile, if_pos rfl]
  have hsize : (t.addFile file span).2.scopes.size = t.scopes.size + 1 := Array.size_push ..
  exact ⟨t.scopes.size, ⟨hsize ▸ Nat.lt_succ_self _, hself ▸ rfl⟩, hself ▸ rfl⟩

theorem declareFiles_hasBody {files : List SourceFile}
    (hfiles : ∀ f ∈ files, ∃ text, f.tree = (parse text).tree) (h : t.Sound)
    (hl : ∀ other, k ≤ other → t.Lacks other) (hge : k ≤ file) (hlt : file < k + files.length) :
    let t' := (files.zipIdx k).foldl (fun (t : SymbolTable) (f, id) => t.declareFile id f.tree) t
    t'.HasBody file := by
  induction files generalizing t k with
  | nil => exact absurd hlt (Nat.not_lt.mpr hge)
  | cons f files ih =>
    obtain ⟨⟨text, htext⟩, hfiles⟩ := List.forall_mem_cons.mp hfiles
    rw [List.zipIdx_cons, List.foldl_cons]
    dsimp only
    rw [htext]
    have hg := declareFile_grows h (hl k (Nat.le_refl k)) text
    have hl' : ∀ other, k + 1 ≤ other → (t.declareFile k (parse text).tree).Lacks other :=
      fun other hle => (hl other (Nat.le_of_succ_le hle)).grows hg (Nat.ne_of_lt hle)
    rcases Nat.eq_or_lt_of_le hge with rfl | hgt
    · have hwalk := declareFile_walk h (hl k (Nat.le_refl k)) text
      exact ((t.addFile_hasBody k _).mono hwalk.toExtends).mono
        (declareFiles_sound hfiles hg.sound hl').2
    · rw [List.length_cons, Nat.add_comm files.length, ← Nat.add_assoc] at hlt
      exact ih hfiles hg.sound hl' hgt hlt

theorem symbolsOf_hasBody {files : List SourceFile} (graph : IncludeGraph)
    (hfiles : ∀ f ∈ files, ∃ text, f.tree = (parse text).tree) (hfile : file < files.length) :
    (Snapshot.symbolsOf files graph).HasBody file := by
  have hl (other : FileId) : SymbolTable.empty.Lacks other :=
    ⟨fun i hi => absurd hi (Nat.not_lt_zero i), nofun⟩
  have hbody := declareFiles_hasBody (k := 0) hfiles .empty (fun other _ => hl other)
    (Nat.zero_le file) (hfile.trans_eq (Nat.zero_add _).symm)
  have hsound := (declareFiles_sound (k := 0) hfiles .empty fun other _ => hl other).1
  obtain ⟨hsound, ht⟩ := hsound.setAllVisible graph.allIncludes (List.range files.length)
  exact (hbody.mono ht).mono hsound.linked.toExtends

theorem HasBody.fileBody? (h : t.HasBody file) (ht : t.Indexed) :
    ∃ i, t.fileBody? file = some i := by
  obtain ⟨i, hi, hkind⟩ := h
  rw [ht.fileBody]
  refine ⟨_, List.getLast?_eq_some_getLast (List.ne_nil_of_mem (mem_scopesWhere.mpr ⟨hi.lt, ?_⟩))⟩
  rw [hkind, hi.file, BEq.rfl, BEq.rfl, Bool.and_self]

theorem Nested.innermostScope? (h : t.Nested) (ht : t.Indexed) (hbody : t.HasBody file)
    (offset : Nat) :
    ∃ i, t.innermostScope? file offset = some i ∧ t.IsFoundAt file offset i := by
  cases hleast : leastBy (fun s => (t.scope s).span.length)
      ((t.scopesOf file).filter fun s => (t.scope s).span.contains offset) with
  | some i =>
    refine ⟨i, ?_, h.isFoundAt_of_leastBy ht hleast⟩
    rw [SymbolTable.innermostScope?, hleast, Option.some_or]
  | none =>
    obtain ⟨i, hi⟩ := hbody.fileBody? ht
    have hnone : ∀ j, t.IsIn file j → offset ∉ (t.scope j).span.offsets := by
      intro j hj ho
      have hmem : j ∈ (t.scopesOf file).filter fun s => (t.scope s).span.contains offset :=
        List.mem_filter.mpr ⟨ht.mem_scopesOf.mpr hj, Span.contains_iff.mpr ho⟩
      obtain ⟨b, hb⟩ := leastBy_isSome (fun s => (t.scope s).span.length) hmem
      cases hleast.symm.trans hb
    refine ⟨i, ?_, ?_⟩
    · rw [SymbolTable.innermostScope?, hleast, Option.none_or, hi]
    · exact ⟨ht.isIn_of_fileBody? hi,
        fun hj ho => absurd ho (hnone _ hj), fun hj ho => absurd ho (hnone _ hj),
        fun hj ho => absurd ho (hnone _ hj)⟩

end SymbolTable

/-- At every offset of a file a scope of it is found. It is at the offset if any scope is, and then
all others at the offset are around it, except that those with its span are in it. So it is the
innermost scope there unless a scope directly in it has its span. -/
theorem scope_found (searchPaths : List Path) (headers : List Header)
    (documents : PathMap Document) :
    let s := Snapshot.ofDocuments searchPaths headers documents
    let t := s.symbols
    ∀ file < s.files.size, ∀ offset, ∃ i, t.innermostScope? file offset = some i ∧
      t.IsFoundAt file offset i ∧
      ∀ c ∈ (t.scope i).children, offset ∈ (t.scope c).span.offsets →
        (t.scope c).span = (t.scope i).span := by
  intro s t file hfile offset
  obtain ⟨t₀, hsound, -, ht⟩ := symbols_linked searchPaths headers documents
  have hn : t.Nested := Eq.subst ht.symm (hsound.linked.nested hsound.nested)
  have hbody : t.HasBody file := by
    refine SymbolTable.symbolsOf_hasBody _ (fun f hf => ?_) hfile
    obtain ⟨⟨path, document⟩, -, rfl⟩ := List.mem_map.mp hf
    exact ⟨document.text, rfl⟩
  have hindexed : t.Indexed := SymbolTable.indexed_symbolsOf ..
  obtain ⟨i, hfound, hi⟩ := hn.innermostScope? hindexed hbody offset
  refine ⟨i, hfound, hi, fun c hc ho => ?_⟩
  have hp := hn.parent_of_mem_children hc
  have hlt := hn.parent_lt hp
  have hin : t.IsIn file c :=
    ⟨t.lt_size_of_parent hp, (hn.file_eq hp).trans hi.isIn.file⟩
  by_contra hne
  exact absurd (hn.around_le (hi.around hin ho hne)) (Nat.not_le.mpr hlt)

/-- In a namespace that is defined under a nested name, the scope that is found is that of the first
segment. What is declared in the namespace is not found from there. -/
theorem first_segment_found :
    let t := (Snapshot.ofDocuments [] [] ⟨[
      (.ofString "/a.cpp", ⟨"namespace A::B \x7b int x; int y = x; \x7d\n", 0⟩)]⟩).symbols
    t.innermostScope? 0 32 = some 1 ∧ 2 ∈ (t.scope 1).children ∧
      (t.scope 2).span.contains 32 = true ∧
      t.lookup ⟨⟨0, 1, 32⟩, .any, []⟩ "x" = [] ∧ t.lookup ⟨⟨0, 2, 32⟩, .any, []⟩ "x" = [3] := by
  decide +kernel

end CppRefactor
