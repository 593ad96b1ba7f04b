import CppRefactor.Proofs.Symbols.Indexed
import CppRefactor.Proofs.Symbols.Walk

/-!
The symbols of files: no two of them have their names in one place, and the scopes of each file are
a tree.
-/

namespace CppRefactor

namespace SymbolTable

open Declare (Free Fills Ground Grows)

variable {t t' : SymbolTable} {file : FileId}

/-- Nothing is declared in a file. -/
structure Lacks (t : SymbolTable) (file : FileId) : Prop where
  scopes : ∀ i < t.scopes.size, (t.scope i).file ≠ file
  symbols : ∀ i ∈ t.declared, (t.symbol i).file ≠ file

theorem Lacks.free (h : t.Lacks file) (span : Span) :
    Free (t.addFile file span).2 ⟨file, t.scopes.size⟩ (.of span) := by
  have hself : (t.addFile file span).2.scope t.scopes.size = fileScope file span := by
    rw [scope_addFile, if_pos rfl]
  have hsize : (t.addFile file span).2.scopes.size = t.scopes.size + 1 := Array.size_push ..
  constructor
  · exact ⟨hsize ▸ Nat.lt_succ_self _, hself ▸ rfl⟩
  · rw [hself]
    exact .refl span
  · intro i o hi _ _
    obtain ⟨hlt, hfile⟩ := hi
    rw [hsize] at hlt
    rw [scope_addFile] at hfile
    split at hfile
    · rename_i he
      exact he ▸ .refl
    · rename_i hne
      exact absurd hfile (h.scopes i (Nat.lt_of_le_of_ne (Nat.le_of_lt_succ hlt) hne))
  · exact fun i hi hfile => absurd hfile (h.symbols i hi)

theorem declareFile_walk (h : t.Sound) (hl : t.Lacks file) (text : String) :
    Grows file Set.univ Set.univ (t.addFile file (parse text).tree.span).2
      (t.declareFile file (parse text).tree) := by
  have hroot : IsTreeOf text (parse text).tree := (parse text).tree.self_mem_preorder
  have hwalk : Fills ∅ ⟨file, t.scopes.size⟩ (.of (parse text).tree.span)
      ((parse text).tree.items.forM fun item =>
        Declare.visit (2 * (parse text).tree.depth) ⟨file, t.scopes.size⟩ (.ofItem item)) :=
    Declare.items_fills (fun _ _ => Declare.visit_fills _) hroot
  have hg := hwalk.grows ⟨(t.addFile file (parse text).tree.span).2, none⟩ (h.addFile hl.scopes _)
    (hl.free _) nofun
  exact hg.mono (Set.subset_univ _) (Set.subset_univ _)

theorem declareFile_grows (h : t.Sound) (hl : t.Lacks file) (text : String) :
    Grows file Set.univ Set.univ t (t.declareFile file (parse text).tree) := by
  have hfile : Grows file Set.univ Set.univ t (t.addFile file (parse text).tree.span).2 := by
    refine ⟨t.extends_addFile file _, h.addFile hl.scopes _, fun i hle hlt => ?_,
      fun i hle hlt => absurd hlt (Nat.not_lt.mpr hle)⟩
    have hsize : i < t.scopes.size + 1 := Nat.lt_of_lt_of_eq hlt (Array.size_push ..)
    rw [scope_addFile, if_pos (Nat.le_antisymm (Nat.le_of_lt_succ hsize) hle)]
    exact ⟨rfl, Set.subset_univ _⟩
  exact hfile.trans (declareFile_walk h hl text)

theorem Lacks.grows (h : t.Lacks other) (hg : Grows file r n t t') (hne : file ≠ other) :
    t'.Lacks other where
  scopes i hi hfile := by
    rcases Nat.lt_or_ge i t.scopes.size with hlt | hge
    · exact h.scopes i hlt ((Scope.core_inj (hg.scope i hlt)).2.2.2.1.symm.trans hfile)
    · exact hne ((hg.newScope i hge hi).1.symm.trans hfile)
  symbols i hi hfile := by
    obtain ⟨hpos, hi⟩ := t'.mem_declared.mp hi
    rcases Nat.lt_or_ge i t.symbols.size with hlt | hge
    · exact h.symbols i (t.mem_declared.mpr ⟨hpos, hlt⟩)
        ((Symbol.core_inj (hg.symbol i hlt)).2.2.1.symm.trans hfile)
    · exact hne ((hg.newSymbol i hge hi).1.symm.trans hfile)

theorem declareFiles_sound {files : List SourceFile}
    (hfiles : ∀ f ∈ files, ∃ text, f.tree = (parse text).tree) (h : t.Sound)
    (hl : ∀ other, k ≤ other → t.Lacks other) :
    let t' := (files.zipIdx k).foldl (fun (t : SymbolTable) (f, id) => t.declareFile id f.tree) t
    t'.Sound ∧ t.Extends t' := by
  induction files generalizing t k with
  | nil => exact ⟨h, .refl t⟩
  | cons f files ih =>
    obtain ⟨⟨text, htext⟩, hfiles⟩ := List.forall_mem_cons.mp hfiles
    rw [List.zipIdx_cons, List.foldl_cons]
    dsimp only
    rw [htext]
    have hg := declareFile_grows h (hl k (Nat.le_refl k)) text
    obtain ⟨hsound, ht⟩ := ih hfiles hg.sound fun other hle =>
      (hl other (Nat.le_of_succ_le hle)).grows hg (Nat.ne_of_lt hle)
    exact ⟨hsound, hg.toExtends.trans ht⟩

theorem extends_setVisible (t : SymbolTable) (file : FileId) (files : List FileId) :
    t.Extends (t.setVisible file files) :=
  ⟨Nat.le_refl _, Nat.le_refl _, fun _ _ => rfl, fun _ _ => rfl⟩

theorem Sound.setVisible (h : t.Sound) (file : FileId) (files : List FileId) :
    (t.setVisible file files).Sound := by
  have ht := t.extends_setVisible file files
  exact h.of_extends ht rfl rfl rfl (h.nested.congr rfl (fun _ => rfl) fun _ => rfl)
    (fun i hi => (h.scope i hi).mono ht) (fun i hi => (h.symbol i hi).mono ht) h.context

/-- What holds of a table and is kept by attaching and linking its definitions holds of the table
with its links. -/
theorem withLinks_induction {P : SymbolTable → Prop} (h : P t)
    (hattach : ∀ t' b, b.definition ∈ t.outOfLine → t.qualifiedOwner? b.definition = some b.owner →
      P t' → P (t'.attach b))
    (hlink : ∀ t' declaration definition, P t' → P (t'.link declaration definition)) :
    P t.withLinks := by
  have hattached {bs : List Belonging} (hbs : ∀ b ∈ bs, b.definition ∈ t.outOfLine ∧
      t.qualifiedOwner? b.definition = some b.owner) {t'} (h' : P t') : P (bs.foldl attach t') := by
    induction bs generalizing t' with
    | nil => exact h'
    | cons b bs ih =>
      obtain ⟨⟨hb, ho⟩, hbs⟩ := List.forall_mem_cons.mp hbs
      exact ih hbs (hattach t' b hb ho h')
  have hlinked {bs : List Belonging} {t'} (h' : P t') : P (bs.foldl linkOne t') := by
    induction bs generalizing t' with
    | nil => exact h'
    | cons b bs ih =>
      refine ih ?_
      unfold linkOne
      split
      · exact hlink t' _ _ h'
      · exact h'
  refine hlinked (hattached (fun b hb => ?_) h)
  obtain ⟨d, hd, hb⟩ := List.mem_filterMap.mp hb
  obtain ⟨o, ho, rfl⟩ := Option.map_eq_some_iff.mp hb
  exact ⟨hd, ho⟩

/-- The tables differ in the classes that are searched behind bodies, and in the kinds of some
functions. -/
structure Linked (t t' : SymbolTable) : Prop where
  scopes : t'.scopes.size = t.scopes.size
  symbols : t'.symbols.size = t.symbols.size
  namespaceIndex : t'.namespaceIndex = t.namespaceIndex
  scope : ∀ i, { t'.scope i with classContext := none } = { t.scope i with classContext := none }
  symbol : ∀ i, t'.symbol i = t.symbol i ∨ (t.symbol i).kind.isFunction = true ∧
    t'.symbol i = { t.symbol i with kind := .function }

theorem Linked.attach (h : t.Linked t') (ht : t.Sound) {b : Belonging}
    (hb : b.definition ∈ t.outOfLine) : t.Linked (t'.attach b) := by
  unfold SymbolTable.attach
  dsimp only
  split
  · split
    · refine ⟨(size_modifyScope ..).trans h.scopes, h.symbols, h.namespaceIndex, fun i => ?_,
        h.symbol⟩
      rw [← h.scope i]
      refine scope_modifyScope_eq t' (g := fun s => { s with classContext := none }) ?_ _ i
      exact fun _ => rfl
    · exact h
  · refine ⟨h.scopes, (size_modifySymbol ..).trans h.symbols, h.namespaceIndex, h.scope,
      fun i => ?_⟩
    rw [symbol_modifySymbol]
    split
    · rename_i hi
      refine .inr ⟨hi.1 ▸ (ht.outOfLine _ hb).kind, ?_⟩
      rcases h.symbol i with hs | ⟨-, hs⟩
      · rw [hs]
      · rw [hs]
    · exact h.symbol i

theorem Sound.linked (h : t.Sound) : t.Linked t.withLinks :=
  withLinks_induction ⟨rfl, rfl, rfl, fun _ => rfl, fun _ => .inl rfl⟩
    (fun _ _ hb _ h' => h'.attach h hb) fun _ _ _ h' =>
      ⟨h'.scopes, h'.symbols, h'.namespaceIndex, h'.scope, h'.symbol⟩

namespace Linked

variable (h : t.Linked t')

include h

theorem scope_eq (i : ScopeId) : (t'.scope i).core = (t.scope i).core ∧
    (t'.scope i).members = (t.scope i).members ∧ (t'.scope i).children = (t.scope i).children := by
  have hs := h.scope i
  simp only [Scope.mk.injEq] at hs
  simp [Scope.core, hs]

theorem toExtends : t.Extends t' where
  scopes := Nat.le_of_eq h.scopes.symm
  symbols := Nat.le_of_eq h.symbols.symm
  scope i _ := (h.scope_eq i).1
  symbol i _ := by
    rcases h.symbol i with hs | ⟨hk, hs⟩
    · rw [hs]
    · rw [hs, Symbol.core, Symbol.core]
      simp [hk]

theorem symbol_field {g : Symbol → α} (hg : ∀ s, g { s with kind := .function } = g s)
    (i : SymbolId) : g (t'.symbol i) = g (t.symbol i) := by
  rcases h.symbol i with hs | ⟨-, hs⟩
  · rw [hs]
  · rw [hs, hg]

theorem isFunction_eq (i : SymbolId) :
    (t'.symbol i).kind.isFunction = (t.symbol i).kind.isFunction := by
  rcases h.symbol i with hs | ⟨hk, hs⟩
  · rw [hs]
  · rw [hs, hk]
    rfl

theorem nested (hn : t.Nested) : t'.Nested :=
  hn.congr h.scopes (fun i => (h.scope_eq i).1) fun i => (h.scope_eq i).2.2

theorem declared_eq : t'.declared = t.declared := by
  rw [declared, declared, h.symbols]

end Linked

theorem Sound.setAllVisible (h : t.Sound) (seen : FileId → List FileId) (ids : List FileId) :
    let t' := ids.foldl (fun (t : SymbolTable) id => t.setVisible id (seen id)) t
    t'.Sound ∧ t.Extends t' := by
  induction ids generalizing t with
  | nil => exact ⟨h, .refl t⟩
  | cons id ids ih =>
    obtain ⟨hsound, ht⟩ := ih (h.setVisible id (seen id))
    exact ⟨hsound, (extends_setVisible t id _).trans ht⟩

theorem unlinked_sound {files : List SourceFile} (graph : IncludeGraph)
    (hfiles : ∀ f ∈ files, ∃ text, f.tree = (parse text).tree) :
    (Snapshot.unlinked files graph).Sound ∧
      SymbolTable.empty.Extends (Snapshot.unlinked files graph) := by
  obtain ⟨hsound, ht⟩ := declareFiles_sound (k := 0) hfiles .empty fun other _ =>
    ⟨fun i hi => absurd hi (Nat.not_lt_zero i), nofun⟩
  obtain ⟨hsound, ht'⟩ := hsound.setAllVisible graph.allIncludes (List.range files.length)
  exact ⟨hsound, ht.trans ht'⟩

/-- Where no two symbols have their names in one place, the index leads from there to each. -/
theorem Indexed.declaredAt_self (h : t.Indexed) (hd : ∀ i ∈ t.declared, ∀ j ∈ t.declared,
      (t.symbol i).file = (t.symbol j).file →
        (t.symbol i).nameSpan.start = (t.symbol j).nameSpan.start → i = j) (hi : i ∈ t.declared) :
    t.declaredAt? (t.symbol i).file (t.symbol i).nameSpan.start = some i := by
  have hmem := mem_symbolsWhere (p := fun s => s.file == (t.symbol i).file &&
    s.nameSpan.start == (t.symbol i).nameSpan.start).mpr ⟨hi, by simp⟩
  rw [h.declaredAt]
  generalize hfound : t.symbolsWhere _ = found at hmem ⊢
  cases hlast : found.getLast? with
  | none =>
    rw [List.getLast?_eq_none_iff.mp hlast] at hmem
    cases hmem
  | some j =>
    have hj := List.mem_of_getLast? hlast
    rw [← hfound, mem_symbolsWhere, Bool.and_eq_true, beq_iff_eq, beq_iff_eq] at hj
    rw [hd j hj.1 i hi hj.2.1 hj.2.2]

theorem Nested.exists_root (h : t.Nested) (hi : t.IsIn file i) :
    ∃ r, t.IsIn file r ∧ (t.scope r).parent = none ∧ t.Around i r := by
  induction i using Nat.strongRecOn with
  | _ i ih =>
    cases hp : (t.scope i).parent with
    | none => exact ⟨i, hi, hp, .refl⟩
    | some p =>
      have hlt := h.parent_lt hp
      have hin : t.IsIn file p :=
        ⟨Nat.lt_trans hlt hi.lt, (h.file_eq hp).symm.trans hi.file⟩
      obtain ⟨r, hr, hnone, hpr⟩ := ih p hlt hin
      exact ⟨r, hr, hnone, .head hp hpr⟩

end SymbolTable

/-- The symbols of documents before their definitions are linked. -/
def unlinkedSymbols (searchPaths : List Path) (documents : PathMap Document) : SymbolTable :=
  let files := documents.entries.map fun (p, d) => SourceFile.ofDocument p d
  Snapshot.unlinked files (.ofFiles searchPaths (files.map fun f => (f.path, f.includes)))

theorem symbols_eq_withLinks (searchPaths : List Path) (headers : List Header)
    (documents : PathMap Document) :
    (Snapshot.ofDocuments searchPaths headers documents).symbols =
      (unlinkedSymbols searchPaths documents).withLinks := rfl

theorem Snapshot.file?_ofDocuments (searchPaths : List Path) (headers : List Header)
    (documents : PathMap Document) (id : FileId) :
    (Snapshot.ofDocuments searchPaths headers documents).file? id =
      (documents.entries.map fun (p, d) => SourceFile.ofDocument p d)[id]? :=
  List.getElem?_toArray ..

theorem unlinkedSymbols_sound (searchPaths : List Path) (documents : PathMap Document) :
    (unlinkedSymbols searchPaths documents).Sound ∧
      SymbolTable.empty.Extends (unlinkedSymbols searchPaths documents) := by
  refine SymbolTable.unlinked_sound _ fun f hf => ?_
  obtain ⟨⟨path, document⟩, -, rfl⟩ := List.mem_map.mp hf
  exact ⟨document.text, rfl⟩

theorem symbols_linked (searchPaths : List Path) (headers : List Header)
    (documents : PathMap Document) : ∃ t : SymbolTable, t.Sound ∧ SymbolTable.empty.Extends t ∧
      (Snapshot.ofDocuments searchPaths headers documents).symbols = t.withLinks := by
  obtain ⟨hsound, hempty⟩ := unlinkedSymbols_sound searchPaths documents
  exact ⟨_, hsound, hempty, symbols_eq_withLinks ..⟩

/-- No two symbols have their names in one place. So each is found at its place, and none is put in
the place of another that was there before. -/
theorem symbols_apart (searchPaths : List Path) (headers : List Header)
    (documents : PathMap Document) :
    let t := (Snapshot.ofDocuments searchPaths headers documents).symbols
    (∀ i ∈ t.declared, ∀ j ∈ t.declared, i ≠ j →
      ((t.symbol i).file, (t.symbol i).nameSpan.start) ≠
        ((t.symbol j).file, (t.symbol j).nameSpan.start)) ∧
    ∀ i ∈ t.declared,
      t.declaredAt? (t.symbol i).file (t.symbol i).nameSpan.start = some i := by
  intro t
  obtain ⟨t₀, hsound, -, ht⟩ := symbols_linked searchPaths headers documents
  have hlinked : t₀.Linked t := Eq.subst ht.symm hsound.linked
  have hdistinct : ∀ i ∈ t.declared, ∀ j ∈ t.declared, (t.symbol i).file = (t.symbol j).file →
      (t.symbol i).nameSpan.start = (t.symbol j).nameSpan.start → i = j := by
    intro i hi j hj hfile hstart
    rw [hlinked.declared_eq] at hi hj
    obtain ⟨-, -, hfi, hni, -⟩ :=
      Symbol.core_inj (hlinked.toExtends.symbol i (t₀.mem_declared.mp hi).2)
    obtain ⟨-, -, hfj, hnj, -⟩ :=
      Symbol.core_inj (hlinked.toExtends.symbol j (t₀.mem_declared.mp hj).2)
    rw [hfi, hfj] at hfile
    rw [hni, hnj] at hstart
    exact hsound.distinct hi hj hfile hstart
  have hindexed : t.Indexed := SymbolTable.indexed_symbolsOf ..
  refine ⟨fun i hi j hj hne he => hne ?_, fun i hi => hindexed.declaredAt_self hdistinct hi⟩
  exact hdistinct i hi j hj (Prod.mk.inj he).1 (Prod.mk.inj he).2

/-- The scopes of each file are a tree. Each lies in its parent, which lists it once among its
children; and scopes neither of which is around the other have no offset in common. -/
theorem scopes_nested (searchPaths : List Path) (headers : List Header)
    (documents : PathMap Document) :
    let t := (Snapshot.ofDocuments searchPaths headers documents).symbols
    (∀ file i, t.IsIn file i → ∃ r, t.IsIn file r ∧ (t.scope r).parent = none ∧
      ∀ j, t.IsIn file j → t.Around j r) ∧
    (∀ i p, (t.scope i).parent = some p →
      (t.scope i).file = (t.scope p).file ∧ (t.scope i).span.Within (t.scope p).span) ∧
    (∀ p i, (t.scope p).children.count i = if (t.scope i).parent = some p then 1 else 0) ∧
    ∀ file i j, t.IsIn file i → t.IsIn file j → ¬ t.Around i j → ¬ t.Around j i →
      ∀ o, o ∈ (t.scope i).span.offsets → o ∉ (t.scope j).span.offsets := by
  intro t
  obtain ⟨t₀, hsound, -, ht⟩ := symbols_linked searchPaths headers documents
  have hn : t.Nested := Eq.subst ht.symm (hsound.linked.nested hsound.nested)
  refine ⟨fun file i hi => ?_, fun i p hp => ⟨hn.file_eq hp, hn.within hp⟩, hn.children, ?_⟩
  · obtain ⟨r, hr, hnone, -⟩ := hn.exists_root hi
    refine ⟨r, hr, hnone, fun j hj => ?_⟩
    obtain ⟨r', hr', hnone', hjr⟩ := hn.exists_root hj
    exact hn.root hr' hr hnone' hnone ▸ hjr
  · intro file i j hi hj hij hji o ho ho'
    exact (hn.apart hi hj ho ho').elim hij hji

end CppRefactor
