import CppRefactor.Proofs.Symbols.Built

/-!
The indices of a table. Each is filled where a symbol or a scope is added, and leads to what a
search through all symbols or scopes finds.
-/

namespace CppRefactor

namespace Index

@[simp] theorem get_empty [BEq κ] (key : κ) : (empty : Index κ α).get key = [] := rfl

variable [BEq κ] [LawfulBEq κ]

theorem lookup_pushEntry (key key' : κ) (a : α) (entries : List (κ × List α)) :
    (pushEntry key a entries).lookup key' =
      if key' == key then some ((entries.lookup key).getD [] ++ [a])
      else entries.lookup key' := by
  induction entries with
  | nil =>
    rw [pushEntry, List.lookup_cons]
    split <;> simp_all
  | cons entry entries ih =>
    obtain ⟨k, as⟩ := entry
    rw [pushEntry]
    split
    · rename_i hk
      obtain rfl := eq_of_beq hk
      rw [List.lookup_cons, List.lookup_cons, List.lookup_cons, BEq.rfl]
      split <;> simp_all
    · rename_i hk
      rw [List.lookup_cons, ih, List.lookup_cons, List.lookup_cons, Bool.eq_false_iff.mpr hk]
      by_cases h : key' == key
      · obtain rfl := eq_of_beq h
        simp [hk]
      · simp [h]

/-- What is put into the list of a key is its last element, and the other lists stay. -/
theorem get_push (m : Index κ α) (key key' : κ) (a : α) :
    (m.push key a).get key' = if key' == key then m.get key' ++ [a] else m.get key' := by
  rw [get, push, lookup_pushEntry]
  split
  · rename_i h
    obtain rfl := eq_of_beq h
    rfl
  · rfl

end Index

theorem lookup_cons_ite [BEq κ] (entries : List (κ × α)) (k key : κ) (a : α) :
    ((k, a) :: entries).lookup key = if key == k then some a else entries.lookup key := by
  rw [List.lookup_cons]
  split <;> simp_all

/-- What a symbol is found by. -/
def Symbol.keys (s : Symbol) : String × FileId × Nat := (s.name, s.file, s.nameSpan.start)

theorem filter_concat {p p' : α → Bool} {as : List α} (h : ∀ a ∈ as, p' a = p a) (a : α) :
    (as ++ [a]).filter p' = if p' a then as.filter p ++ [a] else as.filter p := by
  rw [List.filter_append, List.filter_congr h, List.filter_cons]
  split
  · rfl
  · exact List.append_nil _

namespace SymbolTable

def scopesWhere (t : SymbolTable) (p : Scope → Bool) : List ScopeId :=
  (List.range t.scopes.size).filter fun i => p (t.scope i)

def symbolsWhere (t : SymbolTable) (p : Symbol → Bool) : List SymbolId :=
  t.declared.filter fun i => p (t.symbol i)

/-- The indices of symbols lead to what is found by searching the symbols. -/
structure SymbolsIndexed (t : SymbolTable) : Prop where
  pos : 0 < t.symbols.size
  withName (name : String) : t.withName name = t.symbolsWhere (·.name == name)
  declaredAt (file : FileId) (offset : Nat) : t.declaredAt? file offset =
    (t.symbolsWhere fun s => s.file == file && s.nameSpan.start == offset).getLast?

/-- The indices of scopes lead to what is found by searching the scopes. -/
structure ScopesIndexed (t : SymbolTable) : Prop where
  scopesOf (file : FileId) : t.scopesOf file = t.scopesWhere (·.file == file)
  fileBody (file : FileId) :
    t.fileBody? file = (t.scopesWhere fun s => s.kind == .file && s.file == file).getLast?
  blocks (ns : SymbolId) :
    t.blocks ns = t.scopesWhere fun s => s.isNamespaceBody && s.owner == some ns

structure Indexed (t : SymbolTable) : Prop extends t.SymbolsIndexed, t.ScopesIndexed

variable {t t' : SymbolTable}

theorem scopesWhere_congr (hsize : t'.scopes.size = t.scopes.size)
    (h : ∀ i < t.scopes.size, p (t'.scope i) = p (t.scope i)) :
    t'.scopesWhere p = t.scopesWhere p := by
  rw [scopesWhere, scopesWhere, hsize]
  exact List.filter_congr fun i hi => h i (List.mem_range.mp hi)

theorem scopesWhere_push (hsize : t'.scopes.size = t.scopes.size + 1)
    (h : ∀ i < t.scopes.size, p (t'.scope i) = p (t.scope i)) :
    t'.scopesWhere p = if p (t'.scope t.scopes.size) then t.scopesWhere p ++ [t.scopes.size]
      else t.scopesWhere p := by
  rw [scopesWhere, scopesWhere, hsize, List.range_succ]
  exact filter_concat (fun i hi => h i (List.mem_range.mp hi)) _

theorem symbolsWhere_congr (hsize : t'.symbols.size = t.symbols.size)
    (h : ∀ i < t.symbols.size, p (t'.symbol i) = p (t.symbol i)) :
    t'.symbolsWhere p = t.symbolsWhere p := by
  have hdeclared : t'.declared = t.declared := by rw [declared, declared, hsize]
  rw [symbolsWhere, symbolsWhere, hdeclared]
  exact List.filter_congr fun i hi => h i (t.mem_declared.mp hi).2

theorem symbolsWhere_push (hpos : 0 < t.symbols.size)
    (hsize : t'.symbols.size = t.symbols.size + 1)
    (h : ∀ i < t.symbols.size, p (t'.symbol i) = p (t.symbol i)) :
    t'.symbolsWhere p = if p (t'.symbol t.symbols.size) then t.symbolsWhere p ++ [t.symbols.size]
      else t.symbolsWhere p := by
  have hdeclared : t'.declared = t.declared ++ [t.symbols.size] := by
    rw [declared, declared, hsize, List.range_succ, List.drop_append_of_le_length (by simpa)]
  rw [symbolsWhere, symbolsWhere, hdeclared]
  exact filter_concat (fun i hi => h i (t.mem_declared.mp hi).2) _

/-- Two tables have the indices of symbols in common. -/
structure SameSymbols (t t' : SymbolTable) : Prop where
  size : t'.symbols.size = t.symbols.size
  keys : ∀ i < t.symbols.size, (t'.symbol i).keys = (t.symbol i).keys
  byPosition : t'.symbolsByPosition = t.symbolsByPosition
  byName : t'.symbolsByName = t.symbolsByName

/-- Two tables have the indices of scopes in common. -/
structure SameScopes (t t' : SymbolTable) : Prop where
  size : t'.scopes.size = t.scopes.size
  core : ∀ i < t.scopes.size, (t'.scope i).core = (t.scope i).core
  blocks : t'.namespaceBlocks = t.namespaceBlocks
  fileScopes : t'.fileScopes = t.fileScopes
  byFile : t'.scopesByFile = t.scopesByFile

theorem SymbolsIndexed.congr (h : t.SymbolsIndexed) (hs : t.SameSymbols t') :
    t'.SymbolsIndexed where
  pos := hs.size.symm ▸ h.pos
  withName name := by
    rw [symbolsWhere_congr hs.size fun i hi => ?_, ← h.withName, SymbolTable.withName, hs.byName]
    · rfl
    · rw [(Prod.mk.inj (hs.keys i hi)).1]
  declaredAt file offset := by
    rw [symbolsWhere_congr hs.size fun i hi => ?_, ← h.declaredAt, declaredAt?, hs.byPosition]
    · rfl
    · obtain ⟨-, hplace⟩ := Prod.mk.inj (hs.keys i hi)
      rw [(Prod.mk.inj hplace).1, (Prod.mk.inj hplace).2]

theorem SymbolsIndexed.addDetached (h : t.SymbolsIndexed) (s : Symbol) :
    (t.addDetached s).2.SymbolsIndexed := by
  have hsize : (t.addDetached s).2.symbols.size = t.symbols.size + 1 := Array.size_push ..
  have hnew : (t.addDetached s).2.symbol t.symbols.size = s := by
    rw [symbol_addDetached, if_pos rfl]
  have hold (p : Symbol → Bool) (i : SymbolId) (hi : i < t.symbols.size) :
      p ((t.addDetached s).2.symbol i) = p (t.symbol i) := by
    rw [symbol_addDetached, if_neg (Nat.ne_of_lt hi)]
  refine ⟨hsize ▸ Nat.succ_pos _, fun name => ?_, fun file offset => ?_⟩
  · rw [symbolsWhere_push h.pos hsize (hold _), hnew, ← h.withName]
    exact (Index.get_push ..).trans (by rw [BEq.comm]; rfl)
  · rw [symbolsWhere_push h.pos hsize (hold _), hnew, apply_ite List.getLast?,
      List.getLast?_concat, ← h.declaredAt, BEq.comm, BEq.comm (a := s.nameSpan.start)]
    exact lookup_cons_ite ..

theorem ScopesIndexed.congr (h : t.ScopesIndexed) (hs : t.SameScopes t') : t'.ScopesIndexed := by
  have hcore (i : ScopeId) (hi : i < t.scopes.size) := Scope.core_inj (hs.core i hi)
  refine ⟨fun file => ?_, fun file => ?_, fun ns => ?_⟩
  · rw [scopesWhere_congr hs.size fun i hi => by rw [(hcore i hi).2.2.2.1], ← h.scopesOf,
      SymbolTable.scopesOf, hs.byFile, SymbolTable.scopesOf]
  · rw [scopesWhere_congr hs.size fun i hi => by rw [(hcore i hi).1, (hcore i hi).2.2.2.1],
      ← h.fileBody, fileBody?, hs.fileScopes, fileBody?]
  · rw [scopesWhere_congr hs.size fun i hi => by
      rw [Scope.isNamespaceBody, (hcore i hi).1, (hcore i hi).2.2.1, ← Scope.isNamespaceBody],
      ← h.blocks, SymbolTable.blocks, hs.blocks, SymbolTable.blocks]

/-- A scope is entered among those of its file, that of a file as such, and a block among those of
its namespace. -/
theorem ScopesIndexed.push (h : t.ScopesIndexed) {s : Scope}
    (hsize : t'.scopes.size = t.scopes.size + 1) (hnew : t'.scope t.scopes.size = s)
    (hcore : ∀ i < t.scopes.size, (t'.scope i).core = (t.scope i).core)
    (hbyFile : t'.scopesByFile = t.scopesByFile.push s.file t.scopes.size)
    (hfile : t'.fileScopes =
      if s.kind == .file then (s.file, t.scopes.size) :: t.fileScopes else t.fileScopes)
    (hblocks : ∀ ns, t'.blocks ns = if s.isNamespaceBody && s.owner == some ns
      then t.blocks ns ++ [t.scopes.size] else t.blocks ns) : t'.ScopesIndexed := by
  have hcore (i : ScopeId) (hi : i < t.scopes.size) := Scope.core_inj (hcore i hi)
  refine ⟨fun file => ?_, fun file => ?_, fun ns => ?_⟩
  · rw [scopesWhere_push hsize fun i hi => by rw [(hcore i hi).2.2.2.1], ← h.scopesOf, hnew,
      SymbolTable.scopesOf, hbyFile, Index.get_push, BEq.comm]
    rfl
  · rw [scopesWhere_push hsize fun i hi => by rw [(hcore i hi).1, (hcore i hi).2.2.2.1], hnew,
      apply_ite List.getLast?, List.getLast?_concat, ← h.fileBody, fileBody?, hfile]
    by_cases hk : s.kind == .file
    · rw [if_pos hk, lookup_cons_ite, hk, Bool.true_and, BEq.comm]
      rfl
    · rw [if_neg hk, if_neg fun hs => hk (Bool.and_eq_true_iff.mp hs).1]
      rfl
  · rw [scopesWhere_push hsize fun i hi => by
      rw [Scope.isNamespaceBody, (hcore i hi).1, (hcore i hi).2.2.1, ← Scope.isNamespaceBody],
      ← h.blocks, hnew, hblocks]

section addScope

variable (t) (kind : ScopeKind) (p : ScopeId) (owner : Option SymbolId) (span : Span)

theorem sameSymbols_addScope : t.SameSymbols (t.addScope kind p owner span).2 where
  size := size_symbols_addScope ..
  keys i _ := by
    rw [symbol_addScope]
    split <;> rfl
  byPosition := by
    unfold addScope
    dsimp only
    split
    · split <;> rfl
    · rfl
  byName := by
    unfold addScope
    dsimp only
    split
    · split <;> rfl
    · rfl

theorem scopesByFile_addScope : (t.addScope kind p owner span).2.scopesByFile =
    t.scopesByFile.push (t.scope p).file t.scopes.size := by
  unfold addScope pushScope
  dsimp only
  rw [size_modifyScope]
  split
  · split <;> rfl
  · rfl

theorem fileScopes_addScope : (t.addScope kind p owner span).2.fileScopes = t.fileScopes := by
  unfold addScope
  dsimp only
  split
  · split <;> rfl
  · rfl

theorem blocks_addScope (ns : SymbolId) : (t.addScope kind p owner span).2.blocks ns =
    if kind == .namespaceBlock && owner == some ns then t.blocks ns ++ [t.scopes.size]
    else t.blocks ns := by
  unfold addScope
  dsimp only
  split
  · rename_i o
    split
    · rename_i hk
      refine (Index.get_push ..).trans ?_
      rw [hk, Bool.true_and, Option.some_beq_some, BEq.comm]
      rfl
    · rename_i hk
      rw [Bool.eq_false_iff.mpr hk]
      rfl
  · cases kind == .namespaceBlock <;> rfl

end addScope

namespace Indexed

theorem empty : SymbolTable.empty.Indexed where
  pos := Nat.one_pos
  scopesOf _ := rfl
  fileBody _ := rfl
  blocks _ := rfl
  withName _ := rfl
  declaredAt _ _ := rfl

variable (h : t.Indexed)

include h

theorem congr (hsymbols : t.SameSymbols t') (hscopes : t.SameScopes t') : t'.Indexed :=
  ⟨h.toSymbolsIndexed.congr hsymbols, h.toScopesIndexed.congr hscopes⟩

theorem modifyScope {f : Scope → Scope} (hcore : ∀ s, (f s).core = s.core) (id : ScopeId) :
    (t.modifyScope id f).Indexed :=
  h.congr ⟨rfl, fun _ _ => rfl, rfl, rfl⟩
    ⟨size_modifyScope .., fun i _ => t.scope_modifyScope_eq hcore id i, rfl, rfl, rfl⟩

theorem modifySymbol {f : Symbol → Symbol} (hkeys : ∀ s, (f s).keys = s.keys) (id : SymbolId) :
    (t.modifySymbol id f).Indexed :=
  h.congr ⟨size_modifySymbol .., fun i _ => t.symbol_modifySymbol_eq hkeys id i, rfl, rfl⟩
    ⟨rfl, fun _ _ => rfl, rfl, rfl, rfl⟩

theorem addDetached (s : Symbol) : (t.addDetached s).2.Indexed :=
  ⟨h.toSymbolsIndexed.addDetached s,
    h.toScopesIndexed.congr ⟨rfl, fun _ _ => rfl, rfl, rfl, rfl⟩⟩

theorem add (s : Symbol) : (t.add s).2.Indexed := by
  have hadded := h.addDetached s
  unfold SymbolTable.add
  dsimp only
  split
  · exact hadded.modifyScope (fun _ => by rfl) _
  · exact hadded

theorem declareNamespace (name : String) (p : ScopeId) (span : Span) :
    (t.declareNamespace name p span).2.Indexed := by
  rcases t.declareNamespace_cases name p span with ⟨ns, -, heq⟩ | ⟨-, heq⟩
  · rw [heq]
    refine h.modifyScope (fun s => ?_) p
    split <;> rfl
  · rw [heq, addNamespace_eq]
    exact (h.add _).congr ⟨rfl, fun _ _ => rfl, rfl, rfl⟩ ⟨rfl, fun _ _ => rfl, rfl, rfl, rfl⟩

theorem addFile (file : FileId) (span : Span) : (t.addFile file span).2.Indexed := by
  refine ⟨h.toSymbolsIndexed.congr ⟨rfl, fun _ _ => rfl, rfl, rfl⟩,
    h.toScopesIndexed.push (s := fileScope file span) (Array.size_push ..) ?_ (fun i hi => ?_) rfl
      rfl fun ns => ?_⟩
  · rw [scope_addFile, if_pos rfl]
  · rw [scope_addFile, if_neg (Nat.ne_of_lt hi)]
  · refine (Index.get_push ..).trans ?_
    rw [BEq.comm]
    rfl

theorem addScope {kind : ScopeKind} (hfile : kind ≠ .file) (p : ScopeId)
    (owner : Option SymbolId) (span : Span) : (t.addScope kind p owner span).2.Indexed := by
  have hbody : (t.freshScope kind p owner span).isNamespaceBody = (kind == .namespaceBlock) := by
    rw [Scope.isNamespaceBody, freshScope, beq_false_of_ne hfile, Bool.false_or]
  refine ⟨h.toSymbolsIndexed.congr (sameSymbols_addScope ..),
    h.toScopesIndexed.push (size_scopes_addScope ..) (t.scope_addScope_self kind p owner span)
      (fun i hi => core_addScope kind p owner span (Nat.ne_of_lt hi))
      (t.scopesByFile_addScope kind p owner span) ?_ fun ns => ?_⟩
  · rw [fileScopes_addScope, if_neg]
    exact fun hk => hfile (beq_iff_eq.mp hk)
  · rw [blocks_addScope, hbody]
    rfl

end Indexed

theorem mem_scopesWhere {p : Scope → Bool} :
    i ∈ t.scopesWhere p ↔ i < t.scopes.size ∧ p (t.scope i) = true := by
  rw [scopesWhere, List.mem_filter, List.mem_range]

theorem mem_symbolsWhere {p : Symbol → Bool} :
    i ∈ t.symbolsWhere p ↔ i ∈ t.declared ∧ p (t.symbol i) = true := by
  rw [symbolsWhere, List.mem_filter]

theorem SymbolsIndexed.mem_withName (h : t.SymbolsIndexed) {name : String} :
    i ∈ t.withName name ↔ i ∈ t.declared ∧ (t.symbol i).name = name := by
  rw [h.withName, mem_symbolsWhere, beq_iff_eq]

/-- Scopes and symbols are numbered in the order in which they are added. -/
theorem SymbolsIndexed.pairwise_withName (h : t.SymbolsIndexed) (name : String) :
    (t.withName name).Pairwise (· < ·) := by
  rw [h.withName]
  exact (List.pairwise_lt_range.sublist (List.drop_sublist 1 _)).filter _

namespace Indexed

variable (h : t.Indexed)

include h

theorem mem_scopesOf {file : FileId} : i ∈ t.scopesOf file ↔ t.IsIn file i := by
  rw [h.scopesOf, mem_scopesWhere, beq_iff_eq]
  exact ⟨fun ⟨hlt, hfile⟩ => ⟨hlt, hfile⟩, fun hi => ⟨hi.lt, hi.file⟩⟩

theorem mem_blocks {ns : SymbolId} : b ∈ t.blocks ns ↔
    (t.scope b).isNamespaceBody = true ∧ (t.scope b).owner = some ns := by
  rw [h.blocks, mem_scopesWhere, Bool.and_eq_true, beq_iff_eq]
  refine and_iff_right_of_imp fun hb => Nat.lt_of_not_le fun hle => ?_
  rw [t.scope_of_size_le hle] at hb
  cases hb.2

theorem pairwise_blocks (ns : SymbolId) : (t.blocks ns).Pairwise (· < ·) := by
  rw [h.blocks]
  exact List.pairwise_lt_range.filter _

theorem pairwise_scopesOf (file : FileId) : (t.scopesOf file).Pairwise (· < ·) := by
  rw [h.scopesOf]
  exact List.pairwise_lt_range.filter _

theorem isIn_of_fileBody? {file : FileId} (hi : t.fileBody? file = some i) : t.IsIn file i := by
  rw [h.fileBody] at hi
  obtain ⟨hlt, hfile⟩ := mem_scopesWhere.mp (List.mem_of_getLast? hi)
  rw [Bool.and_eq_true, beq_iff_eq, beq_iff_eq] at hfile
  exact ⟨hlt, hfile.2⟩

end Indexed

theorem indexed_invariant : TableInvariant Indexed where
  addFile file span h := h.addFile file span
  addScope hfile p owner span h := h.addScope hfile p owner span
  addDetached s h := h.addDetached s
  add s h := h.add s
  declareNamespace name p span h := h.declareNamespace name p span
  putOutOfLine _ h := h.congr ⟨rfl, fun _ _ => rfl, rfl, rfl⟩ ⟨rfl, fun _ _ => rfl, rfl, rfl, rfl⟩
  addUsing id _ h := h.modifyScope (fun _ => by rfl) id
  addUsingDeclaration id _ _ h := h.modifyScope (fun _ => by rfl) id
  setContext id _ h := h.modifyScope (fun _ => by rfl) id
  setFlags id _ h := h.modifySymbol (fun _ => by rfl) id
  setKind id _ h := h.modifySymbol (fun _ => by rfl) id
  setVisible _ _ h :=
    h.congr ⟨rfl, fun _ _ => rfl, rfl, rfl⟩ ⟨rfl, fun _ _ => rfl, rfl, rfl, rfl⟩
  link _ _ h := h.congr ⟨rfl, fun _ _ => rfl, rfl, rfl⟩ ⟨rfl, fun _ _ => rfl, rfl, rfl, rfl⟩

theorem indexed_unlinked (files : List SourceFile) (graph : IncludeGraph) :
    (Snapshot.unlinked files graph).Indexed :=
  Snapshot.unlinked_induction graph .empty (fun _ => indexed_invariant.addFile)
    (fun id f _ => indexed_invariant.inFile id f.tree) fun _ => indexed_invariant.setVisible

/-- In every table of files the indices lead to what a search would find. -/
theorem indexed_symbolsOf (files : List SourceFile) (graph : IncludeGraph) :
    (Snapshot.symbolsOf files graph).Indexed :=
  indexed_invariant.withLinks (indexed_unlinked files graph)

end SymbolTable

end CppRefactor
