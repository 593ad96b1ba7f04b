import CppRefactor.Symbols.Table

/-!
The symbols and scopes of a table behind an operation on it: what is new, what is changed, and what
stays as it was.
-/

namespace CppRefactor

/-- A scope without what is added to it later. -/
def Scope.core (s : Scope) : Scope :=
  { s with members := [], children := [], usings := [], usingDeclarations := [],
           classContext := none }

/-- A symbol without what is set later: its scope, its flags, and which kind of function it is. -/
def Symbol.core (s : Symbol) : Symbol :=
  { s with kind := if s.kind.isFunction then .function else s.kind, scope := none, flags := {} }

theorem Scope.core_inj {s s' : Scope} (h : s.core = s'.core) : s.kind = s'.kind ∧
    s.parent = s'.parent ∧ s.owner = s'.owner ∧ s.file = s'.file ∧ s.span = s'.span := by
  simpa [core] using h

theorem Symbol.core_kind (s : Symbol) : s.core.isNamespace = s.isNamespace ∧
    s.core.kind.isFunction = s.kind.isFunction := by
  unfold core isNamespace
  dsimp only
  cases s.kind
  all_goals exact ⟨rfl, rfl⟩

theorem Symbol.core_inj {s s' : Symbol} (h : s.core = s'.core) :
    s.isNamespace = s'.isNamespace ∧ s.kind.isFunction = s'.kind.isFunction ∧ s.file = s'.file ∧
      s.nameSpan = s'.nameSpan ∧ s.parent = s'.parent ∧ s.type = s'.type ∧ s.bases = s'.bases := by
  refine ⟨?_, ?_, ?_⟩
  · rw [← s.core_kind.1, h, s'.core_kind.1]
  · rw [← s.core_kind.2, h, s'.core_kind.2]
  · simp only [core, mk.injEq] at h
    exact ⟨h.2.2.1, h.2.2.2.1, h.2.2.2.2.2.1, h.2.2.2.2.2.2.2.1,
      h.2.2.2.2.2.2.2.2.2.2.2.2.1⟩

theorem Symbol.core_name {s s' : Symbol} (h : s.core = s'.core) : s.name = s'.name := by
  simp only [Symbol.core, Symbol.mk.injEq] at h
  exact h.1

namespace SymbolTable

variable (t : SymbolTable)

theorem scope_of_size_le {i : ScopeId} (h : t.scopes.size ≤ i) : t.scope i = default := by
  rw [scope, Array.getD_eq_getD_getElem?, Array.getElem?_eq_none h]
  rfl

theorem lt_size_of_mem {i : ScopeId} {m : SymbolId} (h : m ∈ (t.scope i).members) :
    i < t.scopes.size := by
  refine Nat.lt_of_not_le fun hle => ?_
  rw [t.scope_of_size_le hle] at h
  cases h

theorem lt_size_of_block {i : ScopeId} (h : (t.scope i).kind = .namespaceBlock) :
    i < t.scopes.size := by
  refine Nat.lt_of_not_le fun hle => ?_
  rw [t.scope_of_size_le hle] at h
  cases h

theorem lt_size_of_parent {i p : ScopeId} (h : (t.scope i).parent = some p) :
    i < t.scopes.size := by
  refine Nat.lt_of_not_le fun hle => ?_
  rw [t.scope_of_size_le hle] at h
  cases h

@[simp] theorem size_modifyScope (id : ScopeId) (f : Scope → Scope) :
    (t.modifyScope id f).scopes.size = t.scopes.size :=
  Array.size_modify

theorem scope_modifyScope (id : ScopeId) (f : Scope → Scope) (i : ScopeId) :
    (t.modifyScope id f).scope i =
      if i = id ∧ i < t.scopes.size then f (t.scope i) else t.scope i := by
  rw [scope, scope, modifyScope, Array.getD_eq_getD_getElem?, Array.getD_eq_getD_getElem?,
    Array.getElem?_modify]
  split
  · rename_i h
    subst h
    cases h : t.scopes[id]? with
    | none =>
      have hlt : ¬ id < t.scopes.size := Nat.not_lt.mpr (Array.getElem?_eq_none_iff.mp h)
      simp [hlt]
    | some s =>
      have hlt : id < t.scopes.size := (Array.getElem?_eq_some_iff.mp h).1
      simp [hlt]
  · rename_i h
    rw [if_neg fun h' => h h'.1.symm]

theorem scope_modifyScope_eq {g : Scope → α} (hf : ∀ s, g (f s) = g s) (id i : ScopeId) :
    g ((t.modifyScope id f).scope i) = g (t.scope i) := by
  rw [scope_modifyScope]
  split
  · exact hf _
  · rfl

theorem scope_pushScope (s : Scope) (i : ScopeId) :
    (t.pushScope s).scope i = if i = t.scopes.size then s else t.scope i := by
  rw [scope, scope, pushScope, Array.getD_eq_getD_getElem?, Array.getD_eq_getD_getElem?,
    Array.getElem?_push]
  split <;> rfl

/-- The scope of a file. -/
def fileScope (file : FileId) (span : Span) : Scope :=
  ⟨.file, none, some global, file, span, [], [], [], [], none⟩

theorem scope_addFile (file : FileId) (span : Span) (i : ScopeId) :
    (t.addFile file span).2.scope i =
      if i = t.scopes.size then fileScope file span else t.scope i :=
  t.scope_pushScope (fileScope file span) i

theorem members_addFile (file : FileId) (span : Span) (i : ScopeId) :
    ((t.addFile file span).2.scope i).members = (t.scope i).members := by
  rw [scope_addFile]
  split
  · rename_i hi
    rw [hi, t.scope_of_size_le (Nat.le_refl _)]
    rfl
  · rfl

theorem symbol_of_size_le {i : SymbolId} (h : t.symbols.size ≤ i) : t.symbol i = default := by
  rw [symbol, Array.getD_eq_getD_getElem?, Array.getElem?_eq_none h]
  rfl

@[simp] theorem size_modifySymbol (id : SymbolId) (f : Symbol → Symbol) :
    (t.modifySymbol id f).symbols.size = t.symbols.size :=
  Array.size_modify

theorem symbol_modifySymbol (id : SymbolId) (f : Symbol → Symbol) (i : SymbolId) :
    (t.modifySymbol id f).symbol i =
      if i = id ∧ i < t.symbols.size then f (t.symbol i) else t.symbol i := by
  rw [symbol, symbol, modifySymbol, Array.getD_eq_getD_getElem?, Array.getD_eq_getD_getElem?,
    Array.getElem?_modify]
  split
  · rename_i h
    subst h
    cases h : t.symbols[id]? with
    | none =>
      have hlt : ¬ id < t.symbols.size := Nat.not_lt.mpr (Array.getElem?_eq_none_iff.mp h)
      simp [hlt]
    | some s =>
      have hlt : id < t.symbols.size := (Array.getElem?_eq_some_iff.mp h).1
      simp [hlt]
  · rename_i h
    rw [if_neg fun h' => h h'.1.symm]

theorem symbol_modifySymbol_eq {g : Symbol → α} (hf : ∀ s, g (f s) = g s) (id i : SymbolId) :
    g ((t.modifySymbol id f).symbol i) = g (t.symbol i) := by
  rw [symbol_modifySymbol]
  split
  · exact hf _
  · rfl

theorem symbol_addDetached (s : Symbol) (i : SymbolId) :
    (t.addDetached s).2.symbol i = if i = t.symbols.size then s else t.symbol i := by
  rw [symbol, symbol, addDetached, Array.getD_eq_getD_getElem?, Array.getD_eq_getD_getElem?,
    Array.getElem?_push]
  split <;> rfl

theorem add_eq {s : Symbol} {p : ScopeId} (h : s.parent = some p) :
    t.add s = (t.symbols.size, (t.addDetached s).2.modifyScope p fun q =>
      { q with members := q.members ++ [t.symbols.size] }) := by
  rw [add, h]
  rfl

theorem mem_declared {i : Nat} : i ∈ t.declared ↔ 0 < i ∧ i < t.symbols.size := by
  rw [declared, List.range_eq_range', List.drop_range', List.mem_range'_1]
  omega

section add

variable (s : Symbol)

theorem add_fst : (t.add s).1 = t.symbols.size := by
  unfold add
  dsimp only
  split <;> rfl

@[simp] theorem size_symbols_add : (t.add s).2.symbols.size = t.symbols.size + 1 := by
  unfold add
  dsimp only
  split <;> exact Array.size_push ..

@[simp] theorem size_scopes_add : (t.add s).2.scopes.size = t.scopes.size := by
  unfold add
  dsimp only
  split
  · exact size_modifyScope ..
  · rfl

theorem symbol_add (i : SymbolId) :
    (t.add s).2.symbol i = if i = t.symbols.size then s else t.symbol i := by
  rw [← symbol_addDetached]
  unfold add
  dsimp only
  split <;> rfl

@[simp] theorem outOfLine_add : (t.add s).2.outOfLine = t.outOfLine := by
  unfold add
  dsimp only
  split <;> rfl

@[simp] theorem links_add : (t.add s).2.links = t.links := by
  unfold add
  dsimp only
  split <;> rfl

@[simp] theorem namespaceIndex_add : (t.add s).2.namespaceIndex = t.namespaceIndex := by
  unfold add
  dsimp only
  split <;> rfl

variable {s} {p : ScopeId}

theorem members_add (hs : s.parent = some p) (hp : p < t.scopes.size) (i : ScopeId) :
    ((t.add s).2.scope i).members =
      if i = p then (t.scope i).members ++ [t.symbols.size] else (t.scope i).members := by
  rw [add_eq t hs, scope_modifyScope]
  by_cases hi : i = p
  · rw [if_pos ⟨hi, hi ▸ hp⟩, if_pos hi]
    rfl
  · rw [if_neg fun h => hi h.1, if_neg hi]
    rfl

end add

/-- A scope that has just been added. -/
def freshScope (kind : ScopeKind) (parent : ScopeId) (owner : Option SymbolId) (span : Span) :
    Scope :=
  ⟨kind, some parent, owner, (t.scope parent).file, span, [], [], [], [], none⟩

variable (kind : ScopeKind) (parent : ScopeId) (owner : Option SymbolId) (span : Span)

theorem addScope_fst : (t.addScope kind parent owner span).1 = t.scopes.size := by
  unfold addScope
  dsimp only
  split
  · split <;> rfl
  · rfl

@[simp] theorem size_scopes_addScope :
    (t.addScope kind parent owner span).2.scopes.size = t.scopes.size + 1 := by
  unfold addScope
  dsimp only
  split
  · split <;> simp [pushScope, modifySymbol]
  · simp [pushScope]

theorem scope_addScope (i : ScopeId) : (t.addScope kind parent owner span).2.scope i =
    if i = t.scopes.size then t.freshScope kind parent owner span
    else (t.modifyScope parent fun s =>
      { s with children := s.children ++ [t.scopes.size] }).scope i := by
  have hpush := (t.modifyScope parent fun s =>
    { s with children := s.children ++ [t.scopes.size] }).scope_pushScope
      (t.freshScope kind parent owner span) i
  rw [size_modifyScope] at hpush
  unfold addScope
  dsimp only
  split
  · split
    · exact hpush
    · exact hpush
  · exact hpush

@[simp] theorem size_symbols_addScope :
    (t.addScope kind parent owner span).2.symbols.size = t.symbols.size := by
  unfold addScope
  dsimp only
  split
  · split <;> simp [pushScope, modifySymbol, modifyScope]
  · simp [pushScope, modifyScope]

@[simp] theorem outOfLine_addScope :
    (t.addScope kind parent owner span).2.outOfLine = t.outOfLine := by
  unfold addScope
  dsimp only
  split
  · split <;> rfl
  · rfl

@[simp] theorem links_addScope : (t.addScope kind parent owner span).2.links = t.links := by
  unfold addScope
  dsimp only
  split
  · split <;> rfl
  · rfl

@[simp] theorem namespaceIndex_addScope :
    (t.addScope kind parent owner span).2.namespaceIndex = t.namespaceIndex := by
  unfold addScope
  dsimp only
  split
  · split <;> rfl
  · rfl

theorem members_addScope (i : ScopeId) :
    ((t.addScope kind parent owner span).2.scope i).members = (t.scope i).members := by
  rw [scope_addScope]
  split
  · rename_i hi
    rw [hi, t.scope_of_size_le (Nat.le_refl _)]
    rfl
  · refine t.scope_modifyScope_eq (g := Scope.members) ?_ parent i
    exact fun _ => rfl

theorem symbol_addScope (i : SymbolId) : (t.addScope kind parent owner span).2.symbol i =
    if kind ≠ .namespaceBlock ∧ owner = some i ∧ i < t.symbols.size
      then { t.symbol i with scope := some t.scopes.size } else t.symbol i := by
  unfold addScope
  dsimp only
  cases owner with
  | none => simp [symbol, pushScope, modifyScope]
  | some o =>
    dsimp only
    split
    · rename_i hk
      rw [if_neg fun h => h.1 (beq_iff_eq.mp hk)]
      rfl
    · rename_i hk
      have hk : kind ≠ .namespaceBlock := fun h => hk (beq_iff_eq.mpr h)
      rw [symbol_modifySymbol]
      simp only [hk, ne_eq, not_false_iff, true_and, Option.some.injEq]
      by_cases hi : o = i
      · subst hi
        rfl
      · rw [if_neg fun h => hi h.1.symm, if_neg fun h => hi h.1]
        rfl

theorem leastBy_isSome (measure : α → Nat) (h : a ∈ as) : ∃ b, leastBy measure as = some b := by
  cases as with
  | nil => cases h
  | cons c as =>
    rw [leastBy]
    split
    · exact ⟨_, rfl⟩
    · split
      · exact ⟨_, rfl⟩
      · exact ⟨_, rfl⟩

theorem leastBy_split {measure : α → Nat} {as : List α} (h : leastBy measure as = some a) :
    ∃ front back, as = front ++ a :: back ∧ (∀ b ∈ front, measure a < measure b) ∧
      ∀ b ∈ back, measure a ≤ measure b := by
  induction as generalizing a with
  | nil => cases h
  | cons c as ih =>
    rw [leastBy] at h
    cases hrest : leastBy measure as with
    | none =>
      rw [hrest] at h
      cases h
      refine ⟨[], as, rfl, nofun, fun b hb => ?_⟩
      obtain ⟨d, hd⟩ := leastBy_isSome measure hb
      cases hrest.symm.trans hd
    | some b =>
      obtain ⟨front, back, rfl, hfront, hback⟩ := ih hrest
      rw [hrest] at h
      dsimp only at h
      split at h
      · rename_i hlt
        cases h
        exact ⟨c :: front, back, rfl, List.forall_mem_cons.mpr ⟨hlt, hfront⟩, hback⟩
      · rename_i hle
        cases h
        have hle := Nat.le_of_not_lt hle
        refine ⟨[], _, rfl, nofun, fun d hd => ?_⟩
        rcases List.mem_append.mp hd with hd | hd
        · exact Nat.le_trans hle (Nat.le_of_lt (hfront d hd))
        · rcases List.mem_cons.mp hd with rfl | hd
          · exact hle
          · exact Nat.le_trans hle (hback d hd)

theorem leastBy_mem {measure : α → Nat} {as : List α} (h : leastBy measure as = some a) :
    a ∈ as := by
  obtain ⟨front, back, rfl, -⟩ := leastBy_split h
  exact List.mem_append_right front List.mem_cons_self

end SymbolTable

end CppRefactor
