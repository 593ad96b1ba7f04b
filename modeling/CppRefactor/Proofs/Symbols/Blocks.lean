import CppRefactor.Proofs.Symbols.Sound
import CppRefactor.Symbols.Declare

/-!
What declaring a file does to a table in several steps that belong together: a block is opened of
each namespace of a name, and a function is put outside of the scope it is defined in.
-/

namespace CppRefactor

namespace SymbolTable

def setInline (t : SymbolTable) (id : SymbolId) : SymbolTable :=
  t.modifySymbol id fun s => { s with flags := { s.flags with isInline := true } }

/-- Opens a block of a namespace, which is declared there, new or not. -/
def openBlock (t : SymbolTable) (p : ScopeId) (name : String × Span) (isInline : Bool)
    (span : Span) : ScopeId × SymbolTable :=
  let (ns, t) := t.declareNamespace name.1 p name.2
  let t := if isInline then t.setInline ns else t
  t.addScope .namespaceBlock p (some ns) span

/-- Opens blocks of the namespaces of a name, one in the other, and answers the innermost. -/
def openBlocks (span : Span) (isInline : Bool) :
    List (String × Span) → ScopeId → SymbolTable → ScopeId × SymbolTable
  | [], p, t => (p, t)
  | name :: names, p, t =>
    let (b, t) := t.openBlock p name (names.isEmpty && isInline) span
    openBlocks span isInline names b t

/-- Adds the definition of a function that is no member of the scope it stands in. -/
def addOutOfLine (t : SymbolTable) (s : Symbol) : SymbolId × SymbolTable :=
  (t.symbols.size,
    { (t.addDetached s).2 with outOfLine := t.outOfLine ++ [t.symbols.size] })

/-- A scope lists a namespace that is there. -/
def listNamespace (t : SymbolTable) (p : ScopeId) (ns : SymbolId) : SymbolTable :=
  t.modifyScope p fun s =>
    if s.members.contains ns then s else { s with members := s.members ++ [ns] }

/-- A namespace that is not there before. -/
def newNamespace (t : SymbolTable) (name : String) (p : ScopeId) (span : Span) : Symbol :=
  { name, kind := .namespaceKind, file := (t.scope p).file, nameSpan := span, declSpan := span,
    parent := some p, flags := { isDefinition := true } }

variable (t : SymbolTable) {file : FileId} {p : ScopeId}

theorem declareNamespace_cases (name : String) (p : ScopeId) (span : Span) :
    (∃ ns, t.namespace? (t.spaceOf p) name = some ns ∧
      t.declareNamespace name p span = (ns, t.listNamespace p ns)) ∨
    (t.namespace? (t.spaceOf p) name = none ∧
      t.declareNamespace name p span = t.addNamespace name p span) := by
  unfold declareNamespace
  cases h : t.namespace? (t.spaceOf p) name with
  | some ns => exact .inl ⟨ns, rfl, rfl⟩
  | none => exact .inr ⟨rfl, rfl⟩

/-- Enters a namespace under its name inside another one. -/
def indexNamespace (outer : SymbolId) (name : String) (ns : SymbolId) : SymbolTable :=
  { t with namespaceIndex := ((outer, name), ns) :: t.namespaceIndex }

theorem addNamespace_eq (name : String) (p : ScopeId) (span : Span) :
    t.addNamespace name p span = (t.symbols.size,
      (t.add (t.newNamespace name p span)).2.indexNamespace (t.spaceOf p) name t.symbols.size) := by
  rw [← t.add_fst (t.newNamespace name p span)]
  rfl

theorem extends_add (s : Symbol) : t.Extends (t.add s).2 := by
  have hadded := t.extends_addDetached s
  unfold add
  dsimp only
  split
  · refine hadded.trans (extends_modifyScope ?_ _ _)
    exact fun _ => rfl
  · exact hadded

theorem extends_indexNamespace (outer : SymbolId) (name : String) (ns : SymbolId) :
    t.Extends (t.indexNamespace outer name ns) :=
  ⟨Nat.le_refl _, Nat.le_refl _, fun _ _ => rfl, fun _ _ => rfl⟩

theorem Sound.indexNamespace {t : SymbolTable} (h : t.Sound) {outer ns : SymbolId} {name : String}
    (hns : t.HasNamespace ns) : (t.indexNamespace outer name ns).Sound where
  nested := h.nested.congr rfl (fun _ => rfl) fun _ => rfl
  distinct := h.distinct
  scope j hj := (h.scope j hj).mono (t.extends_indexNamespace outer name ns)
  symbol j hj := (h.symbol j hj).mono (t.extends_indexNamespace outer name ns)
  outOfLine j hj := (h.outOfLine j hj).mono (t.extends_indexNamespace outer name ns)
  namespaces entry he := by
    refine HasNamespace.mono ?_ (t.extends_indexNamespace outer name ns)
    rcases List.mem_cons.mp he with rfl | he
    · exact hns
    · exact h.namespaces entry he
  context := h.context

theorem extends_addNamespace (name : String) (p : ScopeId) (span : Span) :
    t.Extends (t.addNamespace name p span).2 := by
  rw [addNamespace_eq]
  exact (t.extends_add _).trans (extends_indexNamespace _ ..)

theorem extends_addOutOfLine (s : Symbol) : t.Extends (t.addOutOfLine s).2 :=
  (t.extends_addDetached s).trans (extends_putOutOfLine _ _)

theorem extends_listNamespace (p : ScopeId) (ns : SymbolId) : t.Extends (t.listNamespace p ns) := by
  refine extends_modifyScope (fun s => ?_) t p
  split <;> rfl

theorem extends_declareNamespace (name : String) (p : ScopeId) (span : Span) :
    t.Extends (t.declareNamespace name p span).2 := by
  rcases t.declareNamespace_cases name p span with ⟨ns, -, heq⟩ | ⟨-, heq⟩
  · rw [heq]
    exact t.extends_listNamespace p ns
  · rw [heq]
    exact t.extends_addNamespace name p span

theorem extends_setInline (id : SymbolId) : t.Extends (t.setInline id) :=
  extends_setFlags (fun flags => { flags with isInline := true }) t id

theorem extends_openBlock (p : ScopeId) (name : String × Span) (isInline : Bool) (span : Span) :
    t.Extends (t.openBlock p name isInline span).2 := by
  have hdeclared := t.extends_declareNamespace name.1 p name.2
  unfold openBlock
  dsimp only
  split
  · exact (hdeclared.trans (extends_setInline _ _)).trans (extends_addScope ..)
  · exact hdeclared.trans (extends_addScope ..)

theorem extends_openBlocks (span : Span) (isInline : Bool) (names : List (String × Span))
    (p : ScopeId) : t.Extends (openBlocks span isInline names p t).2 := by
  induction names generalizing t p with
  | nil => exact .refl t
  | cons name names ih => exact (t.extends_openBlock ..).trans (ih _ _)

theorem symbol_add_new {s : Symbol} {i : SymbolId} (hge : t.symbols.size ≤ i)
    (hlt : i < (t.add s).2.symbols.size) : (t.add s).2.symbol i = s := by
  rw [size_symbols_add] at hlt
  rw [symbol_add, if_pos (Nat.le_antisymm (Nat.le_of_lt_succ hlt) hge)]

theorem symbol_addOutOfLine (s : Symbol) (i : SymbolId) :
    (t.addOutOfLine s).2.symbol i = if i = t.symbols.size then s else t.symbol i :=
  t.symbol_addDetached s i

theorem size_symbols_addOutOfLine (s : Symbol) :
    (t.addOutOfLine s).2.symbols.size = t.symbols.size + 1 :=
  Array.size_push ..

theorem symbol_addOutOfLine_new {s : Symbol} {i : SymbolId} (hge : t.symbols.size ≤ i)
    (hlt : i < (t.addOutOfLine s).2.symbols.size) : (t.addOutOfLine s).2.symbol i = s := by
  rw [size_symbols_addOutOfLine] at hlt
  rw [symbol_addOutOfLine, if_pos (Nat.le_antisymm (Nat.le_of_lt_succ hlt) hge)]

section addNamespace

variable (name : String) (p : ScopeId) (span : Span)

theorem addNamespace_fst : (t.addNamespace name p span).1 = t.symbols.size := by
  rw [addNamespace_eq]

@[simp] theorem size_symbols_addNamespace :
    (t.addNamespace name p span).2.symbols.size = t.symbols.size + 1 := by
  rw [addNamespace_eq]
  exact t.size_symbols_add _

@[simp] theorem size_scopes_addNamespace :
    (t.addNamespace name p span).2.scopes.size = t.scopes.size := by
  rw [addNamespace_eq]
  exact t.size_scopes_add _

theorem symbol_addNamespace (i : SymbolId) : (t.addNamespace name p span).2.symbol i =
    if i = t.symbols.size then t.newNamespace name p span else t.symbol i := by
  rw [addNamespace_eq]
  exact t.symbol_add _ i

end addNamespace

theorem size_scopes_declareNamespace (name : String) (p : ScopeId) (span : Span) :
    (t.declareNamespace name p span).2.scopes.size = t.scopes.size := by
  rcases t.declareNamespace_cases name p span with ⟨ns, -, heq⟩ | ⟨-, heq⟩
  · rw [heq]
    exact size_modifyScope ..
  · rw [heq]
    exact size_scopes_addNamespace ..

theorem openBlock_fst (p : ScopeId) (name : String × Span) (isInline : Bool) (span : Span) :
    (t.openBlock p name isInline span).1 = t.scopes.size := by
  rw [← t.size_scopes_declareNamespace name.1 p name.2]
  unfold openBlock
  dsimp only
  split
  · exact addScope_fst ..
  · exact addScope_fst ..

theorem size_scopes_openBlock (p : ScopeId) (name : String × Span) (isInline : Bool)
    (span : Span) : (t.openBlock p name isInline span).2.scopes.size = t.scopes.size + 1 := by
  rw [← t.size_scopes_declareNamespace name.1 p name.2]
  unfold openBlock
  dsimp only
  split
  · exact size_scopes_addScope ..
  · exact size_scopes_addScope ..

variable {t}

theorem IsIn.addScope (h : t.IsIn file p) (kind : ScopeKind) (owner : Option SymbolId)
    (span : Span) :
    (t.addScope kind p owner span).2.IsIn file (t.addScope kind p owner span).1 := by
  rw [addScope_fst]
  refine ⟨by simp, ?_⟩
  rw [scope_addScope_self]
  exact h.file

theorem IsIn.openBlock (h : t.IsIn file p) (name : String × Span) (isInline : Bool) (span : Span) :
    (t.openBlock p name isInline span).2.IsIn file (t.openBlock p name isInline span).1 := by
  have hp := h.mono (t.extends_declareNamespace name.1 p name.2)
  unfold SymbolTable.openBlock
  dsimp only
  refine IsIn.addScope ?_ ..
  split
  · exact hp.mono (extends_setInline _ _)
  · exact hp

theorem IsIn.openBlocks (h : t.IsIn file p) (span : Span) (isInline : Bool)
    (names : List (String × Span)) :
    (openBlocks span isInline names p t).2.IsIn file (openBlocks span isInline names p t).1 := by
  induction names generalizing t p with
  | nil => exact h
  | cons name names ih => exact ih (h.openBlock ..)

theorem openBlocks_induction {P : SymbolTable → Prop} {span : Span}
    (hstep : ∀ t p name isInline, t.IsIn file p → P t → P (t.openBlock p name isInline span).2)
    {isInline : Bool} (names : List (String × Span)) (hp : t.IsIn file p) (h : P t) :
    P (SymbolTable.openBlocks span isInline names p t).2 := by
  induction names generalizing t p with
  | nil => exact h
  | cons name names ih => exact ih (hp.openBlock ..) (hstep t p name _ hp h)

end SymbolTable

namespace Declare

theorem enter_run (p : Place) (kind : ScopeKind) (owner : Option SymbolId) (span : Span)
    (body : Place → Declaring α) (s : State) : (p.enter kind owner span >>= body).run s =
      (body ⟨p.file, (s.table.addScope kind p.scope owner span).1⟩).run
        ⟨(s.table.addScope kind p.scope owner span).2, s.access⟩ :=
  rfl

theorem enterNamespaces_run (span : Span) (isInline : Bool) (names : List (String × Span))
    (p : Place) (s : State) : (enterNamespaces span isInline names p).run s =
      (⟨p.file, (SymbolTable.openBlocks span isInline names p.scope s.table).1⟩,
        ⟨(SymbolTable.openBlocks span isInline names p.scope s.table).2, s.access⟩) := by
  induction names generalizing p s with
  | nil => rfl
  | cons name names ih =>
    rw [enterNamespaces, SymbolTable.openBlocks, SymbolTable.openBlock]
    split
    · exact ih ..
    · exact ih ..

end Declare

end CppRefactor
