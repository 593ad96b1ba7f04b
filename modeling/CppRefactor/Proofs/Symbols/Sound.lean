import CppRefactor.Proofs.Symbols.Nesting

/-!
Sound tables: what they refer to is where it belongs, and their symbols have places of their own.
Tables grow: what is in them keeps its place when something is added.
-/

namespace CppRefactor

namespace SymbolTable

variable {t t' t'' : SymbolTable} {file : FileId}

/-- Scopes and symbols have been added; those that were there keep what they had from the start. -/
structure Extends (t t' : SymbolTable) : Prop where
  scopes : t.scopes.size ≤ t'.scopes.size
  symbols : t.symbols.size ≤ t'.symbols.size
  scope : ∀ i < t.scopes.size, (t'.scope i).core = (t.scope i).core
  symbol : ∀ i < t.symbols.size, (t'.symbol i).core = (t.symbol i).core

namespace Extends

theorem refl (t : SymbolTable) : t.Extends t :=
  ⟨Nat.le_refl _, Nat.le_refl _, fun _ _ => rfl, fun _ _ => rfl⟩

theorem trans (h : t.Extends t') (h' : t'.Extends t'') : t.Extends t'' where
  scopes := Nat.le_trans h.scopes h'.scopes
  symbols := Nat.le_trans h.symbols h'.symbols
  scope i hi := (h'.scope i (Nat.lt_of_lt_of_le hi h.scopes)).trans (h.scope i hi)
  symbol i hi := (h'.symbol i (Nat.lt_of_lt_of_le hi h.symbols)).trans (h.symbol i hi)

theorem around (h : t.Extends t') (hij : t.Around i j) : t'.Around i j :=
  hij.mono fun i _ hp => (Scope.core_inj (h.scope i (t.lt_size_of_parent hp))).2.1.trans hp

end Extends

theorem IsIn.mono (h : t.IsIn file i) (ht : t.Extends t') : t'.IsIn file i :=
  ⟨Nat.lt_of_lt_of_le h.lt ht.scopes, (Scope.core_inj (ht.scope i h.lt)).2.2.2.1.trans h.file⟩

/-- A symbol of a file that is no namespace. -/
structure Owns (t : SymbolTable) (file : FileId) (i : SymbolId) : Prop where
  lt : i < t.symbols.size
  file : (t.symbol i).file = file
  plain : (t.symbol i).isNamespace = false

theorem Owns.mono (h : t.Owns file i) (ht : t.Extends t') : t'.Owns file i := by
  obtain ⟨hspace, -, hfile, -⟩ := Symbol.core_inj (ht.symbol i h.lt)
  exact ⟨Nat.lt_of_lt_of_le h.lt ht.symbols, hfile.trans h.file, hspace.trans h.plain⟩

/-- A symbol of a file, or a namespace. -/
structure Has (t : SymbolTable) (file : FileId) (i : SymbolId) : Prop where
  lt : i < t.symbols.size
  file : (t.symbol i).isNamespace = true ∨ (t.symbol i).file = file

theorem Has.mono (h : t.Has file i) (ht : t.Extends t') : t'.Has file i := by
  obtain ⟨hspace, -, hfile, -⟩ := Symbol.core_inj (ht.symbol i h.lt)
  refine ⟨Nat.lt_of_lt_of_le h.lt ht.symbols, ?_⟩
  rw [hspace, hfile]
  exact h.file

structure HasFunction (t : SymbolTable) (i : SymbolId) : Prop where
  lt : i < t.symbols.size
  kind : (t.symbol i).kind.isFunction = true

theorem HasFunction.mono (h : t.HasFunction i) (ht : t.Extends t') : t'.HasFunction i :=
  ⟨Nat.lt_of_lt_of_le h.lt ht.symbols, (Symbol.core_inj (ht.symbol i h.lt)).2.1.trans h.kind⟩

structure HasNamespace (t : SymbolTable) (i : SymbolId) : Prop where
  lt : i < t.symbols.size
  space : (t.symbol i).isNamespace = true

theorem HasNamespace.mono (h : t.HasNamespace i) (ht : t.Extends t') : t'.HasNamespace i :=
  ⟨Nat.lt_of_lt_of_le h.lt ht.symbols, (Symbol.core_inj (ht.symbol i h.lt)).1.trans h.space⟩

/-- What the index of namespaces leads to are namespaces. -/
def NamesNamespaces (t : SymbolTable) : Prop := ∀ entry ∈ t.namespaceIndex, t.HasNamespace entry.2

theorem NamesNamespaces.hasNamespace (h : t.NamesNamespaces)
    (hns : t.namespace? outer name = some ns) : t.HasNamespace ns := by
  obtain ⟨front, back, hindex, -⟩ := List.lookup_eq_some_iff.mp hns
  exact h _ (hindex ▸ List.mem_append_right front List.mem_cons_self)

/-- A type is looked up from a scope of a file, and what it was declared with is of that file. -/
structure HasType (t : SymbolTable) (file : FileId) (type : TypeRef) : Prop where
  site : type.site.file = file
  scope : t.IsIn file type.site.scope
  target : ∀ i, type.target = some i → t.Owns file i

theorem HasType.mono (h : t.HasType file type) (ht : t.Extends t') : t'.HasType file type :=
  ⟨h.site, h.scope.mono ht, fun i hi => (h.target i hi).mono ht⟩

/-- What a scope refers to is of its file. -/
structure HasScope (t : SymbolTable) (s : Scope) : Prop where
  members : ∀ m ∈ s.members, t.Has s.file m
  owner : ∀ o, s.owner = some o → s.isNamespaceBody = false → t.Owns s.file o

theorem HasScope.mono (h : t.HasScope s) (ht : t.Extends t') : t'.HasScope s :=
  ⟨fun m hm => (h.members m hm).mono ht, fun o ho hs => (h.owner o ho hs).mono ht⟩

/-- What a symbol refers to is of its file. -/
structure HasSymbol (t : SymbolTable) (s : Symbol) : Prop where
  body : ∀ b, s.scope = some b → s.isNamespace = false ∧ t.IsIn s.file b
  parent : ∀ p, s.parent = some p → t.IsIn s.file p
  type : ∀ type, s.type = some type → t.HasType s.file type
  bases : ∀ base ∈ s.bases, t.HasType s.file base

theorem HasSymbol.mono (h : t.HasSymbol s) (ht : t.Extends t') : t'.HasSymbol s where
  body b hb := ⟨(h.body b hb).1, (h.body b hb).2.mono ht⟩
  parent p hp := (h.parent p hp).mono ht
  type type htype := (h.type type htype).mono ht
  bases base hbase := (h.bases base hbase).mono ht

/-- All that a table refers to is where it belongs, its scopes nest, and no two symbols have their
names in one place. -/
structure Sound (t : SymbolTable) : Prop where
  nested : t.Nested
  distinct : i ∈ t.declared → j ∈ t.declared → (t.symbol i).file = (t.symbol j).file →
    (t.symbol i).nameSpan.start = (t.symbol j).nameSpan.start → i = j
  scope : ∀ i < t.scopes.size, t.HasScope (t.scope i)
  symbol : ∀ i < t.symbols.size, t.HasSymbol (t.symbol i)
  outOfLine : ∀ i ∈ t.outOfLine, t.HasFunction i
  namespaces : t.NamesNamespaces
  context (i : ScopeId) : (t.scope i).classContext = none

theorem Sound.empty : SymbolTable.empty.Sound where
  nested := by
    have hscope (i : ScopeId) : SymbolTable.empty.scope i = default :=
      scope_of_size_le _ (Nat.zero_le i)
    constructor
    · intro i p hp
      rw [hscope] at hp
      cases hp
    · intro i p hp
      rw [hscope] at hp
      cases hp
    · intro i p hp
      rw [hscope] at hp
      cases hp
    · intro p i
      rw [hscope, hscope]
      rfl
    · exact fun hi => absurd hi.lt (Nat.not_lt_zero _)
    · exact fun hi => absurd hi.lt (Nat.not_lt_zero _)
  distinct := nofun
  scope i hi := absurd hi (Nat.not_lt_zero i)
  symbol i hi := by
    obtain rfl : i = 0 := Nat.lt_one_iff.mp hi
    exact ⟨nofun, nofun, nofun, nofun⟩
  outOfLine := nofun
  namespaces := nofun
  context i := by rw [scope_of_size_le _ (Nat.zero_le i)]; rfl

theorem extends_addFile (t : SymbolTable) (file : FileId) (span : Span) :
    t.Extends (t.addFile file span).2 where
  scopes := Nat.le_trans (Nat.le_succ _) (Nat.le_of_eq (Array.size_push ..).symm)
  symbols := Nat.le_refl _
  scope i hi := by rw [scope_addFile, if_neg (Nat.ne_of_lt hi)]
  symbol _ _ := rfl

theorem extends_addDetached (t : SymbolTable) (s : Symbol) : t.Extends (t.addDetached s).2 where
  scopes := Nat.le_refl _
  symbols := by simp [addDetached]
  scope _ _ := rfl
  symbol i hi := by rw [symbol_addDetached, if_neg (Nat.ne_of_lt hi)]

theorem Sound.addDetached (h : t.Sound) (hs : t.HasSymbol s)
    (hfree : ∀ i ∈ t.declared, (t.symbol i).file = s.file →
      (t.symbol i).nameSpan.start ≠ s.nameSpan.start) : (t.addDetached s).2.Sound := by
  have ht := extends_addDetached t s
  have hsize : (t.addDetached s).2.symbols.size = t.symbols.size + 1 := by
    simp [SymbolTable.addDetached]
  have hold {i : Nat} (hi : i ∈ (t.addDetached s).2.declared) (hne : i ≠ t.symbols.size) :
      i ∈ t.declared ∧ (t.addDetached s).2.symbol i = t.symbol i := by
    rw [mem_declared, hsize] at hi
    exact ⟨t.mem_declared.mpr ⟨hi.1, by omega⟩, by rw [symbol_addDetached, if_neg hne]⟩
  have hnew : (t.addDetached s).2.symbol t.symbols.size = s := by
    rw [symbol_addDetached, if_pos rfl]
  constructor
  case nested => exact h.nested.congr rfl (fun _ => rfl) fun _ => rfl
  case distinct =>
    intro i j hi hj hfile hstart
    by_cases hi' : i = t.symbols.size
    · by_cases hj' : j = t.symbols.size
      · exact hi'.trans hj'.symm
      · obtain ⟨hj, heq⟩ := hold hj hj'
        rw [hi', hnew, heq] at hfile hstart
        exact absurd hstart.symm (hfree j hj hfile.symm)
    · obtain ⟨hi, heq⟩ := hold hi hi'
      by_cases hj' : j = t.symbols.size
      · rw [hj', hnew, heq] at hfile hstart
        exact absurd hstart (hfree i hi hfile)
      · obtain ⟨hj, heq'⟩ := hold hj hj'
        rw [heq, heq'] at hfile hstart
        exact h.distinct hi hj hfile hstart
  case scope => exact fun i hi => (h.scope i hi).mono ht
  case symbol =>
    intro i hi
    rw [hsize] at hi
    rw [symbol_addDetached]
    split
    · exact hs.mono ht
    · rename_i hne
      exact (h.symbol i (Nat.lt_of_le_of_ne (Nat.le_of_lt_succ hi) hne)).mono ht
  case outOfLine => exact fun i hi => (h.outOfLine i hi).mono ht
  case namespaces => exact fun entry he => (h.namespaces entry he).mono ht
  case context => exact h.context

/-- Where no symbol is added, it is the scopes that have to be seen to, and what is set later. -/
theorem Sound.of_extends (h : t.Sound) (ht : t.Extends t')
    (hsize : t'.symbols.size = t.symbols.size) (hout : t'.outOfLine = t.outOfLine)
    (hindex : t'.namespaceIndex = t.namespaceIndex) (hnested : t'.Nested)
    (hscope : ∀ i < t'.scopes.size, t'.HasScope (t'.scope i))
    (hsymbol : ∀ i < t.symbols.size, t'.HasSymbol (t'.symbol i))
    (hcontext : ∀ i, (t'.scope i).classContext = none) : t'.Sound where
  nested := hnested
  distinct {i j} hi hj hfile hstart := by
    rw [mem_declared, hsize] at hi hj
    obtain ⟨-, -, hfi, hni, -⟩ := Symbol.core_inj (ht.symbol i hi.2)
    obtain ⟨-, -, hfj, hnj, -⟩ := Symbol.core_inj (ht.symbol j hj.2)
    rw [hfi, hfj] at hfile
    rw [hni, hnj] at hstart
    exact h.distinct (t.mem_declared.mpr hi) (t.mem_declared.mpr hj) hfile hstart
  scope := hscope
  symbol i hi := hsymbol i (hsize ▸ hi)
  outOfLine i hi := (h.outOfLine i (hout ▸ hi)).mono ht
  namespaces entry he := (h.namespaces entry (hindex ▸ he)).mono ht
  context := hcontext

theorem Sound.addFile (h : t.Sound) (hnew : ∀ i < t.scopes.size, (t.scope i).file ≠ file)
    (span : Span) : (t.addFile file span).2.Sound := by
  have ht := t.extends_addFile file span
  refine h.of_extends ht rfl rfl rfl (h.nested.addFile hnew span) (fun i hi => ?_)
    (fun i hi => (h.symbol i hi).mono ht) fun i => ?_
  · rw [scope_addFile]
    split
    · exact ⟨nofun, nofun⟩
    · rename_i hne
      have hlt : i < t.scopes.size + 1 := Nat.lt_of_lt_of_eq hi (Array.size_push ..)
      exact (h.scope i (Nat.lt_of_le_of_ne (Nat.le_of_lt_succ hlt) hne)).mono ht
  · rw [scope_addFile]
    split
    · rfl
    · exact h.context i

section modifyScope

variable {f : Scope → Scope} (hcore : ∀ s, (f s).core = s.core)

include hcore

theorem extends_modifyScope (t : SymbolTable) (i : ScopeId) : t.Extends (t.modifyScope i f) where
  scopes := Nat.le_of_eq (size_modifyScope ..).symm
  symbols := Nat.le_refl _
  scope j _ := t.scope_modifyScope_eq hcore i j
  symbol _ _ := rfl

theorem Sound.modifyScope (h : t.Sound) (hchildren : ∀ s, (f s).children = s.children)
    (hcontext : ∀ s, (f s).classContext = s.classContext)
    (hmembers : ∀ m ∈ (f (t.scope i)).members,
      m ∈ (t.scope i).members ∨ t.Has (t.scope i).file m) : (t.modifyScope i f).Sound := by
  have ht := extends_modifyScope hcore t i
  refine h.of_extends ht rfl rfl rfl ?_ (fun j hj => ?_)
    (fun j hj => (h.symbol j hj).mono ht) fun j => ?_
  · refine h.nested.congr (size_modifyScope ..) (t.scope_modifyScope_eq hcore i) fun j => ?_
    exact t.scope_modifyScope_eq hchildren i j
  · rw [size_modifyScope] at hj
    have hscope := (h.scope j hj).mono ht
    rw [scope_modifyScope]
    split
    · rename_i hij
      obtain ⟨hkind, -, howner, hfile, -⟩ := Scope.core_inj (hcore (t.scope j))
      constructor
      · intro m hm
        rw [hfile]
        rcases hij.1 ▸ hmembers m (hij.1 ▸ hm) with hm | hm
        · exact hscope.members m hm
        · exact hm.mono ht
      · intro o ho hbody
        rw [hfile]
        refine hscope.owner o (howner ▸ ho) ?_
        rwa [Scope.isNamespaceBody, ← hkind]
    · exact hscope
  · exact (t.scope_modifyScope_eq hcontext i j).trans (h.context j)

end modifyScope

section setFlags

variable (f : SymbolFlags → SymbolFlags)

theorem extends_setFlags (t : SymbolTable) (i : SymbolId) :
    t.Extends (t.modifySymbol i fun s => { s with flags := f s.flags }) where
  scopes := Nat.le_refl _
  symbols := Nat.le_of_eq (size_modifySymbol ..).symm
  scope _ _ := rfl
  symbol j _ := by
    refine t.symbol_modifySymbol_eq (g := Symbol.core) ?_ i j
    exact fun _ => rfl

theorem Sound.setFlags (h : t.Sound) (i : SymbolId) :
    (t.modifySymbol i fun s => { s with flags := f s.flags }).Sound := by
  have ht := extends_setFlags f t i
  refine h.of_extends ht (size_modifySymbol ..) rfl rfl ?_ (fun j hj => (h.scope j hj).mono ht)
    (fun j hj => ?_) h.context
  · exact h.nested.congr rfl (fun _ => rfl) fun _ => rfl
  · have hold := (h.symbol j hj).mono ht
    rw [symbol_modifySymbol]
    split
    · exact ⟨hold.body, hold.parent, hold.type, hold.bases⟩
    · exact hold

end setFlags

theorem extends_putOutOfLine (t : SymbolTable) (i : SymbolId) :
    t.Extends { t with outOfLine := t.outOfLine ++ [i] } :=
  ⟨Nat.le_refl _, Nat.le_refl _, fun _ _ => rfl, fun _ _ => rfl⟩

theorem Sound.putOutOfLine (h : t.Sound) (hi : t.HasFunction i) :
    Sound { t with outOfLine := t.outOfLine ++ [i] } where
  nested := h.nested.congr rfl (fun _ => rfl) fun _ => rfl
  distinct := h.distinct
  scope j hj := (h.scope j hj).mono (extends_putOutOfLine t i)
  symbol j hj := (h.symbol j hj).mono (extends_putOutOfLine t i)
  outOfLine j hj := by
    refine HasFunction.mono ?_ (extends_putOutOfLine t i)
    rcases List.mem_append.mp hj with hj | hj
    · exact h.outOfLine j hj
    · exact List.mem_singleton.mp hj ▸ hi
  namespaces entry he := (h.namespaces entry he).mono (extends_putOutOfLine t i)
  context := h.context

section addScope

variable (kind : ScopeKind) (p : ScopeId) (owner : Option SymbolId) (span : Span)

theorem extends_addScope (t : SymbolTable) : t.Extends (t.addScope kind p owner span).2 where
  scopes := by simp
  symbols := Nat.le_of_eq (size_symbols_addScope ..).symm
  scope i hi := core_addScope kind p owner span (Nat.ne_of_lt hi)
  symbol i _ := by
    rw [symbol_addScope]
    split
    · rfl
    · rfl

theorem Sound.addScope (h : t.Sound) (hp : t.IsIn file p) (hspan : span.Within (t.scope p).span)
    (haround : ∀ i o, t.IsIn file i → o ∈ span.offsets → o ∈ (t.scope i).span.offsets →
      t.Around p i)
    (howner : ∀ o, owner = some o → kind ≠ .namespaceBlock → t.Owns file o) :
    (t.addScope kind p owner span).2.Sound := by
  have ht := extends_addScope kind p owner span t
  have hself := scope_addScope_self (t := t) kind p owner span
  refine h.of_extends ht (size_symbols_addScope ..) (outOfLine_addScope ..)
    (namespaceIndex_addScope ..) (h.nested.addScope kind p owner span hp hspan haround)
    (fun i hi => ?_) (fun i hi => ?_) fun i => ?_
  · by_cases hin : i = t.scopes.size
    · rw [hin, hself]
      refine ⟨nofun, fun o ho hbody => ?_⟩
      have hk : kind ≠ .namespaceBlock := by
        rintro rfl
        cases hbody
      exact hp.file ▸ (howner o ho hk).mono ht
    · rw [size_scopes_addScope] at hi
      have hold := (h.scope i (Nat.lt_of_le_of_ne (Nat.le_of_lt_succ hi) hin)).mono ht
      rw [scope_addScope, if_neg hin, scope_modifyScope]
      split
      · exact ⟨hold.members, hold.owner⟩
      · exact hold
  · have hold := (h.symbol i hi).mono ht
    rw [symbol_addScope]
    split
    · rename_i ho
      have howns := howner i ho.2.1 ho.1
      refine ⟨fun b hb => ?_, hold.parent, hold.type, hold.bases⟩
      obtain rfl := Option.some.inj hb
      refine ⟨howns.plain, by simp, ?_⟩
      rw [hself]
      exact hp.file.trans howns.file.symm
    · exact hold
  · by_cases hin : i = t.scopes.size
    · rw [hin, hself]
      rfl
    · rw [scope_addScope, if_neg hin]
      refine (t.scope_modifyScope_eq (g := Scope.classContext) ?_ p i).trans (h.context i)
      exact fun _ => rfl

end addScope

end SymbolTable

end CppRefactor
