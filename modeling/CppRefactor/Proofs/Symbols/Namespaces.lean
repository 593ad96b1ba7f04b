import CppRefactor.Proofs.Symbols.Lookup
import CppRefactor.Proofs.Symbols.Members
import Mathlib.Data.List.Nodup

/-!
Namespaces and their blocks. However often a namespace is opened, in whatever file, one symbol
stands for it: that of its name inside the namespace around it. All of its blocks have that symbol
as their owner, and its members are those that the blocks list.
-/

namespace CppRefactor

namespace SymbolTable

/-- A block of a namespace in a scope. -/
structure IsBlock (t : SymbolTable) (b p : ScopeId) (ns : SymbolId) : Prop where
  kind : (t.scope b).kind = .namespaceBlock
  parent : (t.scope b).parent = some p
  owner : (t.scope b).owner = some ns

/-- A scope lists a namespace of a name that is declared in it. -/
structure HasSpace (t : SymbolTable) (p : ScopeId) (name : String) (ns : SymbolId) : Prop where
  isSpace : t.IsSpace (t.spaceOf p) name ns
  listed : ns ∈ (t.scope p).members

variable {t t' : SymbolTable}

theorem Extends.spaceOf (ht : t.Extends t') {p : ScopeId} (hp : p < t.scopes.size) :
    t'.spaceOf p = t.spaceOf p := by
  rw [SymbolTable.spaceOf, SymbolTable.spaceOf, (Scope.core_inj (ht.scope p hp)).2.2.1]

/-- What is a namespace of a name stays one, and no symbol that is there becomes one. -/
theorem Extends.isSpace_iff (ht : t.Extends t') (h : t.Listed) {outer : SymbolId} {name : String}
    {ns : SymbolId} (hns : ns < t.symbols.size) :
    t'.IsSpace outer name ns ↔ t.IsSpace outer name ns := by
  obtain ⟨hspace, -, -, -, hparent, -⟩ := Symbol.core_inj (ht.symbol ns hns)
  have hname := Symbol.core_name (ht.symbol ns hns)
  have houter : (∃ p, (t'.symbol ns).parent = some p ∧ t'.spaceOf p = outer) ↔
      ∃ p, (t.symbol ns).parent = some p ∧ t.spaceOf p = outer := by
    rw [hparent]
    refine exists_congr fun p => and_congr_right fun hp => ?_
    rw [ht.spaceOf (h.parent_lt hns hp)]
  constructor
  · intro hs
    exact ⟨t.mem_declared.mpr ⟨(t'.mem_declared.mp hs.declared).1, hns⟩, hspace ▸ hs.space,
      hname ▸ hs.name, houter.mp hs.outer⟩
  · intro hs
    refine ⟨t'.mem_declared.mpr ⟨(t.mem_declared.mp hs.declared).1, ?_⟩, hspace ▸ hs.space,
      hname ▸ hs.name, houter.mpr hs.outer⟩
    exact Nat.lt_of_lt_of_le hns ht.symbols

theorem IsBlock.mono {b p : ScopeId} {ns : SymbolId} (h : t.IsBlock b p ns) (ht : t.Extends t') :
    t'.IsBlock b p ns := by
  obtain ⟨hkind, hparent, howner, -⟩ := Scope.core_inj (ht.scope b (t.lt_size_of_block h.kind))
  exact ⟨hkind.trans h.kind, hparent.trans h.parent, howner.trans h.owner⟩

theorem HasSpace.mono {p : ScopeId} {name : String} {ns : SymbolId} (h : t.HasSpace p name ns)
    (hl : t.Listed) (ht : t.Extends t') (hmembers : (t.scope p).members ⊆ (t'.scope p).members) :
    t'.HasSpace p name ns := by
  refine ⟨?_, hmembers h.listed⟩
  rw [ht.spaceOf (t.lt_size_of_mem h.listed), ht.isSpace_iff hl (hl.lt_size h.listed)]
  exact h.isSpace

/-- No scope that is new is a block. -/
def NoBlocks (t t' : SymbolTable) : Prop :=
  ∀ b, t.scopes.size ≤ b → b < t'.scopes.size → (t'.scope b).kind ≠ .namespaceBlock

theorem NoBlocks.of_size (h : t'.scopes.size = t.scopes.size) : t.NoBlocks t' :=
  fun _ hge hlt => absurd hlt (Nat.not_lt.mpr (h ▸ hge))

theorem noBlocks_addScope {kind : ScopeKind} (hk : kind ≠ .namespaceBlock) (p : ScopeId)
    (owner : Option SymbolId) (span : Span) : t.NoBlocks (t.addScope kind p owner span).2 := by
  intro b hge hlt
  rw [size_scopes_addScope] at hlt
  rw [scope_addScope, if_pos (Nat.le_antisymm (Nat.le_of_lt_succ hlt) hge)]
  exact hk

theorem noBlocks_addFile (file : FileId) (span : Span) : t.NoBlocks (t.addFile file span).2 := by
  intro b hge hlt
  have hlt : b < t.scopes.size + 1 := Nat.lt_of_lt_of_eq hlt (Array.size_push ..)
  rw [scope_addFile, if_pos (Nat.le_antisymm (Nat.le_of_lt_succ hlt) hge)]
  exact nofun

/-- The index of namespaces leads to each namespace from its place and its name, the scopes that
list it are in that place, and each block is in a scope that lists its owner. -/
structure Spaced (t : SymbolTable) : Prop extends t.Listed where
  indexed : t.namespace? outer name = some ns ↔ t.IsSpace outer name ns
  inside : ns ∈ (t.scope p).members → (t.symbol ns).isNamespace = true →
    t.IsSpace (t.spaceOf p) (t.symbol ns).name ns
  block : (t.scope b).kind = .namespaceBlock →
    ∃ p ns, t.IsBlock b p ns ∧ (t.symbol ns).isNamespace = true ∧ ns ∈ (t.scope p).members

namespace Spaced

variable {p : ScopeId} {name : String} {ns : SymbolId} (h : t.Spaced)

include h

theorem unique (hns : t.IsSpace outer name ns) (hns' : t.IsSpace outer name ns') : ns = ns' :=
  Option.some.inj ((h.indexed.mpr hns).symm.trans (h.indexed.mpr hns'))

/-- A table that has grown is to be looked at where a namespace or a block of one is new. -/
theorem of_extends (hl : t'.Listed) (ht : t.Extends t')
    (hindexed : ∀ outer name ns, t'.namespace? outer name = some ns ↔
      t.namespace? outer name = some ns ∨ (t.symbols.size ≤ ns ∧ t'.IsSpace outer name ns))
    (hmembers : ∀ p, (t.scope p).members ⊆ (t'.scope p).members)
    (hinside : ∀ p, ∀ m ∈ (t'.scope p).members, (t'.symbol m).isNamespace = true →
      m ∈ (t.scope p).members ∨ t'.IsSpace (t'.spaceOf p) (t'.symbol m).name m)
    (hblock : ∀ b, t.scopes.size ≤ b → (t'.scope b).kind = .namespaceBlock →
      ∃ p ns, t'.IsBlock b p ns ∧ (t'.symbol ns).isNamespace = true ∧
        ns ∈ (t'.scope p).members) : t'.Spaced where
  toListed := hl
  indexed {outer name ns} := by
    rw [hindexed, h.indexed]
    rcases Nat.lt_or_ge ns t.symbols.size with hlt | hge
    · rw [ht.isSpace_iff h.toListed hlt]
      exact or_iff_left fun hnew => Nat.not_le.mpr hlt hnew.1
    · refine ⟨fun hns => hns.elim (fun hold => ?_) And.right, fun hns => .inr ⟨hge, hns⟩⟩
      exact absurd (t.mem_declared.mp hold.declared).2 (Nat.not_lt.mpr hge)
  inside {p m} hm hspace := by
    rcases hinside p m hm hspace with hold | hnew
    · have hlt := h.lt_size hold
      rw [ht.spaceOf (t.lt_size_of_mem hold), ht.isSpace_iff h.toListed hlt,
        Symbol.core_name (ht.symbol m hlt)]
      rw [(Symbol.core_inj (ht.symbol m hlt)).1] at hspace
      exact h.inside hold hspace
    · exact hnew
  block {b} hb := by
    rcases Nat.lt_or_ge b t.scopes.size with hlt | hge
    · rw [(Scope.core_inj (ht.scope b hlt)).1] at hb
      obtain ⟨p, ns, hblock, hspace, hm⟩ := h.block hb
      refine ⟨p, ns, hblock.mono ht, ?_, hmembers p hm⟩
      exact (Symbol.core_inj (ht.symbol ns (h.lt_size hm))).1.trans hspace
    · exact hblock b hge hb

theorem of_plain (hl : t'.Listed) (ht : t.Extends t')
    (hindex : t'.namespaceIndex = t.namespaceIndex)
    (hplain : ∀ i, t.symbols.size ≤ i → i < t'.symbols.size → (t'.symbol i).isNamespace = false)
    (hmembers : ∀ p, (t.scope p).members ⊆ (t'.scope p).members)
    (hlisted : ∀ p, ∀ m ∈ (t'.scope p).members, m < t.symbols.size → m ∈ (t.scope p).members)
    (hblock : t.NoBlocks t') : t'.Spaced := by
  have hold {i : SymbolId} (hi : i < t'.symbols.size) (hs : (t'.symbol i).isNamespace = true) :
      i < t.symbols.size :=
    Nat.lt_of_not_le fun hge => nomatch hs.symm.trans (hplain i hge hi)
  refine h.of_extends hl ht (fun outer name ns => ?_) hmembers
    (fun p m hm hs => .inl (hlisted p m hm (hold (hl.lt_size hm) hs))) fun b hge hb => ?_
  · rw [namespace?, hindex, ← namespace?]
    refine (or_iff_left fun ⟨hge, hns⟩ => ?_).symm
    exact Nat.not_le.mpr (hold (t'.mem_declared.mp hns.declared).2 hns.space) hge
  · exact absurd hb (hblock b hge (t'.lt_size_of_block hb))

theorem congr (ht : t.Extends t') (hindex : t'.namespaceIndex = t.namespaceIndex)
    (hsize : t'.symbols.size = t.symbols.size)
    (hmembers : ∀ p, (t'.scope p).members = (t.scope p).members)
    (hblock : t.NoBlocks t') : t'.Spaced := by
  refine h.of_plain (h.toListed.congr ht hsize hmembers) ht hindex (fun i hge hlt => ?_)
    (fun p m hm => (hmembers p).symm ▸ hm) (fun p m hm _ => hmembers p ▸ hm) hblock
  exact absurd hlt (Nat.not_lt.mpr (hsize ▸ hge))

theorem add {p : ScopeId} {s : Symbol} (hs : s.parent = some p) (hplain : s.isNamespace = false)
    (hp : p < t.scopes.size) : (t.add s).2.Spaced := by
  refine h.of_plain (h.toListed.add hs hp) (t.extends_add s) (t.namespaceIndex_add s)
    (fun i hge hlt => ?_) (fun q m hm => ?_) (fun q m hm hlt => ?_) (.of_size (t.size_scopes_add s))
  · rw [t.symbol_add_new hge hlt]
    exact hplain
  · exact (mem_members_add hs hp q m).mpr (.inl hm)
  · refine ((mem_members_add hs hp q m).mp hm).resolve_right fun hm => ?_
    exact Nat.ne_of_lt hlt hm.2

theorem addOutOfLine {p : ScopeId} {s : Symbol} (hs : s.parent = some p)
    (hplain : s.isNamespace = false) (hp : p < t.scopes.size) : (t.addOutOfLine s).2.Spaced := by
  refine h.of_plain (h.toListed.addOutOfLine hs hp) (t.extends_addOutOfLine s) rfl
    (fun i hge hlt => ?_) (fun q m hm => hm) (fun q m hm _ => hm) (.of_size rfl)
  rw [t.symbol_addOutOfLine_new hge hlt]
  exact hplain

theorem listNamespace (hns : t.IsSpace (t.spaceOf p) name ns) (hp : p < t.scopes.size) :
    (t.listNamespace p ns).Spaced ∧ (t.listNamespace p ns).HasSpace p name ns := by
  have ht := t.extends_listNamespace p ns
  have hhas : (t.listNamespace p ns).IsSpace ((t.listNamespace p ns).spaceOf p) name ns := by
    rw [ht.spaceOf hp, ht.isSpace_iff h.toListed (t.mem_declared.mp hns.declared).2]
    exact hns
  have hmem := mem_members_listNamespace hp ns
  have hl := h.toListed.listNamespace hns.declared hns.space hp
  refine ⟨h.of_extends hl ht ?_ ?_ ?_ ?_, hhas, ?_⟩
  · intro outer name ns
    refine (or_iff_left fun ⟨hge, hns⟩ => ?_).symm
    exact Nat.not_le.mpr (mem_declared _ |>.mp hns.declared).2 hge
  · exact fun q m hm => (hmem q m).mpr (.inl hm)
  · intro q m hm _
    refine ((hmem q m).mp hm).imp_right fun hm => ?_
    rw [hm.1, hm.2, hhas.name]
    exact hhas
  · intro b hge hb
    exact absurd (lt_size_of_block _ hb) (Nat.not_lt.mpr (t.size_modifyScope p _ ▸ hge))
  · exact (hmem p ns).mpr (.inr ⟨rfl, rfl⟩)

omit h in
theorem namespace?_addNamespace (name : String) (p : ScopeId) (span : Span) (outer : SymbolId)
    (name' : String) : (t.addNamespace name p span).2.namespace? outer name' =
      if (outer, name') == (t.spaceOf p, name) then some t.symbols.size
      else t.namespace? outer name' := by
  rw [addNamespace_eq]
  refine (lookup_cons_ite ..).trans ?_
  rw [namespaceIndex_add, ← namespace?]

/-- A namespace to which the index does not lead is new, and the index leads to it then. -/
theorem addNamespace (hnone : t.namespace? (t.spaceOf p) name = none) (hp : p < t.scopes.size)
    (span : Span) : (t.addNamespace name p span).2.Spaced ∧
      (t.addNamespace name p span).2.HasSpace p name (t.addNamespace name p span).1 := by
  have ht := t.extends_addNamespace name p span
  have hl := h.toListed.addNamespace name hp span
  have hmem (q : ScopeId) (m : SymbolId) : m ∈ ((t.addNamespace name p span).2.scope q).members ↔
      m ∈ (t.scope q).members ∨ q = p ∧ m = t.symbols.size :=
    mem_members_addNamespace hp span q m
  have hself := t.symbol_addNamespace name p span t.symbols.size
  have hsize := t.size_symbols_addNamespace name p span
  have hscopes := t.size_scopes_addNamespace name p span
  have hindex := namespace?_addNamespace (t := t) name p span
  rw [if_pos rfl] at hself
  rw [addNamespace_fst]
  generalize (t.addNamespace name p span).2 = t' at *
  have hhas : t'.IsSpace (t'.spaceOf p) name t.symbols.size := by
    refine ⟨t'.mem_declared.mpr ⟨h.pos, by omega⟩, ?_, ?_, p, ?_, rfl⟩
    all_goals rw [hself]; rfl
  have hspace := ht.spaceOf hp
  have hlast {ns outer : SymbolId} {name' : String} (hge : t.symbols.size ≤ ns)
      (hns : t'.IsSpace outer name' ns) : (outer, name') = (t.spaceOf p, name) ∧
        ns = t.symbols.size := by
    have hlt := (t'.mem_declared.mp hns.declared).2
    rw [hsize] at hlt
    obtain rfl := Nat.le_antisymm (Nat.le_of_lt_succ hlt) hge
    obtain ⟨q, hq, rfl⟩ := hns.outer
    rw [hself] at hq
    obtain rfl : p = q := Option.some.inj hq
    rw [hspace, ← hns.name, hself]
    exact ⟨rfl, rfl⟩
  refine ⟨h.of_extends hl ht (fun outer name' ns => ?_) ?_ ?_ ?_, hhas, ?_⟩
  · rw [hindex]
    split
    · rename_i hkey
      obtain ⟨rfl, rfl⟩ := Prod.mk.inj (eq_of_beq hkey)
      rw [hnone, Option.some.injEq]
      refine ⟨?_, fun hns => (hns.resolve_left nofun).elim fun hge hns => (hlast hge hns).2.symm⟩
      rintro rfl
      exact .inr ⟨Nat.le_refl _, hspace ▸ hhas⟩
    · rename_i hkey
      refine (or_iff_left fun ⟨hge, hns⟩ => hkey ?_).symm
      exact beq_iff_eq.mpr (hlast hge hns).1
  · exact fun q m hm => (hmem q m).mpr (.inl hm)
  · intro q m hm _
    refine ((hmem q m).mp hm).imp_right fun hm => ?_
    rw [hm.1, hm.2, hhas.name]
    exact hhas
  · intro b hge hb
    exact absurd (lt_size_of_block _ hb) (Nat.not_lt.mpr (hscopes ▸ hge))
  · exact (hmem p _).mpr (.inr ⟨rfl, rfl⟩)

/-- A namespace is there behind its declaration, and the scope lists it. -/
theorem declareNamespace (hp : p < t.scopes.size) (name : String) (span : Span) :
    (t.declareNamespace name p span).2.Spaced ∧
      (t.declareNamespace name p span).2.HasSpace p name (t.declareNamespace name p span).1 := by
  rcases t.declareNamespace_cases name p span with ⟨ns, hns, heq⟩ | ⟨hnone, heq⟩
  · rw [heq]
    exact h.listNamespace (h.indexed.mp hns) hp
  · rw [heq]
    exact h.addNamespace hnone hp span

theorem addScope {kind : ScopeKind} (hk : kind ≠ .namespaceBlock) (p : ScopeId)
    (owner : Option SymbolId) (span : Span) : (t.addScope kind p owner span).2.Spaced :=
  h.congr (extends_addScope ..) (namespaceIndex_addScope ..) (size_symbols_addScope ..)
    (t.members_addScope kind p owner span) (noBlocks_addScope hk p owner span)

theorem addBlock (hns : t.HasSpace p name ns) (span : Span) :
    let t' := (t.addScope .namespaceBlock p (some ns) span).2
    t'.Spaced ∧ t'.IsBlock t.scopes.size p ns ∧ (t'.scope t.scopes.size).span = span ∧
      t'.HasSpace p name ns := by
  have hself := t.scope_addScope_self .namespaceBlock p (some ns) span
  have ht := extends_addScope .namespaceBlock p (some ns) span t
  have hsize := t.size_symbols_addScope .namespaceBlock p (some ns) span
  have hscopes := t.size_scopes_addScope .namespaceBlock p (some ns) span
  have hmembers := t.members_addScope .namespaceBlock p (some ns) span
  have hindex := t.namespaceIndex_addScope .namespaceBlock p (some ns) span
  have hl := h.toListed.congr ht hsize hmembers
  generalize (t.addScope .namespaceBlock p (some ns) span).2 = t' at *
  have hhas := hns.mono h.toListed ht fun m hm => (hmembers p).symm ▸ hm
  have hblock : t'.IsBlock t.scopes.size p ns := by
    constructor
    all_goals rw [hself]; rfl
  refine ⟨h.of_extends hl ht (fun outer name ns => ?_) (fun q m hm => ?_)
    (fun q m hm _ => .inl (hmembers q ▸ hm)) fun b hge hb => ?_, hblock, ?_, hhas⟩
  · rw [namespace?, hindex, ← namespace?]
    refine (or_iff_left fun ⟨hge, hns⟩ => ?_).symm
    exact Nat.not_le.mpr (hsize ▸ (t'.mem_declared.mp hns.declared).2) hge
  · exact (hmembers q).symm ▸ hm
  · have hlt := t'.lt_size_of_block hb
    rw [hscopes] at hlt
    obtain rfl : b = t.scopes.size := Nat.le_antisymm (Nat.le_of_lt_succ hlt) hge
    exact ⟨p, ns, hblock, hhas.isSpace.space, hhas.listed⟩
  · rw [hself]
    rfl

theorem addFile (file : FileId) (span : Span) : (t.addFile file span).2.Spaced :=
  h.congr (t.extends_addFile file span) rfl rfl (t.members_addFile file span)
    (noBlocks_addFile file span)

theorem modifyScope {f : Scope → Scope} (hcore : ∀ s, (f s).core = s.core)
    (hmembers : ∀ s, (f s).members = s.members) (id : ScopeId) : (t.modifyScope id f).Spaced :=
  h.congr (t.extends_modifyScope hcore id) rfl rfl (t.scope_modifyScope_eq hmembers id)
    (.of_size (t.size_modifyScope id f))

theorem setInline (id : SymbolId) : (t.setInline id).Spaced :=
  h.congr (t.extends_setInline id) rfl (size_modifySymbol ..) (fun _ => rfl) (.of_size rfl)

theorem openBlock (hp : p < t.scopes.size) (name : String × Span) (isInline : Bool)
    (span : Span) :
    let t' := (t.openBlock p name isInline span).2
    t'.Spaced ∧ ∃ ns, t'.IsBlock t.scopes.size p ns ∧ (t'.scope t.scopes.size).span = span ∧
      t'.HasSpace p name.1 ns := by
  obtain ⟨hspaced, hns⟩ := h.declareNamespace hp name.1 name.2
  rw [← t.size_scopes_declareNamespace name.1 p name.2]
  unfold SymbolTable.openBlock
  dsimp only
  generalize t.declareNamespace name.1 p name.2 = declared at *
  split
  · have hns := hns.mono hspaced.toListed (extends_setInline _ declared.1) (List.Subset.refl _)
    obtain ⟨hspaced, hblock⟩ := (hspaced.setInline declared.1).addBlock hns span
    exact ⟨hspaced, _, hblock⟩
  · obtain ⟨hspaced, hblock⟩ := hspaced.addBlock hns span
    exact ⟨hspaced, _, hblock⟩

theorem setVisible (file : FileId) (files : List FileId) : (t.setVisible file files).Spaced :=
  h.congr (t.extends_setVisible file files) rfl rfl (fun _ => rfl) (.of_size rfl)

theorem linked (hl : t.Linked t') : t'.Spaced :=
  h.congr hl.toExtends hl.namespaceIndex hl.symbols (fun p => (hl.scope_eq p).2.1)
    (.of_size hl.scopes)

end Spaced

theorem Spaced.empty : SymbolTable.empty.Spaced where
  toListed := .empty
  indexed {_ _ ns} := by
    refine iff_of_false nofun fun hns => ?_
    obtain ⟨hpos, hlt⟩ := (mem_declared _).mp hns.declared
    exact absurd hlt (Nat.not_lt.mpr hpos)
  inside hm := by
    rw [scope_of_size_le _ (Nat.zero_le _)] at hm
    cases hm
  block {b} hb := by
    rw [scope_of_size_le _ (Nat.zero_le b)] at hb
    cases hb

namespace Spaced

variable {b b' p p' : ScopeId} {ns ns' : SymbolId} (h : t.Spaced)

include h

theorem isBlock (hb : t.IsBlock b p ns) :
    (t.symbol ns).isNamespace = true ∧ ns ∈ (t.scope p).members := by
  obtain ⟨q, o, hblock, hspace, hlisted⟩ := h.block hb.kind
  obtain rfl := Option.some.inj (hb.parent.symm.trans hblock.parent)
  obtain rfl := Option.some.inj (hb.owner.symm.trans hblock.owner)
  exact ⟨hspace, hlisted⟩

/-- Blocks belong to one namespace if they stand in one and have one name. -/
theorem owner_eq_iff (hb : t.IsBlock b p ns) (hb' : t.IsBlock b' p' ns') :
    ns = ns' ↔ t.spaceOf p = t.spaceOf p' ∧ (t.symbol ns).name = (t.symbol ns').name := by
  have hns := h.inside (h.isBlock hb).2 (h.isBlock hb).1
  have hns' := h.inside (h.isBlock hb').2 (h.isBlock hb').1
  constructor
  · rintro rfl
    obtain ⟨q, hq, houter⟩ := hns.outer
    obtain ⟨q', hq', houter'⟩ := hns'.outer
    obtain rfl := Option.some.inj (hq.symm.trans hq')
    exact ⟨houter.symm.trans houter', rfl⟩
  · rintro ⟨hspace, hname⟩
    rw [hspace, hname] at hns
    exact h.unique hns hns'

theorem count_members (hb : t.IsBlock b p ns) : (t.scope p).members.count ns = 1 :=
  List.count_eq_one_of_mem (h.nodup p) (h.isBlock hb).2

end Spaced

theorem Indexed.count_blocks (h : t.Indexed) (hb : t.IsBlock b p ns) :
    (t.blocks ns).count b = 1 := by
  refine List.count_eq_one_of_mem (h.pairwise_blocks ns).nodup (h.mem_blocks.mpr ⟨?_, hb.owner⟩)
  rw [Scope.isNamespaceBody, hb.kind]
  rfl

theorem members_namespace {ns : SymbolId} (h : (t.symbol ns).isNamespace = true) :
    t.members ns = distinct ((t.blocks ns).flatMap fun b => (t.scope b).members) := by
  rw [members, if_pos h]

end SymbolTable

end CppRefactor
