import CppRefactor.Proofs.Symbols.Placement

/-!
What scopes list as members. No scope lists a symbol twice, and what is no namespace is listed by
its parent only.
-/

namespace CppRefactor

namespace SymbolTable

variable {t t' : SymbolTable}

/-- A namespace of a name inside another one. -/
structure IsSpace (t : SymbolTable) (outer : SymbolId) (name : String) (ns : SymbolId) : Prop where
  declared : ns ∈ t.declared
  space : (t.symbol ns).isNamespace = true
  name : (t.symbol ns).name = name
  outer : ∃ p, (t.symbol ns).parent = some p ∧ t.spaceOf p = outer

theorem mem_members_listNamespace {p : ScopeId} (hp : p < t.scopes.size) (ns : SymbolId)
    (q : ScopeId) (m : SymbolId) : m ∈ ((t.listNamespace p ns).scope q).members ↔
      m ∈ (t.scope q).members ∨ q = p ∧ m = ns := by
  rw [listNamespace, scope_modifyScope]
  by_cases hq : q = p
  · subst hq
    rw [if_pos ⟨rfl, hp⟩]
    split
    · rename_i hmem
      have hmem := List.contains_iff_mem.mp hmem
      exact ⟨.inl, fun hm => hm.elim id fun hm => hm.2 ▸ hmem⟩
    · simp
  · rw [if_neg fun h => hq h.1]
    exact ⟨.inl, fun hm => hm.resolve_right fun hm => hq hm.1⟩

theorem mem_members_add {p : ScopeId} {s : Symbol} (hs : s.parent = some p)
    (hp : p < t.scopes.size) (q : ScopeId) (m : SymbolId) :
    m ∈ ((t.add s).2.scope q).members ↔
      m ∈ (t.scope q).members ∨ q = p ∧ m = t.symbols.size := by
  rw [t.members_add hs hp]
  split
  · rename_i hq
    simp [hq]
  · rename_i hq
    simp [hq]

theorem mem_members_addNamespace {name : String} {p : ScopeId} (hp : p < t.scopes.size)
    (span : Span) (q : ScopeId) (m : SymbolId) :
    m ∈ ((t.addNamespace name p span).2.scope q).members ↔
      m ∈ (t.scope q).members ∨ q = p ∧ m = t.symbols.size := by
  rw [addNamespace_eq]
  exact mem_members_add rfl hp q m

/-- A symbol that a scope may list: one that is declared there, or a namespace, which is listed by
all scopes that have a block of it. -/
structure Lists (t : SymbolTable) (p : ScopeId) (m : SymbolId) : Prop where
  declared : m ∈ t.declared
  parent : (t.symbol m).isNamespace = false → (t.symbol m).parent = some p

theorem Lists.mono (h : t.Lists p m) (ht : t.Extends t') : t'.Lists p m := by
  obtain ⟨hpos, hlt⟩ := t.mem_declared.mp h.declared
  obtain ⟨hspace, -, -, -, hparent, -⟩ := Symbol.core_inj (ht.symbol m hlt)
  refine ⟨t'.mem_declared.mpr ⟨hpos, Nat.lt_of_lt_of_le hlt ht.symbols⟩, ?_⟩
  rw [hspace, hparent]
  exact h.parent

/-- Scopes list what they may, and nothing twice. -/
structure Listed (t : SymbolTable) : Prop where
  pos : 0 < t.symbols.size
  parent_lt : i < t.symbols.size → (t.symbol i).parent = some p → p < t.scopes.size
  lists : m ∈ (t.scope p).members → t.Lists p m
  nodup (p : ScopeId) : (t.scope p).members.Nodup

namespace Listed

variable {p : ScopeId}

theorem empty : SymbolTable.empty.Listed where
  pos := Nat.one_pos
  parent_lt {i p} hi hp := by
    obtain rfl : i = 0 := Nat.lt_one_iff.mp hi
    cases hp
  lists hm := by
    rw [scope_of_size_le _ (Nat.zero_le _)] at hm
    cases hm
  nodup p := by
    rw [scope_of_size_le _ (Nat.zero_le p)]
    exact List.nodup_nil

variable (h : t.Listed)

include h

theorem lt_size (hm : m ∈ (t.scope p).members) : m < t.symbols.size :=
  (t.mem_declared.mp (h.lists hm).declared).2

theorem of_extends (ht : t.Extends t')
    (hparent : ∀ i p, t.symbols.size ≤ i → i < t'.symbols.size →
      (t'.symbol i).parent = some p → p < t'.scopes.size)
    (hlists : ∀ p, ∀ m ∈ (t'.scope p).members, m ∈ (t.scope p).members ∨ t'.Lists p m)
    (hnodup : ∀ p, (t'.scope p).members.Nodup) : t'.Listed where
  pos := Nat.lt_of_lt_of_le h.pos ht.symbols
  parent_lt {i p} hi hp := by
    rcases Nat.lt_or_ge i t.symbols.size with hlt | hge
    · rw [(Symbol.core_inj (ht.symbol i hlt)).2.2.2.2.1] at hp
      exact Nat.lt_of_lt_of_le (h.parent_lt hlt hp) ht.scopes
    · exact hparent i p hge hi hp
  lists hm := (hlists _ _ hm).elim (fun hm => (h.lists hm).mono ht) id
  nodup := hnodup

theorem congr (ht : t.Extends t') (hsize : t'.symbols.size = t.symbols.size)
    (hmembers : ∀ p, (t'.scope p).members = (t.scope p).members) : t'.Listed := by
  refine h.of_extends ht (fun i p hge hlt => ?_) (fun p m hm => .inl (hmembers p ▸ hm)) fun p => ?_
  · exact absurd hlt (Nat.not_lt.mpr (hsize ▸ hge))
  · exact hmembers p ▸ h.nodup p

theorem add {s : Symbol} (hs : s.parent = some p) (hp : p < t.scopes.size) :
    (t.add s).2.Listed := by
  have hlists : (t.add s).2.Lists p t.symbols.size := by
    refine ⟨mem_declared _ |>.mpr ⟨h.pos, by simp⟩, fun _ => ?_⟩
    rw [symbol_add, if_pos rfl]
    exact hs
  refine h.of_extends (t.extends_add s) (fun i q hge hlt hq => ?_) (fun q m hm => ?_) fun q => ?_
  · rw [t.symbol_add_new hge hlt, hs] at hq
    rw [size_scopes_add, ← Option.some.inj hq]
    exact hp
  · rcases (mem_members_add hs hp q m).mp hm with hm | ⟨rfl, rfl⟩
    · exact .inl hm
    · exact .inr hlists
  · rw [t.members_add hs hp]
    split
    · refine List.nodup_append.mpr ⟨h.nodup q, List.pairwise_singleton _ _, fun m hm n hn => ?_⟩
      exact List.mem_singleton.mp hn ▸ Nat.ne_of_lt (h.lt_size hm)
    · exact h.nodup q

theorem addNamespace (name : String) (hp : p < t.scopes.size) (span : Span) :
    (t.addNamespace name p span).2.Listed := by
  rw [addNamespace_eq]
  exact (h.add (s := t.newNamespace name p span) rfl hp).congr (extends_indexNamespace ..) rfl
    fun _ => rfl

theorem listNamespace {ns : SymbolId} (hns : ns ∈ t.declared)
    (hspace : (t.symbol ns).isNamespace = true) (hp : p < t.scopes.size) :
    (t.listNamespace p ns).Listed := by
  have ht := t.extends_listNamespace p ns
  refine h.of_extends ht (fun i q hge hlt => absurd hlt (Nat.not_lt.mpr hge)) (fun q m hm => ?_)
    fun q => ?_
  · rcases (mem_members_listNamespace hp ns q m).mp hm with hm | ⟨-, rfl⟩
    · exact .inl hm
    · exact .inr (.mono ⟨hns, fun hplain => nomatch hspace.symm.trans hplain⟩ ht)
  · rw [SymbolTable.listNamespace, scope_modifyScope]
    split
    · split
      · exact h.nodup q
      · rename_i hnew
        refine List.nodup_append.mpr ⟨h.nodup q, List.pairwise_singleton _ _, ?_⟩
        rintro m hm n hn rfl
        exact hnew (List.contains_iff_mem.mpr (List.mem_singleton.mp hn ▸ hm))
    · exact h.nodup q

theorem addOutOfLine {s : Symbol} (hs : s.parent = some p) (hp : p < t.scopes.size) :
    (t.addOutOfLine s).2.Listed := by
  refine h.of_extends (t.extends_addOutOfLine s) (fun i q hge hlt hq => ?_)
    (fun q m hm => .inl hm) h.nodup
  rw [t.symbol_addOutOfLine_new hge hlt, hs] at hq
  exact Option.some.inj hq ▸ hp

end Listed

end SymbolTable

end CppRefactor
