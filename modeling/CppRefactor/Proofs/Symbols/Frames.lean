import CppRefactor.Proofs.Symbols.Members

/-!
What stays as it is while a table grows. The symbols that a base has keep their bodies, and its
scopes get no more template parameters; what is behind the base may change.
-/

namespace CppRefactor

/-- What a symbol is declared as: its kind, its name and where that stands. -/
def Symbol.entry (s : Symbol) : SymbolKind × String × Span := (s.kind, s.name, s.nameSpan)

theorem Symbol.core_kind_eq {s s' : Symbol} (h : s'.core = s.core)
    (hk : s.kind.isFunction = false) : s'.kind = s.kind := by
  have hk' : s'.kind.isFunction = false := (core_inj h).2.1.trans hk
  have hkind := congrArg Symbol.kind h
  unfold Symbol.core at hkind
  dsimp only at hkind
  rwa [if_neg (Bool.eq_false_iff.mp hk), if_neg (Bool.eq_false_iff.mp hk')] at hkind

theorem Symbol.core_entry {s s' : Symbol} (h : s'.core = s.core)
    (hk : s.kind.isFunction = false) : s'.entry = s.entry := by
  obtain ⟨-, -, -, hspan, -⟩ := core_inj h
  rw [entry, entry, core_kind_eq h hk, core_name h, hspan]

theorem Symbol.core_head {s s' : Symbol} (h : s'.core = s.core) :
    s'.templateParams = s.templateParams ∧ s'.declSpan = s.declSpan := by
  simp only [core, mk.injEq] at h
  simp [h]

namespace SymbolTable

variable {base t t' t'' : SymbolTable} {p b : ScopeId} {s : Symbol} {m : SymbolId}

/-- A symbol that is there and no template parameter. -/
structure HasOther (t : SymbolTable) (m : SymbolId) : Prop where
  lt : m < t.symbols.size
  kind : (t.symbol m).kind ≠ .templateParam

theorem HasOther.mono (h : t.HasOther m) (ht : t.Extends t') : t'.HasOther m where
  lt := Nat.lt_of_lt_of_le h.lt ht.symbols
  kind hk := by
    have hkind := Symbol.core_kind_eq (ht.symbol m h.lt).symm (congrArg SymbolKind.isFunction hk)
    exact h.kind (hkind.trans hk)

/-- A table grows, and what a base of it has stays: the bodies of symbols, and what scopes list, but
for members that are added and are no template parameters. What is added to the index of namespaces
are namespaces. -/
structure Frame (base t t' : SymbolTable) : Prop extends t.Extends t' where
  index : ∀ entry ∈ t'.namespaceIndex, entry ∈ t.namespaceIndex ∨ t'.HasNamespace entry.2
  body : ∀ i < base.symbols.size, (t'.symbol i).scope = (t.symbol i).scope
  members : ∀ b < base.scopes.size, ∃ more, (t'.scope b).members = (t.scope b).members ++ more ∧
    ∀ m ∈ more, t'.HasOther m

namespace Frame

theorem of_members (ht : t.Extends t') (hindex : t'.namespaceIndex = t.namespaceIndex)
    (hbody : ∀ i < base.symbols.size, (t'.symbol i).scope = (t.symbol i).scope)
    (h : ∀ b, (t'.scope b).members = (t.scope b).members) : Frame base t t' where
  toExtends := ht
  index _ he := .inl (hindex ▸ he)
  body := hbody
  members b _ := ⟨[], by rw [h, List.append_nil], nofun⟩

theorem refl (base t : SymbolTable) : Frame base t t :=
  of_members (.refl t) rfl (fun _ _ => rfl) fun _ => rfl

theorem trans (h : Frame base t t') (h' : Frame base t' t'') : Frame base t t'' where
  toExtends := h.toExtends.trans h'.toExtends
  index entry he := (h'.index entry he).elim
    (fun he => (h.index entry he).imp_right fun hns => hns.mono h'.toExtends) .inr
  body i hi := (h'.body i hi).trans (h.body i hi)
  members b hb := by
    obtain ⟨more, hmore, hother⟩ := h.members b hb
    obtain ⟨more', hmore', hother'⟩ := h'.members b hb
    refine ⟨more ++ more', by rw [hmore', hmore, List.append_assoc], fun m hm => ?_⟩
    rcases List.mem_append.mp hm with hm | hm
    · exact (hother m hm).mono h'.toExtends
    · exact hother' m hm

theorem mono (h : Frame t' t t'') (hb : base.Extends t') : Frame base t t'' where
  toExtends := h.toExtends
  index := h.index
  body i hi := h.body i (Nat.lt_of_lt_of_le hi hb.symbols)
  members b hlt := h.members b (Nat.lt_of_lt_of_le hlt hb.scopes)

variable (hbase : base.Extends t)

theorem modifyScope {f : Scope → Scope} (hcore : ∀ s, (f s).core = s.core)
    (hmembers : ∀ s, (f s).members = s.members) (p : ScopeId) :
    Frame base t (t.modifyScope p f) :=
  of_members (extends_modifyScope hcore t p) rfl (fun _ _ => rfl)
    (t.scope_modifyScope_eq hmembers p)

theorem setInline (id : SymbolId) : Frame base t (t.setInline id) := by
  refine of_members (extends_setInline t id) rfl (fun i _ => ?_) fun _ => rfl
  refine t.symbol_modifySymbol_eq (g := Symbol.scope) ?_ id i
  exact fun _ => rfl

theorem listNamespace {ns : SymbolId} (hns : t.HasNamespace ns) (p : ScopeId) :
    Frame base t (t.listNamespace p ns) where
  toExtends := t.extends_listNamespace p ns
  index _ he := .inl he
  body _ _ := rfl
  members b _ := by
    have hother : (t.listNamespace p ns).HasOther ns := by
      refine ⟨hns.lt, fun hk => ?_⟩
      have hkind : (t.symbol ns).kind = .namespaceKind := beq_iff_eq.mp hns.space
      cases hkind.symm.trans hk
    rw [SymbolTable.listNamespace, scope_modifyScope]
    split
    · split
      · exact ⟨[], (List.append_nil _).symm, fun _ hm => absurd hm List.not_mem_nil⟩
      · exact ⟨[ns], rfl, fun m hm => List.mem_singleton.mp hm ▸ hother⟩
    · exact ⟨[], (List.append_nil _).symm, fun _ hm => absurd hm List.not_mem_nil⟩

include hbase

theorem addDetached (s : Symbol) : Frame base t (t.addDetached s).2 := by
  refine of_members (t.extends_addDetached s) rfl (fun i hi => ?_) fun _ => rfl
  rw [symbol_addDetached, if_neg (Nat.ne_of_lt (Nat.lt_of_lt_of_le hi hbase.symbols))]

theorem addOutOfLine (s : Symbol) : Frame base t (t.addOutOfLine s).2 :=
  of_members (t.extends_addOutOfLine s) rfl (addDetached hbase s).body fun _ => rfl

theorem add (hs : s.parent = some p) (hp : p < t.scopes.size)
    (hk : s.kind ≠ .templateParam ∨ base.scopes.size ≤ p) : Frame base t (t.add s).2 where
  toExtends := t.extends_add s
  index _ he := .inl (t.namespaceIndex_add s ▸ he)
  body i hi := by
    rw [symbol_add, if_neg (Nat.ne_of_lt (Nat.lt_of_lt_of_le hi hbase.symbols))]
  members b hb := by
    rw [t.members_add hs hp]
    split
    · rename_i hbp
      refine ⟨[t.symbols.size], rfl, fun m hm => List.mem_singleton.mp hm ▸ ⟨by simp, ?_⟩⟩
      rw [symbol_add, if_pos rfl]
      exact hk.resolve_right (Nat.not_le.mpr (hbp ▸ hb))
    · exact ⟨[], (List.append_nil _).symm, nofun⟩

omit hbase in
/-- The owner of a scope that is added gets a body, if it is none of the base. -/
theorem addScope {kind : ScopeKind} {owner : Option SymbolId}
    (howner : ∀ o, owner = some o → kind ≠ .namespaceBlock → base.symbols.size ≤ o)
    (p : ScopeId) (span : Span) : Frame base t (t.addScope kind p owner span).2 := by
  refine of_members (extends_addScope ..) (namespaceIndex_addScope ..) (fun i hi => ?_)
    (t.members_addScope kind p owner span)
  rw [symbol_addScope, if_neg]
  exact fun ⟨hk, ho, _⟩ => absurd (howner i ho hk) (Nat.not_le.mpr hi)

end Frame

theorem Frame.namesNamespaces (h : Frame base t t') (ht : t.NamesNamespaces) :
    t'.NamesNamespaces :=
  fun entry he => (h.index entry he).elim (fun he => (ht entry he).mono h.toExtends) id

theorem Frame.indexNamespace {outer ns : SymbolId} {name : String} (hns : t.HasNamespace ns) :
    Frame base t (t.indexNamespace outer name ns) where
  toExtends := t.extends_indexNamespace outer name ns
  index entry he := by
    rcases List.mem_cons.mp he with rfl | he
    · exact .inr (hns.mono (t.extends_indexNamespace outer name ns))
    · exact .inl he
  body _ _ := rfl
  members b _ := ⟨[], (List.append_nil _).symm, nofun⟩

theorem Linked.frame (h : t.Linked t') : Frame base t t' := by
  refine .of_members h.toExtends h.namespaceIndex (fun i _ => ?_) fun b => (h.scope_eq b).2.1
  refine h.symbol_field (g := Symbol.scope) ?_ i
  exact fun _ => rfl

/-- Symbols are added one after the other. -/
def addAll (t : SymbolTable) (ss : List Symbol) : SymbolTable :=
  ss.foldl (fun t s => (t.add s).2) t

@[simp] theorem addAll_nil (t : SymbolTable) : t.addAll [] = t := rfl

@[simp] theorem addAll_cons (t : SymbolTable) (s : Symbol) (ss : List Symbol) :
    t.addAll (s :: ss) = (t.add s).2.addAll ss := rfl

theorem addAll_append (t : SymbolTable) (ss ss' : List Symbol) :
    t.addAll (ss ++ ss') = (t.addAll ss).addAll ss' :=
  List.foldl_append

theorem extends_addAll (t : SymbolTable) (ss : List Symbol) : t.Extends (t.addAll ss) := by
  induction ss generalizing t with
  | nil => exact .refl t
  | cons s ss ih => exact (t.extends_add s).trans (ih _)

variable {ss : List Symbol}

@[simp] theorem size_symbols_addAll (t : SymbolTable) (ss : List Symbol) :
    (t.addAll ss).symbols.size = t.symbols.size + ss.length := by
  induction ss generalizing t with
  | nil => rfl
  | cons s ss ih =>
    rw [addAll_cons, ih, size_symbols_add, List.length_cons]
    omega

@[simp] theorem size_scopes_addAll (t : SymbolTable) (ss : List Symbol) :
    (t.addAll ss).scopes.size = t.scopes.size := by
  induction ss generalizing t with
  | nil => rfl
  | cons s ss ih => rw [addAll_cons, ih, size_scopes_add]

theorem symbol_addAll {i : SymbolId} (hi : i < t.symbols.size) (ss : List Symbol) :
    (t.addAll ss).symbol i = t.symbol i := by
  induction ss generalizing t with
  | nil => rfl
  | cons s ss ih =>
    rw [addAll_cons, ih (t.size_symbols_add s ▸ Nat.lt_succ_of_lt hi), symbol_add,
      if_neg (Nat.ne_of_lt hi)]

theorem symbols_addAll (t : SymbolTable) (ss : List Symbol) :
    (List.range' t.symbols.size ss.length).map (t.addAll ss).symbol = ss := by
  induction ss generalizing t with
  | nil => rfl
  | cons s ss ih =>
    have hrest := ih (t.add s).2
    rw [size_symbols_add] at hrest
    rw [List.length_cons, List.range'_succ, List.map_cons, addAll_cons, hrest,
      symbol_addAll (by simp), symbol_add, if_pos rfl]

theorem symbol_addAll_mem {i : SymbolId} (hge : t.symbols.size ≤ i)
    (hlt : i < (t.addAll ss).symbols.size) : (t.addAll ss).symbol i ∈ ss := by
  rw [size_symbols_addAll] at hlt
  have hi : i ∈ List.range' t.symbols.size ss.length := List.mem_range'_1.mpr ⟨hge, hlt⟩
  have hmem := List.mem_map_of_mem (f := (t.addAll ss).symbol) hi
  rwa [symbols_addAll] at hmem

theorem members_addAll (hs : ∀ s ∈ ss, s.parent = some b) (hb : b < t.scopes.size) :
    ((t.addAll ss).scope b).members =
      (t.scope b).members ++ List.range' t.symbols.size ss.length := by
  induction ss generalizing t with
  | nil => simp
  | cons s ss ih =>
    obtain ⟨hparent, hs⟩ := List.forall_mem_cons.mp hs
    rw [addAll_cons, ih hs (by simpa using hb), t.members_add hparent hb, if_pos rfl,
      List.append_assoc, List.length_cons, List.range'_succ, size_symbols_add]
    rfl

theorem Frame.addAll (hbase : base.Extends t) (hs : ∀ s ∈ ss, s.parent = some b)
    (hb : b < t.scopes.size) (hnew : base.scopes.size ≤ b) : Frame base t (t.addAll ss) := by
  induction ss generalizing t with
  | nil => exact .refl base t
  | cons s ss ih =>
    obtain ⟨hparent, hs⟩ := List.forall_mem_cons.mp hs
    have hadd := Frame.add hbase hparent hb (.inr hnew)
    exact hadd.trans (ih (hbase.trans hadd.toExtends) hs (by simpa using hb))

end SymbolTable

end CppRefactor
