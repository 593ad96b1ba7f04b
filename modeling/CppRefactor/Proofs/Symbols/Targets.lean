import CppRefactor.Proofs.Symbols.Every
import CppRefactor.Proofs.Symbols.Links

/-!
What symbols stand for. An alias stands for what it names, which may be an alias in turn, and what
is declared ahead stands for its definition. Such a chain ends with a symbol that stands for itself.
-/

namespace CppRefactor

def SymbolKind.IsAlias (k : SymbolKind) : Prop := k = .typeAlias ∨ k = .namespaceAlias

/-- A class or an enumeration that is declared without its body. -/
structure Symbol.IsForward (s : Symbol) : Prop where
  kind : (s.kind.isClass || s.kind == .enumKind) = true
  noBody : s.flags.isDefinition = false

theorem Symbol.IsForward.not_alias {s : Symbol} (h : s.IsForward) : ¬ s.kind.IsAlias := by
  have hkind := h.kind
  rintro (he | he)
  · rw [he] at hkind
    cases hkind
  · rw [he] at hkind
    cases hkind

/-- A symbol that has a body is of a kind that may have one. -/
def Symbol.Bodied (s : Symbol) : Prop := s.flags.isDefinition = true → s.kind.mayDefine = true

theorem Symbol.bodied_lasting : Lasting Bodied where
  space hs _ := by
    rw [eq_of_beq hs]
    rfl
  setScope _ hs := hs
  setInline hs := hs
  setFunction _ _ := rfl

theorem symbolsOf_bodied (files : List SourceFile) (graph : IncludeGraph) :
    SymbolTable.EverySymbol Symbol.Bodied (Snapshot.symbolsOf files graph) :=
  .symbolsOf Symbol.bodied_lasting graph fun _ _ _ _ _ hs => hs.defines

namespace SymbolTable

variable (t : SymbolTable)

/-- What an alias names, by the lookups of a level. -/
def aliased? (below : Level) (i : SymbolId) : Option SymbolId := do
  let type ← (t.symbol i).type
  match type.target with
  | some target => return target
  | none =>
    let filter := if (t.symbol i).kind == .namespaceAlias then Filter.scopes else .types
    (below.path ⟨type.site, filter, []⟩ (← type.path)).head?

/-- The first definition that a symbol may stand for that is declared ahead. -/
def definedAs? (i : SymbolId) : Option SymbolId :=
  (t.withName (t.symbol i).name).find? fun other =>
    (t.symbol other).flags.isDefinition &&
      (t.symbol other).kind.isClass == (t.symbol i).kind.isClass &&
      t.qualifiedName other == t.qualifiedName i

inductive LeadsTo (i j : SymbolId) : Prop
  | alias (n : Nat) (hi : (t.symbol i).kind.IsAlias) (hj : t.aliased? (t.level n) i = some j)
  | definition (hi : (t.symbol i).IsForward) (hj : t.definedAs? i = some j)

variable {t} {below : Level} {i j k : SymbolId}

theorem targetAt_alias (h : (t.symbol i).kind.IsAlias) :
    t.targetAt below i = (t.aliased? below i).bind below.target := by
  have hkind : ((t.symbol i).kind == .namespaceAlias ||
      (t.symbol i).kind == .typeAlias) = true := by
    rcases h with h | h <;> rw [h] <;> rfl
  unfold targetAt aliased?
  dsimp only
  rw [if_pos hkind]
  cases (t.symbol i).type with
  | none => rfl
  | some type =>
    simp only [Option.bind_eq_bind, Option.bind_some]
    cases type.target with
    | some target => rfl
    | none => cases type.path <;> rfl

theorem standsFor?_eq (t : SymbolTable) (i : SymbolId) :
    t.standsFor? i = t.targetAt (t.level (lookupDepth - 1)) i := rfl

theorem not_alias_iff : ¬ (t.symbol i).kind.IsAlias ↔
    ((t.symbol i).kind == .namespaceAlias || (t.symbol i).kind == .typeAlias) = false := by
  rw [SymbolKind.IsAlias, Bool.or_eq_false_iff, beq_eq_false_iff_ne, beq_eq_false_iff_ne, not_or,
    and_comm]

theorem targetAt_forward (h : (t.symbol i).IsForward) :
    t.targetAt below i = some ((t.definedAs? i).getD i) := by
  have hforward : (((t.symbol i).kind.isClass || (t.symbol i).kind == .enumKind) &&
      !(t.symbol i).flags.isDefinition) = true := by rw [h.kind, h.noBody]; rfl
  unfold targetAt
  dsimp only
  rw [if_neg (Bool.eq_false_iff.mp (not_alias_iff.mp h.not_alias)), if_pos hforward]
  rfl

theorem targetAt_plain (ha : ¬ (t.symbol i).kind.IsAlias) (hf : ¬ (t.symbol i).IsForward) :
    t.targetAt below i = some i := by
  unfold targetAt
  dsimp only
  rw [if_neg (Bool.eq_false_iff.mp (not_alias_iff.mp ha)), if_neg]
  rw [Bool.and_eq_true, Bool.not_eq_true']
  exact fun h => hf ⟨h.1, h.2⟩

/-- The symbol stands for itself: it is no alias, and nothing defines it if it is declared ahead. -/
structure IsEnd (t : SymbolTable) (i : SymbolId) : Prop where
  plain : ¬ (t.symbol i).kind.IsAlias
  undefined : (t.symbol i).IsForward → t.definedAs? i = none

theorem IsEnd.targetAt (h : t.IsEnd i) (below : Level) : t.targetAt below i = some i := by
  by_cases hf : (t.symbol i).IsForward
  · rw [targetAt_forward hf, h.undefined hf]
    rfl
  · exact targetAt_plain h.plain hf

theorem IsEnd.not_leadsTo (h : t.IsEnd i) : ¬ t.LeadsTo i j := by
  rintro (⟨_, hi, -⟩ | ⟨hi, hj⟩)
  · exact h.plain hi
  · cases (h.undefined hi).symm.trans hj

theorem IsEnd.of_defines (hb : EverySymbol Symbol.Bodied t)
    (h : (t.symbol i).flags.isDefinition = true) : t.IsEnd i where
  plain ha := by
    have hkind := hb i h
    rcases ha with ha | ha
    · rw [ha] at hkind
      cases hkind
    · rw [ha] at hkind
      cases hkind
  undefined hf := nomatch hf.noBody.symm.trans h

theorem IsEnd.of_definedAs? (hb : EverySymbol Symbol.Bodied t)
    (h : t.definedAs? i = some j) : t.IsEnd j := by
  have hfound := List.find?_some h
  simp only [Bool.and_eq_true] at hfound
  exact .of_defines hb hfound.1.1

/-- Lookups of any depth that answer a target have followed a chain to its end. -/
theorem level_target_end (hb : EverySymbol Symbol.Bodied t) {n : Nat}
    (h : (t.level n).target i = some j) : Relation.ReflTransGen t.LeadsTo i j ∧ t.IsEnd j := by
  induction n generalizing i with
  | zero => cases h
  | succ n ih =>
    replace h : t.targetAt (t.level n) i = some j := h
    by_cases ha : (t.symbol i).kind.IsAlias
    · rw [targetAt_alias ha] at h
      obtain ⟨k, hk, h⟩ := Option.bind_eq_some_iff.mp h
      obtain ⟨hchain, hend⟩ := ih h
      exact ⟨.head (.alias n ha hk) hchain, hend⟩
    · by_cases hf : (t.symbol i).IsForward
      · rw [targetAt_forward hf] at h
        cases hd : t.definedAs? i with
        | none =>
          rw [hd] at h
          obtain rfl := Option.some.inj h
          exact ⟨.refl, ha, fun _ => hd⟩
        | some k =>
          rw [hd] at h
          obtain rfl := Option.some.inj h
          exact ⟨.single (.definition hf hd), .of_definedAs? hb hd⟩
      · rw [targetAt_plain ha hf] at h
        obtain rfl := Option.some.inj h
        exact ⟨.refl, ha, fun h => absurd h hf⟩

end SymbolTable

/-- What a symbol stands for is no alias, and stands for itself: it is at the end of the chain that
leads to it. Only aliases may stand for nothing. -/
theorem targets_end (searchPaths : List Path) (headers : List Header)
    (documents : PathMap Document) :
    let t := (Snapshot.ofDocuments searchPaths headers documents).symbols
    ∀ i, (∀ j, t.standsFor? i = some j →
        ¬ (t.symbol j).kind.IsAlias ∧ t.standsFor? j = some j ∧
        Relation.ReflTransGen t.LeadsTo i j ∧ ∀ k, ¬ t.LeadsTo j k) ∧
      (t.standsFor? i = none → (t.symbol i).kind.IsAlias) := by
  intro t i
  have hb : SymbolTable.EverySymbol Symbol.Bodied t := symbolsOf_bodied _ _
  refine ⟨fun j hj => ?_, fun hnone => ?_⟩
  · obtain ⟨hchain, hend⟩ := SymbolTable.level_target_end hb hj
    refine ⟨hend.plain, ?_, hchain, fun k => hend.not_leadsTo⟩
    rw [SymbolTable.standsFor?_eq]
    exact hend.targetAt _
  · by_contra ha
    rw [SymbolTable.standsFor?_eq] at hnone
    by_cases hf : (t.symbol i).IsForward
    · cases (SymbolTable.targetAt_forward hf).symm.trans hnone
    · cases (SymbolTable.targetAt_plain ha hf).symm.trans hnone

/-- An alias of an alias of what is declared ahead leads to the definition; aliases that go round in
a circle stand for nothing. -/
theorem alias_chain_end :
    let text := "struct S;\nstruct S \x7b\x7d;\ntypedef S T;\nusing U = T;\n" ++
      "struct X \x7b typedef A B; typedef B A; \x7d;\n"
    let t := (Snapshot.ofDocuments [] [] ⟨[(.ofString "/a.cpp", ⟨text, 0⟩)]⟩).symbols
    (t.standsFor? 4 = some 2 ∧ ¬ (t.symbol 2).kind.IsAlias ∧ t.standsFor? 2 = some 2) ∧
      t.standsFor? 6 = none ∧ (t.symbol 6).kind.IsAlias := by
  intro text t
  have hchain : t.standsFor? 4 = some 2 := by decide +kernel
  have hcircle : t.standsFor? 6 = none := by decide +kernel
  obtain ⟨hplain, hself, -⟩ := (targets_end [] [] _ 4).1 2 hchain
  exact ⟨⟨hchain, hplain, hself⟩, hcircle, (targets_end [] [] _ 6).2 hcircle⟩

namespace SymbolTable

/-- The namespaces from one of them outwards to the global one, which is left out. All have names,
without colons. -/
inductive Spaces (t : SymbolTable) : List SymbolId → SymbolId → Prop
  | outermost : t.Spaces [] global
  | inside (h : t.Spaces spaces outer) (hns : t.IsSpace outer name ns) (hne : name ≠ "")
    (hname : ':' ∉ name.toList) : t.Spaces (ns :: spaces) ns

variable {t : SymbolTable} {i j k o o' : SymbolId} {os os' : List SymbolId}

/-- A definition of the name and the qualified name of a symbol, of a class if that is one. -/
structure Defines (t : SymbolTable) (j i : SymbolId) : Prop where
  declared : j ∈ t.declared
  isDefinition : (t.symbol j).flags.isDefinition = true
  isClass : (t.symbol j).kind.isClass = (t.symbol i).kind.isClass
  name : (t.symbol j).name = (t.symbol i).name
  qualifiedName : t.qualifiedName j = t.qualifiedName i

section definedAs

variable (ht : t.SymbolsIndexed)

include ht

theorem defines_iff : t.Defines j i ↔ j ∈ t.withName (t.symbol i).name ∧
    ((t.symbol j).flags.isDefinition &&
      (t.symbol j).kind.isClass == (t.symbol i).kind.isClass &&
      t.qualifiedName j == t.qualifiedName i) = true := by
  simp only [ht.mem_withName, Bool.and_eq_true, beq_iff_eq]
  constructor
  · exact fun h => ⟨⟨h.declared, h.name⟩, ⟨h.isDefinition, h.isClass⟩, h.qualifiedName⟩
  · exact fun ⟨⟨hj, hname⟩, ⟨hdef, hclass⟩, hqualified⟩ => ⟨hj, hdef, hclass, hname, hqualified⟩

theorem definedAs?_none (h : t.definedAs? i = none) : ¬ t.Defines k i := fun hk =>
  have ⟨hmem, hfound⟩ := (defines_iff ht).mp hk
  List.find?_eq_none.mp h k hmem hfound

theorem definedAs?_some (h : t.definedAs? i = some j) :
    t.Defines j i ∧ ∀ k, t.Defines k i → j ≤ k := by
  have hmem := List.mem_of_find?_eq_some h
  obtain ⟨hfound, front, back, hnames, hfront⟩ := List.find?_eq_some_iff_append.mp h
  refine ⟨(defines_iff ht).mpr ⟨hmem, hfound⟩, fun k hk => ?_⟩
  obtain ⟨hk, hfits⟩ := (defines_iff ht).mp hk
  have hsorted := ht.pairwise_withName (t.symbol i).name
  rw [hnames] at hk hsorted
  rcases List.mem_append.mp hk with hk | hk
  · have hnot := hfront k hk
    rw [hfits] at hnot
    cases hnot
  · rcases List.mem_cons.mp hk with rfl | hk
    · exact Nat.le_refl k
    · have hback := (List.pairwise_append.mp hsorted).2.1
      exact Nat.le_of_lt (List.rel_of_pairwise_cons hback hk)

end definedAs

theorem not_isSpace_global {outer : SymbolId} {name : String} :
    ¬ t.IsSpace outer name global := fun h =>
  Nat.lt_irrefl 0 (t.mem_declared.mp h.declared).1

theorem IsSpace.outer_eq {outer outer' ns : SymbolId} {name name' : String}
    (h : t.IsSpace outer name ns) (h' : t.IsSpace outer' name' ns) : outer = outer' := by
  obtain ⟨p, hp, rfl⟩ := h.outer
  obtain ⟨p', hp', rfl⟩ := h'.outer
  rw [Option.some.inj (hp.symm.trans hp')]

namespace Spaces

theorem list_eq (h : t.Spaces os o) (h' : t.Spaces os' o) : os = os' := by
  induction h generalizing os' with
  | outermost =>
    cases h' with
    | outermost => rfl
    | inside _ hns => exact absurd hns not_isSpace_global
  | inside _ hns _ _ ih =>
    cases h' with
    | outermost => exact absurd hns not_isSpace_global
    | inside h' hns' =>
      obtain rfl := hns.outer_eq hns'
      rw [ih h']

/-- A namespace on the way outwards has the rest of the way as its own. -/
theorem suffix (h : t.Spaces os o) (hk : k ∈ os) : ∃ ks, t.Spaces (k :: ks) k ∧ k :: ks <:+ os := by
  induction h with
  | outermost => cases hk
  | inside h hns hne hname ih =>
    rcases List.mem_cons.mp hk with rfl | hk
    · exact ⟨_, .inside h hns hne hname, List.suffix_rfl⟩
    · obtain ⟨ks, hks, hsuffix⟩ := ih hk
      exact ⟨ks, hks, hsuffix.trans (List.suffix_cons ..)⟩

theorem nodup (h : t.Spaces os o) : os.Nodup := by
  induction h with
  | outermost => exact List.nodup_nil
  | inside h hns hne hname ih =>
    refine List.nodup_cons.mpr ⟨fun hmem => ?_, ih⟩
    obtain ⟨ks, hks, hsuffix⟩ := h.suffix hmem
    have hlength := hsuffix.length_le
    rw [hks.list_eq (.inside h hns hne hname)] at hlength
    exact absurd hlength (Nat.not_succ_le_self _)

theorem lt_size (h : t.Spaces os o) (hk : k ∈ os) : k < t.symbols.size := by
  obtain ⟨ks, hks, -⟩ := h.suffix hk
  cases hks with
  | inside _ hns => exact (t.mem_declared.mp hns.declared).2

theorem length_le (h : t.Spaces os o) : os.length ≤ t.symbols.size := by
  have hsub : os ⊆ List.range t.symbols.size := fun k hk => List.mem_range.mpr (h.lt_size hk)
  have hle := (List.subperm_of_subset h.nodup hsub).length_le
  rwa [List.length_range] at hle

/-- What stands directly in a namespace is enclosed by the namespaces on the way outwards. -/
theorem ownersOf_eq (h : t.Spaces os o)
    (hlinks : ∀ ns, (t.symbol ns).isNamespace = true → t.owner? ns = t.scopeOwner? ns)
    (hi : (t.owner? i).getD global = o) (hn : os.length ≤ n) : t.ownersOf n i = os := by
  induction h generalizing i n with
  | outermost =>
    cases n with
    | zero => rfl
    | succ n =>
      unfold ownersOf
      split
      · rename_i owner howner
        rw [howner, Option.getD_some] at hi
        rw [if_pos hi]
      · rfl
  | @inside os outer name ns h hns hne hname ih =>
    cases n with
    | zero => cases hn
    | succ n =>
      have hns' : ns ≠ global := fun he => not_isSpace_global (he ▸ hns)
      have howner : t.owner? i = some ns := by
        cases ho : t.owner? i with
        | none =>
          rw [ho] at hi
          exact absurd hi.symm hns'
        | some owner =>
          rw [ho] at hi
          exact congrArg some hi
      unfold ownersOf
      rw [howner]
      dsimp only
      rw [if_neg hns', ih ?_ (Nat.le_of_succ_le_succ hn)]
      obtain ⟨p, hp, houter⟩ := hns.outer
      rw [hlinks ns hns.space, scopeOwner?, hp]
      exact houter

/-- Namespaces of the same names, from one of them outwards, are the same. -/
theorem eq_of_names (hs : t.Spaced) (h : t.Spaces os o) (h' : t.Spaces os' o')
    (hnames : os.map (fun s => (t.symbol s).name) = os'.map fun s => (t.symbol s).name) :
    o = o' := by
  induction h generalizing os' o' with
  | outermost =>
    cases h' with
    | outermost => rfl
    | inside => cases hnames
  | inside h hns _ _ ih =>
    cases h' with
    | outermost => cases hnames
    | inside h' hns' =>
      obtain ⟨hname, hnames⟩ := List.cons.inj hnames
      obtain rfl := ih h' hnames
      dsimp only at hname
      rw [hns.name, hns'.name] at hname
      exact hs.unique hns (hname ▸ hns')

theorem names_spec (h : t.Spaces os o) (hk : k ∈ os) :
    (t.symbol k).name ≠ "" ∧ ':' ∉ (t.symbol k).name.toList := by
  obtain ⟨ks, hks, -⟩ := h.suffix hk
  cases hks with
  | inside _ hns hne hname => exact hns.name.symm ▸ ⟨hne, hname⟩

end Spaces

theorem toList_qualified (names : List String) (name : String) :
    ("::".intercalate (names ++ [name])).toList =
      names.flatMap (fun n => n.toList ++ "::".toList) ++ name.toList := by
  induction names with
  | nil => simp
  | cons n names ih =>
    obtain ⟨m, rest, hrest⟩ := List.exists_cons_of_ne_nil (List.concat_ne_nil name names)
    rw [hrest] at ih
    rw [List.cons_append, hrest, String.intercalate_cons_cons, String.toList_append,
      String.toList_append, ih, List.flatMap_cons, List.append_assoc (n.toList ++ _)]

theorem names_eq_of_qualified {names names' : List String} {name : String}
    (hnames : ∀ n ∈ names, ':' ∉ n.toList) (hnames' : ∀ n ∈ names', ':' ∉ n.toList)
    (h : "::".intercalate (names ++ [name]) = "::".intercalate (names' ++ [name])) :
    names = names' := by
  have hflat := congrArg String.toList h
  rw [toList_qualified, toList_qualified, List.append_cancel_right_eq] at hflat
  clear h
  induction names generalizing names' with
  | nil =>
    cases names' with
    | nil => rfl
    | cons n' names' => simp at hflat
  | cons n names ih =>
    cases names' with
    | nil => simp at hflat
    | cons n' names' =>
      obtain ⟨hn, hrest⟩ := List.forall_mem_cons.mp hnames
      obtain ⟨hn', hrest'⟩ := List.forall_mem_cons.mp hnames'
      have hfront {cs rest : List Char} (hcs : ':' ∉ cs) :
          (cs ++ "::".toList ++ rest).takeWhile (· != ':') = cs := by
        rw [List.append_assoc, List.takeWhile_append_of_pos fun c hc => by
          simpa using fun he : c = ':' => hcs (he ▸ hc)]
        simp
      have hname := congrArg (List.takeWhile (· != ':')) hflat
      rw [List.flatMap_cons, List.flatMap_cons, hfront hn, hfront hn'] at hname
      obtain rfl := String.toList_inj.mp hname
      rw [List.flatMap_cons, List.flatMap_cons, List.append_cancel_left_eq] at hflat
      exact congrArg (n :: ·) (ih hrest hrest' hflat)

theorem Spaces.qualifiedName_eq (h : t.Spaces os o)
    (hlinks : ∀ ns, (t.symbol ns).isNamespace = true → t.owner? ns = t.scopeOwner? ns)
    (hi : t.owner? i = some o) : t.qualifiedName i = "::".intercalate
      ((os.map fun s => (t.symbol s).name).reverse ++ [(t.symbol i).name]) := by
  have hi : (t.owner? i).getD SymbolTable.global = o := by
    rw [hi]
    rfl
  have hnames : ((os.map fun s => (t.symbol s).name).reverse).filter (!·.isEmpty) =
      (os.map fun s => (t.symbol s).name).reverse := by
    refine List.filter_eq_self.mpr fun n hn => ?_
    obtain ⟨k, hk, rfl⟩ := List.mem_map.mp (List.mem_reverse.mp hn)
    simpa using (h.names_spec hk).1
  rw [qualifiedName, enclosing, h.ownersOf_eq hlinks hi h.length_le, List.map_reverse, hnames]

/-- What stands directly in named namespaces under the same qualified name stands in the same
one. -/
theorem Spaces.eq_of_qualifiedName (hs : t.Spaced)
    (hlinks : ∀ ns, (t.symbol ns).isNamespace = true → t.owner? ns = t.scopeOwner? ns)
    (h : t.Spaces os o) (h' : t.Spaces os' o') (hi : t.owner? i = some o)
    (hj : t.owner? j = some o') (hname : (t.symbol j).name = (t.symbol i).name)
    (hqualified : t.qualifiedName j = t.qualifiedName i) : o = o' := by
  rw [h.qualifiedName_eq hlinks hi, h'.qualifiedName_eq hlinks hj, hname] at hqualified
  have hplain {os : List SymbolId} {o : SymbolId} (h : t.Spaces os o) :
      ∀ n ∈ (os.map fun s => (t.symbol s).name).reverse, ':' ∉ n.toList := by
    intro n hn
    obtain ⟨k, hk, rfl⟩ := List.mem_map.mp (List.mem_reverse.mp hn)
    exact (h.names_spec hk).2
  have hnames := names_eq_of_qualified (hplain h') (hplain h) hqualified
  exact h.eq_of_names hs h' (List.reverse_inj.mp hnames).symm

end SymbolTable

/-- A class or an enumeration that is declared ahead stands for the first definition of its name and
its qualified name, of a class if it is one, and for itself if there is none. If both stand directly
in named namespaces, it is the same namespace. -/
theorem forwards_defined (searchPaths : List Path) (headers : List Header)
    (documents : PathMap Document) :
    let t := (Snapshot.ofDocuments searchPaths headers documents).symbols
    ∀ i, (t.symbol i).IsForward → ∃ j, t.standsFor? i = some j ∧
      ((j = i ∧ ∀ k, ¬ t.Defines k i) ∨
        t.Defines j i ∧ (t.symbol j).kind.mayDefine = true ∧ ∀ k, t.Defines k i → j ≤ k) ∧
      ∀ os o os' o', t.Spaces os o → t.owner? i = some o → t.Spaces os' o' →
        t.owner? j = some o' → o = o' := by
  intro t i hi
  have hs : t.Spaced := ((unlinkedSymbols_written searchPaths headers documents).linked
    (unlinkedSymbols_sound searchPaths documents).1.linked).toSpaced
  have hlinks (ns : SymbolId) (hns : (t.symbol ns).isNamespace = true) :
      t.owner? ns = t.scopeOwner? ns := by
    have hnone : t.declaration? ns = none := by
      refine Option.eq_none_iff_forall_ne_some.mpr fun d hd => ?_
      have hfunction := (symbols_linked_functions searchPaths headers documents d ns hd).1
      exact Bool.false_ne_true ((SymbolKind.isFunction_apart hfunction).2.2.symm.trans hns)
    rw [SymbolTable.owner?, hnone]
  have hindexed : t.Indexed := SymbolTable.indexed_symbolsOf ..
  refine ⟨_, (SymbolTable.standsFor?_eq t i).trans (SymbolTable.targetAt_forward hi), ?_⟩
  cases hd : t.definedAs? i with
  | none =>
    have hnone (k : SymbolId) : ¬ t.Defines k i :=
      SymbolTable.definedAs?_none hindexed.toSymbolsIndexed hd
    refine ⟨.inl ⟨rfl, hnone⟩, fun os o os' o' h ho h' ho' => ?_⟩
    exact Option.some.inj (ho.symm.trans ho')
  | some j =>
    obtain ⟨hj, hfirst⟩ := SymbolTable.definedAs?_some hindexed.toSymbolsIndexed hd
    refine ⟨.inr ⟨hj, symbolsOf_bodied _ _ j hj.isDefinition, hfirst⟩,
      fun os o os' o' h ho h' ho' => ?_⟩
    exact h.eq_of_qualifiedName hs hlinks h' ho ho' hj.name hj.qualifiedName

/-- A class of a block has the qualified name of a global one, and what is no class may define an
enumeration: the first stands for a class in a function, the second for a function. -/
theorem forwards_misled :
    let text := "class A;\nenum E : int;\nvoid f()\n\x7b\n    \x7b\n" ++
      "        class A \x7b\x7d;\n    \x7d\n\x7d\nvoid E() \x7b\x7d\n"
    let t := (Snapshot.ofDocuments [] [] ⟨[(.ofString "/a.cpp", ⟨text, 0⟩)]⟩).symbols
    ((t.symbol 1).IsForward ∧ t.standsFor? 1 = some 4 ∧
      t.owner? 1 = some SymbolTable.global ∧ t.owner? 4 = none) ∧
    (t.symbol 2).IsForward ∧ (t.symbol 2).kind = .enumKind ∧ t.standsFor? 2 = some 5 ∧
      (t.symbol 5).kind = .function := by
  intro text t
  have hclass : ((t.symbol 1).kind.isClass || (t.symbol 1).kind == .enumKind) = true ∧
      (t.symbol 1).flags.isDefinition = false ∧ t.standsFor? 1 = some 4 ∧
      t.owner? 1 = some SymbolTable.global ∧ t.owner? 4 = none := by decide +kernel
  have henum : (t.symbol 2).kind = .enumKind ∧ (t.symbol 2).flags.isDefinition = false ∧
      t.standsFor? 2 = some 5 ∧ (t.symbol 5).kind = .function := by decide +kernel
  obtain ⟨hkind, hbody, hclass⟩ := hclass
  obtain ⟨hkind', hbody', henum⟩ := henum
  exact ⟨⟨⟨hkind, hbody⟩, hclass⟩, ⟨by rw [hkind']; rfl, hbody'⟩, hkind', henum⟩

end CppRefactor
