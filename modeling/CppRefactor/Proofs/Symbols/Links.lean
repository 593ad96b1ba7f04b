import CppRefactor.Proofs.Symbols.NamespaceBlocks
import CppRefactor.Proofs.Symbols.Seen

/-!
Which definitions are linked to which declarations. A definition belongs to the class or namespace
that its qualifier leads to, or that it stands in, and is linked to the first member there that
declares it.
-/

namespace CppRefactor

namespace SymbolTable

variable {t t' : SymbolTable}

/-- Nothing is linked yet. What stands outside of its class or namespace is there once, and is a
definition. -/
structure Unlinked (t : SymbolTable) : Prop where
  links : t.links = []
  nodup : t.outOfLine.Nodup
  lt : m ∈ t.outOfLine → m < t.symbols.size
  defines : m ∈ t.outOfLine → (t.symbol m).flags.isDefinition = true

namespace Unlinked

theorem empty : SymbolTable.empty.Unlinked := ⟨rfl, List.nodup_nil, nofun, nofun⟩

variable (h : t.Unlinked)

include h

theorem congr (hsize : t.symbols.size ≤ t'.symbols.size) (hlinks : t'.links = t.links)
    (hout : t'.outOfLine = t.outOfLine)
    (hflags : ∀ i < t.symbols.size,
      (t'.symbol i).flags.isDefinition = (t.symbol i).flags.isDefinition) : t'.Unlinked where
  links := hlinks.trans h.links
  nodup := hout ▸ h.nodup
  lt hm := Nat.lt_of_lt_of_le (h.lt (hout ▸ hm)) hsize
  defines hm := (hflags _ (h.lt (hout ▸ hm))).trans (h.defines (hout ▸ hm))

theorem add (s : Symbol) : (t.add s).2.Unlinked := by
  refine h.congr ?_ (t.links_add s) (t.outOfLine_add s) fun i hi => ?_
  · rw [size_symbols_add]
    exact Nat.le_succ _
  · rw [symbol_add, if_neg (Nat.ne_of_lt hi)]

theorem addOutOfLine {s : Symbol} (hs : s.flags.isDefinition = true) :
    (t.addOutOfLine s).2.Unlinked where
  links := h.links
  nodup := by
    refine List.nodup_append.mpr ⟨h.nodup, List.pairwise_singleton _ _, fun m hm n hn => ?_⟩
    exact List.mem_singleton.mp hn ▸ Nat.ne_of_lt (h.lt hm)
  lt {m} hm := by
    rw [size_symbols_addOutOfLine]
    rcases List.mem_append.mp hm with hm | hm
    · exact Nat.lt_succ_of_lt (h.lt hm)
    · exact List.mem_singleton.mp hm ▸ Nat.lt_succ_self _
  defines {m} hm := by
    rw [symbol_addOutOfLine]
    split
    · exact hs
    · rename_i hne
      refine h.defines ((List.mem_append.mp hm).resolve_right fun hm => hne ?_)
      exact List.mem_singleton.mp hm

theorem addScope (kind : ScopeKind) (p : ScopeId) (owner : Option SymbolId) (span : Span) :
    (t.addScope kind p owner span).2.Unlinked := by
  refine h.congr (Nat.le_of_eq (size_symbols_addScope ..).symm) (links_addScope ..)
    (outOfLine_addScope ..) fun i _ => ?_
  rw [symbol_addScope]
  split <;> rfl

theorem setInline (id : SymbolId) : (t.setInline id).Unlinked := by
  refine h.congr (Nat.le_of_eq (size_modifySymbol ..).symm) rfl rfl fun i _ => ?_
  refine t.symbol_modifySymbol_eq (g := fun s => s.flags.isDefinition) ?_ id i
  exact fun _ => rfl

theorem declareNamespace (name : String) (p : ScopeId) (span : Span) :
    (t.declareNamespace name p span).2.Unlinked := by
  rcases t.declareNamespace_cases name p span with ⟨ns, -, heq⟩ | ⟨-, heq⟩
  · rw [heq]
    exact h.congr (Nat.le_refl _) rfl rfl fun _ _ => rfl
  · rw [heq, addNamespace_eq]
    exact (h.add _).congr (Nat.le_refl _) rfl rfl fun _ _ => rfl

theorem openBlock (p : ScopeId) (name : String × Span) (isInline : Bool) (span : Span) :
    (t.openBlock p name isInline span).2.Unlinked := by
  have hdeclared := h.declareNamespace name.1 p name.2
  unfold SymbolTable.openBlock
  dsimp only
  split
  · exact (hdeclared.setInline _).addScope ..
  · exact hdeclared.addScope ..

end Unlinked

theorem unlinked_inFile (file : FileId) (root : Tree) : FileInvariant file root Unlinked where
  addScope _ _ _ _ owner span h := h.addScope _ _ owner span
  add _ _ _ h := h.add _
  addOutOfLine _ _ hs h := h.addOutOfLine hs.isDefinition
  openBlocks hp _ _ _ _ _ := openBlocks_induction (P := Unlinked)
    (fun _ p name isInline _ h => h.openBlock p name isInline _) _ hp
  addUsing _ _ h := h.congr (Nat.le_refl _) rfl rfl fun _ _ => rfl
  addUsingDeclaration _ _ _ h := h.congr (Nat.le_refl _) rfl rfl fun _ _ => rfl

end SymbolTable

theorem unlinkedSymbols_unlinked (searchPaths : List Path) (documents : PathMap Document) :
    (unlinkedSymbols searchPaths documents).Unlinked :=
  Snapshot.unlinked_induction _ .empty
    (fun _ _ _ h => h.congr (Nat.le_refl _) rfl rfl fun _ _ => rfl)
    (fun id f _ => SymbolTable.unlinked_inFile id f.tree)
    fun _ _ _ h => h.congr (Nat.le_refl _) rfl rfl fun _ _ => rfl

namespace SymbolTable

variable {t t' : SymbolTable} {d f o : SymbolId}

/-- A definition belongs to the class or namespace that its qualifier leads to, or to the namespace
it stands in. -/
inductive BelongsTo (t : SymbolTable) (f o : SymbolId) : Prop
  | outside (hf : f ∈ t.outOfLine) (ho : t.qualifiedOwner? f = some o)
  | inside (ho : t.definedIn? f = some o)

def Belonging.link? (b : Belonging) : Option (SymbolId × SymbolId) :=
  b.declaration.map fun d => (d, b.definition)

/-- The definitions of a table with what they belong to. -/
def belongings (t : SymbolTable) : List Belonging :=
  t.outOfLine.filterMap (fun d => (t.qualifiedOwner? d).map (t.belonging d)) ++
    (List.range t.symbols.size).filterMap fun d => (t.definedIn? d).map (t.belonging d)

theorem definedIn?_spec (h : t.definedIn? f = some o) :
    (t.symbol f).kind = .function ∧ (t.symbol f).flags.isDefinition = true ∧
      f ∉ t.outOfLine ∧ t.owner? f = some o ∧ (t.symbol o).isNamespace = true := by
  obtain ⟨⟨⟩, hdefines, h⟩ := Option.bind_eq_some_iff.mp h
  obtain ⟨owner, howner, h⟩ := Option.bind_eq_some_iff.mp h
  obtain ⟨⟨⟩, hspace, h⟩ := Option.bind_eq_some_iff.mp h
  obtain rfl := Option.some.inj h
  rw [Option.guard_eq_some'] at hdefines hspace
  simp only [Bool.and_eq_true, beq_iff_eq, Bool.not_eq_true', isOutOfLine] at hdefines
  refine ⟨hdefines.1.1, hdefines.1.2, fun hmem => ?_, howner, hspace⟩
  exact Bool.false_ne_true (hdefines.2.symm.trans (List.contains_iff_mem.mpr hmem))

theorem lt_of_definedIn? (h : t.definedIn? f = some o) : f < t.symbols.size := by
  refine Nat.lt_of_not_le fun hle => ?_
  have hkind := (definedIn?_spec h).1
  rw [t.symbol_of_size_le hle] at hkind
  cases hkind

theorem mem_belongings {b : Belonging} : b ∈ t.belongings ↔
    ∃ f o, t.BelongsTo f o ∧ b = t.belonging f o := by
  simp only [belongings, List.mem_append, List.mem_filterMap, Option.map_eq_some_iff]
  constructor
  · rintro (⟨f, hf, o, ho, rfl⟩ | ⟨f, -, o, ho, rfl⟩)
    · exact ⟨f, o, .outside hf ho, rfl⟩
    · exact ⟨f, o, .inside ho, rfl⟩
  · rintro ⟨f, o, ⟨hf, ho⟩ | ho, rfl⟩
    · exact .inl ⟨f, hf, o, ho, rfl⟩
    · exact .inr ⟨f, List.mem_range.mpr (lt_of_definedIn? ho), o, ho, rfl⟩

theorem Unlinked.pairwise_belongings (h : t.Unlinked) :
    t.belongings.Pairwise fun b b' => b.definition ≠ b'.definition := by
  have hapart {owner? : SymbolId → Option SymbolId} {ds : List SymbolId} (hds : ds.Nodup) :
      (ds.filterMap fun d => (owner? d).map (t.belonging d)).Pairwise
        fun b b' => b.definition ≠ b'.definition := by
    refine List.pairwise_filterMap.mpr (hds.imp fun hne b hb b' hb' => ?_)
    obtain ⟨o, -, rfl⟩ := Option.map_eq_some_iff.mp hb
    obtain ⟨o', -, rfl⟩ := Option.map_eq_some_iff.mp hb'
    exact hne
  -- What is defined where it stands is not among what is defined outside.
  refine List.pairwise_append.mpr ⟨hapart h.nodup, hapart List.nodup_range, fun b hb b' hb' => ?_⟩
  obtain ⟨f, hf, hb⟩ := List.mem_filterMap.mp hb
  obtain ⟨f', -, hb'⟩ := List.mem_filterMap.mp hb'
  obtain ⟨o, -, rfl⟩ := Option.map_eq_some_iff.mp hb
  obtain ⟨o', ho', rfl⟩ := Option.map_eq_some_iff.mp hb'
  rintro rfl
  exact (definedIn?_spec ho').2.2.1 hf

theorem links_foldl_linkOne (bs : List Belonging) (t : SymbolTable) :
    (bs.foldl linkOne t).links = (bs.filterMap Belonging.link?).reverse ++ t.links := by
  induction bs generalizing t with
  | nil => rfl
  | cons b bs ih =>
    rw [List.foldl_cons, ih, List.filterMap_cons, linkOne, Belonging.link?]
    cases b.declaration with
    | none => rfl
    | some d => simp [link]

theorem attach_keeps (t : SymbolTable) (b : Belonging) :
    (t.attach b).links = t.links ∧ (t.attach b).outOfLine = t.outOfLine := by
  unfold attach
  dsimp only
  split
  · split <;> exact ⟨rfl, rfl⟩
  · exact ⟨rfl, rfl⟩

theorem Unlinked.links_withLinks (h : t.Unlinked) :
    t.withLinks.links = (t.belongings.filterMap Belonging.link?).reverse := by
  have hattach (bs : List Belonging) (t' : SymbolTable) :
      (bs.foldl attach t').links = t'.links := by
    induction bs generalizing t' with
    | nil => rfl
    | cons b bs ih => rw [List.foldl_cons, ih, (attach_keeps ..).1]
  rw [withLinks, links_foldl_linkOne, hattach, h.links, List.append_nil]
  rfl

theorem Unlinked.mem_links (h : t.Unlinked) : (d, f) ∈ t.withLinks.links ↔
    ∃ o, t.BelongsTo f o ∧ t.declarationFor? o f = some d := by
  rw [h.links_withLinks, List.mem_reverse, List.mem_filterMap]
  constructor
  · rintro ⟨b, hb, hlink⟩
    obtain ⟨f', o, hbelongs, rfl⟩ := mem_belongings.mp hb
    obtain ⟨d', hd, he⟩ := Option.map_eq_some_iff.mp hlink
    obtain ⟨rfl, rfl⟩ := Prod.mk.inj he
    exact ⟨o, hbelongs, hd⟩
  · rintro ⟨o, hbelongs, hd⟩
    exact ⟨t.belonging f o, mem_belongings.mpr ⟨f, o, hbelongs, rfl⟩,
      Option.map_eq_some_iff.mpr ⟨d, hd, rfl⟩⟩

theorem Unlinked.links_nodup (h : t.Unlinked) : (t.withLinks.links.map (·.2)).Nodup := by
  rw [h.links_withLinks, List.map_reverse, List.nodup_reverse, List.Nodup, List.pairwise_map]
  refine List.pairwise_filterMap.mpr (h.pairwise_belongings.imp fun hne l hl l' hl' => ?_)
  obtain ⟨-, -, rfl⟩ := Option.map_eq_some_iff.mp hl
  obtain ⟨-, -, rfl⟩ := Option.map_eq_some_iff.mp hl'
  exact hne

/-- The symbol declares, without a body, a function like another one, but for the types of its
parameters. -/
structure Declares (t : SymbolTable) (d f : SymbolId) : Prop where
  isFunction : (t.symbol d).kind.isFunction = true
  noBody : (t.symbol d).flags.isDefinition = false
  name : (t.symbol d).name = (t.symbol f).name
  params : (t.symbol d).params.length = (t.symbol f).params.length
  qualifiers : hasConst (t.symbol d).qualifiers = hasConst (t.symbol f).qualifiers

theorem declares_spec {site : Site} (h : t.declares (t.symbol f) site (t.symbol d) = true) :
    t.Declares d f := by
  simp only [declares, Bool.and_eq_true, beq_iff_eq, Bool.not_eq_true'] at h
  exact ⟨h.1.1.1.1.1, h.1.1.1.1.2, h.1.1.1.2, h.1.1.2, h.1.2⟩

theorem declarationFor?_eq (o : SymbolId) (hf : (t.symbol f).parent.isSome) :
    ∃ site, t.declarationFor? o f = (t.members o).find? fun c =>
      c != f && t.declares (t.symbol f) site (t.symbol c) := by
  obtain ⟨p, hp⟩ := Option.isSome_iff_exists.mp hf
  obtain ⟨scope, hscope⟩ : ∃ scope, ((t.symbol o).scope.filter fun _ =>
      (t.symbol o).kind.isClass).or (t.symbol f).parent = some scope := by
    rw [hp]
    cases (t.symbol o).scope.filter fun _ => (t.symbol o).kind.isClass with
    | none => exact ⟨p, rfl⟩
    | some scope => exact ⟨scope, rfl⟩
  refine ⟨⟨(t.symbol f).file, scope, (t.symbol f).nameSpan.start⟩, ?_⟩
  rw [declarationFor?, hscope]
  rfl

theorem declarationFor?_spec (h : t.declarationFor? o f = some d) :
    d ∈ t.members o ∧ d ≠ f ∧ ∃ site, t.declares (t.symbol f) site (t.symbol d) = true := by
  obtain ⟨scope, -, h⟩ := Option.bind_eq_some_iff.mp h
  have hfound := List.find?_some h
  simp only [Bool.and_eq_true, bne_iff_ne] at hfound
  exact ⟨List.mem_of_find?_eq_some h, hfound.1, _, hfound.2⟩

theorem mem_members {m : SymbolId} (h : m ∈ t.members o) : ∃ b, m ∈ (t.scope b).members ∧
    ((t.symbol o).isNamespace = true → b ∈ t.blocks o) := by
  unfold members at h
  split at h
  · rw [mem_distinct, List.mem_flatMap] at h
    obtain ⟨b, hb, hm⟩ := h
    exact ⟨b, hm, fun _ => hb⟩
  · rename_i hplain
    split at h
    · exact ⟨_, h, fun hns => absurd hns hplain⟩
    · cases h

theorem Unlinked.owner?_eq (h : t.Unlinked) (i : SymbolId) : t.owner? i = t.scopeOwner? i := by
  rw [owner?, declaration?, h.links]
  rfl

theorem Listed.scopeOwner?_eq (h : t.Listed) (ht : t.Indexed) (hd : d ∈ t.members o)
    (ho : (t.symbol o).isNamespace = true) (hplain : (t.symbol d).isNamespace = false) :
    t.scopeOwner? d = some o := by
  obtain ⟨b, hm, hb⟩ := mem_members hd
  rw [scopeOwner?, (h.lists hm).parent hplain]
  exact (ht.mem_blocks.mp (hb ho)).2

theorem BelongsTo.parent_isSome (h : t.Unlinked) (hf : t.BelongsTo f o) :
    (t.symbol f).parent.isSome := by
  cases hf with
  | outside _ ho =>
    obtain ⟨qualifier, -, ho⟩ := Option.bind_eq_some_iff.mp ho
    obtain ⟨p, hp, -⟩ := Option.bind_eq_some_iff.mp ho
    rw [hp]
    rfl
  | inside ho =>
    have howner := (definedIn?_spec ho).2.2.2.1
    rw [h.owner?_eq] at howner
    obtain ⟨p, hp, -⟩ := Option.bind_eq_some_iff.mp howner
    rw [hp]
    rfl

theorem Linked.scopeOwner?_eq (h : t.Linked t') (i : SymbolId) :
    t'.scopeOwner? i = t.scopeOwner? i := by
  have howner (p : ScopeId) : (t'.scope p).owner = (t.scope p).owner :=
    (Scope.core_inj (h.scope_eq p).1).2.2.1
  rw [scopeOwner?, scopeOwner?, h.symbol_field (g := Symbol.parent) fun _ => rfl]
  simp only [howner]

theorem Linked.declares (h : t.Linked t') (hd : t.Declares d f) : t'.Declares d f := by
  have hname := h.symbol_field (g := Symbol.name) fun _ => rfl
  have hparams := h.symbol_field (g := Symbol.params) fun _ => rfl
  have hqualifiers := h.symbol_field (g := Symbol.qualifiers) fun _ => rfl
  have hflags := h.symbol_field (g := Symbol.flags) fun _ => rfl
  constructor
  · exact (h.isFunction_eq d).trans hd.isFunction
  · rw [hflags]
    exact hd.noBody
  · rw [hname, hname]
    exact hd.name
  · rw [hparams, hparams]
    exact hd.params
  · rw [hqualifiers, hqualifiers]
    exact hd.qualifiers

theorem outOfLine_withLinks (t : SymbolTable) : t.withLinks.outOfLine = t.outOfLine :=
  withLinks_induction (P := fun t' => t'.outOfLine = t.outOfLine) rfl
    (fun t' b _ _ h' => (t'.attach_keeps b).2.trans h') fun _ _ _ h' => h'

theorem BelongsTo.defines (h : t.Unlinked) (hs : t.Sound) (hf : t.BelongsTo f o) :
    (t.symbol f).kind.isFunction = true ∧ (t.symbol f).flags.isDefinition = true := by
  cases hf with
  | outside hf _ => exact ⟨(hs.outOfLine f hf).kind, h.defines hf⟩
  | inside ho =>
    obtain ⟨hkind, hdefines, -⟩ := definedIn?_spec ho
    exact ⟨hkind ▸ rfl, hdefines⟩

theorem mem_links_of_definition? (h : t.definition? d = some f) : (d, f) ∈ t.links := by
  obtain ⟨l, hl, rfl⟩ := Option.map_eq_some_iff.mp h
  have hfound := List.find?_some hl
  obtain rfl := beq_iff_eq.mp hfound
  exact List.mem_of_find?_eq_some hl

theorem mem_links_of_declaration? (h : t.declaration? f = some d) : (d, f) ∈ t.links := by
  obtain ⟨l, hl, rfl⟩ := Option.map_eq_some_iff.mp h
  have hfound := List.find?_some hl
  obtain rfl := beq_iff_eq.mp hfound
  exact List.mem_of_find?_eq_some hl

theorem declaration?_of_mem (h : (t.links.map (·.2)).Nodup) (hl : (d, f) ∈ t.links) :
    t.declaration? f = some d := by
  cases hd : t.declaration? f with
  | none =>
    have hnone := List.find?_eq_none.mp (Option.map_eq_none_iff.mp hd) _ hl
    exact absurd (beq_self_eq_true f) hnone
  | some d' =>
    have hmem := mem_links_of_declaration? hd
    have he := List.inj_on_of_nodup_map h hmem hl rfl
    rw [(Prod.mk.inj he).1]

section withLinks

variable (h : t.Unlinked) (hs : t.Sound)

include h hs

/-- What is linked to a declaration is a definition, and no declaration of another one. -/
theorem linked_defines (hl : (d, f) ∈ t.withLinks.links) :
    (t.withLinks.symbol f).kind.isFunction = true ∧
      (t.withLinks.symbol f).flags.isDefinition = true := by
  obtain ⟨o, hf, -⟩ := h.mem_links.mp hl
  obtain ⟨hkind, hdefines⟩ := hf.defines h hs
  refine ⟨(hs.linked.isFunction_eq f).trans hkind, ?_⟩
  rw [hs.linked.symbol_field (g := Symbol.flags) fun _ => rfl]
  exact hdefines

theorem linked_declares (hl : (d, f) ∈ t.withLinks.links) : t.withLinks.Declares d f := by
  obtain ⟨o, -, hd⟩ := h.mem_links.mp hl
  obtain ⟨-, -, site, hdeclares⟩ := declarationFor?_spec hd
  exact hs.linked.declares (declares_spec hdeclares)

theorem owner?_declaration (hl : (d, f) ∈ t.withLinks.links) :
    t.withLinks.owner? d = t.scopeOwner? d := by
  have hnone : t.withLinks.declaration? d = none := by
    refine Option.eq_none_iff_forall_ne_some.mpr fun d' hd' => ?_
    have hdefines := (linked_defines h hs (mem_links_of_declaration? hd')).2
    exact Bool.false_ne_true ((linked_declares h hs hl).noBody.symm.trans hdefines)
  rw [owner?, hnone]
  exact hs.linked.scopeOwner?_eq d

theorem owner?_definition (hlisted : t.Listed) (ht : t.Indexed)
    (hl : (d, f) ∈ t.withLinks.links) :
    t.withLinks.owner? f = t.scopeOwner? d := by
  obtain ⟨o, hf, hd⟩ := h.mem_links.mp hl
  obtain ⟨hmem, -, site, hdeclares⟩ := declarationFor?_spec hd
  rw [owner?, declaration?_of_mem h.links_nodup hl]
  dsimp only
  cases hf with
  | outside hf _ =>
    rw [isOutOfLine, outOfLine_withLinks, List.contains_iff_mem.mpr hf, if_pos rfl]
    exact hs.linked.scopeOwner?_eq d
  | inside ho =>
    obtain ⟨-, -, hnot, howner, hspace⟩ := definedIn?_spec ho
    have hplain := (SymbolKind.isFunction_apart (declares_spec hdeclares).isFunction).2.2
    rw [isOutOfLine, outOfLine_withLinks, if_neg fun hf => hnot (List.contains_iff_mem.mp hf),
      hs.linked.scopeOwner?_eq, ← h.owner?_eq, howner]
    exact (hlisted.scopeOwner?_eq ht hmem hspace hplain).symm

end withLinks

end SymbolTable

/-- Only definitions of functions are linked, each to a declaration that has no body. -/
theorem symbols_linked_functions (searchPaths : List Path) (headers : List Header)
    (documents : PathMap Document) :
    let t := (Snapshot.ofDocuments searchPaths headers documents).symbols
    ∀ d f, t.declaration? f = some d → (t.symbol f).kind.isFunction = true ∧
      (t.symbol f).flags.isDefinition = true ∧ t.Declares d f := by
  intro t d f hd
  have h := unlinkedSymbols_unlinked searchPaths documents
  have hs := (unlinkedSymbols_sound searchPaths documents).1
  have hl := SymbolTable.mem_links_of_declaration? hd
  obtain ⟨hkind, hdefines⟩ := SymbolTable.linked_defines h hs hl
  exact ⟨hkind, hdefines, SymbolTable.linked_declares h hs hl⟩

/-- A declaration is linked to a definition that is linked to it in turn: both are functions of one
name that take as many parameters and are both `const` or both not, only the definition has a body,
and both belong to the same class or namespace. A definition is linked once at most. -/
theorem definitions_match (searchPaths : List Path) (headers : List Header)
    (documents : PathMap Document) :
    let t := (Snapshot.ofDocuments searchPaths headers documents).symbols
    (∀ d f, t.definition? d = some f → t.declaration? f = some d ∧ t.Declares d f ∧
      (t.symbol f).kind.isFunction = true ∧ (t.symbol f).flags.isDefinition = true ∧
      t.owner? f = t.owner? d) ∧
    (t.links.map (·.2)).Nodup := by
  intro t
  have h := unlinkedSymbols_unlinked searchPaths documents
  have hs := (unlinkedSymbols_sound searchPaths documents).1
  have hlisted := (unlinkedSymbols_written searchPaths headers documents).toListed
  refine ⟨fun d f hf => ?_, h.links_nodup⟩
  have hl := SymbolTable.mem_links_of_definition? hf
  obtain ⟨hkind, hdefines⟩ := SymbolTable.linked_defines h hs hl
  have howner := SymbolTable.owner?_definition h hs hlisted (SymbolTable.indexed_unlinked ..) hl
  exact ⟨SymbolTable.declaration?_of_mem h.links_nodup hl, SymbolTable.linked_declares h hs hl,
    hkind, hdefines, howner.trans (SymbolTable.owner?_declaration h hs hl).symm⟩

namespace SymbolTable

variable {t t' : SymbolTable} {c d f o : SymbolId}

/-- The types of the parameters of a declaration are spelled as those of the definition, blanks
apart. -/
structure DeclaresAsSpelled (t : SymbolTable) (d f : SymbolId) : Prop extends t.Declares d f where
  spelled : (t.symbol d).params.map squash = (t.symbol f).params.map squash

/-- They are spelled alike, or name the same thing with the same decoration. -/
structure DeclaresAlike (t : SymbolTable) (d f : SymbolId) : Prop extends t.Declares d f where
  alike : ∃ site site', ∀ p ∈ (t.symbol d).params.zip (t.symbol f).params,
    t.sameParameterType p.1 p.2 site site' = true

theorem eq_of_mem_zip {g : α → β} {as bs : List α} (h : as.map g = bs.map g) :
    ∀ p ∈ as.zip bs, g p.1 = g p.2 := by
  induction as generalizing bs with
  | nil => exact nofun
  | cons a as ih =>
    cases bs with
    | nil => exact nofun
    | cons b bs =>
      obtain ⟨hab, h⟩ := List.cons.inj h
      exact List.forall_mem_cons.mpr ⟨hab, ih h⟩

theorem DeclaresAsSpelled.declares (h : t.DeclaresAsSpelled c f) (site : Site)
    (hc : (t.symbol c).parent.isSome) : t.declares (t.symbol f) site (t.symbol c) = true := by
  obtain ⟨p, hp⟩ := Option.isSome_iff_exists.mp hc
  have hspelled (a b : String) (hab : (a, b) ∈ (t.symbol c).params.zip (t.symbol f).params) :
      squash a = squash b := eq_of_mem_zip h.spelled (a, b) hab
  rw [SymbolTable.declares, h.isFunction, h.noBody, h.name, h.params, h.qualifiers, hp]
  simp only [beq_self_eq_true, Bool.not_false, Bool.and_true, Bool.true_and]
  refine List.all_eq_true.mpr fun ⟨a, b⟩ hab => ?_
  rw [sameParameterType, hspelled a b hab, beq_self_eq_true, Bool.true_or]

theorem DeclaresAlike.of_declares {site : Site}
    (h : t.declares (t.symbol f) site (t.symbol d) = true) : t.DeclaresAlike d f := by
  refine ⟨declares_spec h, ?_⟩
  rw [SymbolTable.declares, Bool.and_eq_true] at h
  have halike := h.2
  split at halike
  · cases halike
  · exact ⟨_, site, fun p hp => List.all_eq_true.mp halike p hp⟩

/-- If the types of some declaration are spelled as in the definition, the definition is linked: to
the first declaration of which they are alike. -/
theorem Unlinked.links_first (h : t.Unlinked) (hlisted : t.Listed) (hf : t.BelongsTo f o)
    (hc : c ∈ t.members o) (hne : c ≠ f) (hspelled : t.DeclaresAsSpelled c f) :
    ∃ d front back, (d, f) ∈ t.withLinks.links ∧ t.members o = front ++ d :: back ∧
      c ∈ d :: back ∧ t.DeclaresAlike d f ∧ ∀ m ∈ front, m ≠ f → ¬ t.DeclaresAsSpelled m f := by
  have hparent {m : SymbolId} (hm : m ∈ t.members o) (hd : t.DeclaresAsSpelled m f) :
      (t.symbol m).parent.isSome := by
    obtain ⟨b, hm, -⟩ := mem_members hm
    have hplain := (SymbolKind.isFunction_apart hd.isFunction).2.2
    rw [(hlisted.lists hm).parent hplain]
    rfl
  obtain ⟨site, hfind⟩ := declarationFor?_eq o (hf.parent_isSome h)
  have hfirst {m : SymbolId} (hm : m ∈ t.members o) (hne : m ≠ f) (hd : t.DeclaresAsSpelled m f) :
      (m != f && t.declares (t.symbol f) site (t.symbol m)) = true := by
    rw [hd.declares site (hparent hm hd), Bool.and_true, bne_iff_ne]
    exact hne
  cases hd : t.declarationFor? o f with
  | none =>
    rw [hfind, List.find?_eq_none] at hd
    exact absurd (hfirst hc hne hspelled) (hd c hc)
  | some d =>
    have hlink := h.mem_links.mpr ⟨o, hf, hd⟩
    rw [hfind, List.find?_eq_some_iff_append] at hd
    obtain ⟨hd, front, back, hmembers, hfront⟩ := hd
    rw [Bool.and_eq_true] at hd
    have hnot {m : SymbolId} (hm : m ∈ front) (hne : m ≠ f) : ¬ t.DeclaresAsSpelled m f := by
      intro hm'
      have hmem : m ∈ t.members o := hmembers ▸ List.mem_append_left _ hm
      have hfalse := hfront m hm
      rw [hfirst hmem hne hm'] at hfalse
      cases hfalse
    refine ⟨d, front, back, hlink, hmembers, ?_, .of_declares hd.2, fun m hm => hnot hm⟩
    rw [hmembers] at hc
    exact (List.mem_append.mp hc).resolve_left fun hc => hnot hc hne hspelled

end SymbolTable

/-- A definition is linked if its class or namespace has a declaration of it whose types are spelled
alike: to that one, or to one before it whose types are alike. -/
theorem overloads_linked (searchPaths : List Path) (headers : List Header)
    (documents : PathMap Document) :
    let s := Snapshot.ofDocuments searchPaths headers documents
    let t := unlinkedSymbols searchPaths documents
    ∀ f o c, t.BelongsTo f o → c ∈ t.members o → c ≠ f → t.DeclaresAsSpelled c f →
      ∃ d front back, s.symbols.declaration? f = some d ∧ t.members o = front ++ d :: back ∧
        c ∈ d :: back ∧ t.DeclaresAlike d f ∧
        ∀ m ∈ front, m ≠ f → ¬ t.DeclaresAsSpelled m f := by
  intro s t f o c hf hc hne hspelled
  have h := unlinkedSymbols_unlinked searchPaths documents
  have hlisted := (unlinkedSymbols_written searchPaths headers documents).toListed
  obtain ⟨d, front, back, hl, hrest⟩ := h.links_first hlisted hf hc hne hspelled
  exact ⟨d, front, back, SymbolTable.declaration?_of_mem h.links_nodup hl, hrest⟩

/-- A pointer of which an alias is a name does not count, so the overload for pointers is linked to
the definition for values, which is declared behind it. -/
theorem pointer_overload_linked :
    let text := "struct T \x7b\x7d;\ntypedef T *P;\n" ++
      "void f(P p);\nvoid f(T p);\nvoid f(T p) \x7b\x7d\n"
    let t := (Snapshot.ofDocuments [] [] ⟨[(.ofString "/a.cpp", ⟨text, 0⟩)]⟩).symbols
    (t.symbol 5).flags.isDefinition = true ∧ t.owner? 5 = some SymbolTable.global ∧
      4 ∈ t.members SymbolTable.global ∧ t.DeclaresAsSpelled 4 5 ∧
      t.declaration? 5 = some 3 ∧ ¬ t.DeclaresAsSpelled 3 5 := by
  intro text t
  have h : ((t.symbol 5).flags.isDefinition = true ∧ t.owner? 5 = some SymbolTable.global ∧
      4 ∈ t.members SymbolTable.global) ∧
      ((t.symbol 4).kind.isFunction = true ∧ (t.symbol 4).flags.isDefinition = false ∧
        (t.symbol 4).name = (t.symbol 5).name ∧
        hasConst (t.symbol 4).qualifiers = hasConst (t.symbol 5).qualifiers) ∧
      (t.symbol 3).params = ["P"] ∧ (t.symbol 4).params = ["T"] ∧ (t.symbol 5).params = ["T"] ∧
      t.declaration? 5 = some 3 := by
    decide +kernel
  obtain ⟨⟨hdefines, howner, hmem⟩, ⟨hkind, hbody, hname, hconst⟩, h3, h4, h5, hlinked⟩ := h
  refine ⟨hdefines, howner, hmem, ⟨⟨hkind, hbody, hname, ?_, hconst⟩, ?_⟩, hlinked, fun hd => ?_⟩
  · rw [h4, h5]
  · rw [h4, h5]
  · have hspelled := hd.spelled
    rw [h3, h5] at hspelled
    exact absurd hspelled (by decide)

namespace SymbolTable

variable {t : SymbolTable} {d f o : SymbolId}

theorem Sound.member_file (hs : t.Sound) (hd : d ∈ t.members o)
    (ho : (t.symbol o).isNamespace = false) (hplain : (t.symbol d).isNamespace = false) :
    (t.symbol d).file = (t.symbol o).file := by
  rw [members, ho] at hd
  split at hd
  · rename_i hspace
    cases hspace
  · split at hd
    · rename_i body hbody
      have hhas := (hs.hasScope body).members d hd
      have hfile := hhas.file.resolve_left fun hspace =>
        Bool.false_ne_true (hplain.symm.trans hspace)
      exact hfile.trans ((hs.hasSymbol o).body body hbody).2.file
    · cases hd

/-- What is defined outside of a class is in a file that sees the class. -/
theorem BelongsTo.sees (ht : t.Orderly) (hf : t.BelongsTo f o)
    (ho : (t.symbol o).isNamespace = false) :
    t.isSeenFrom (t.symbol f).file (t.symbol o).file = true := by
  cases hf with
  | outside _ howner => exact (qualifiedOwner_sees ht howner).plain ho
  | inside howner => exact nomatch (definedIn?_spec howner).2.2.2.2.symm.trans ho

end SymbolTable

/-- The definition of a member of a class is in a file that includes its declaration, if what a
forward declaration may stand for is seen from it. -/
theorem declarations_included (searchPaths : List Path) (headers : List Header)
    (documents : PathMap Document) :
    let s := Snapshot.ofDocuments searchPaths headers documents
    s.symbols.ForwardsSeen → ∀ d f, s.symbols.declaration? f = some d →
      (∀ o, s.symbols.owner? d = some o → (s.symbols.symbol o).isNamespace = false) →
      Relation.ReflTransGen s.graph.Includes (s.symbols.symbol f).file
        (s.symbols.symbol d).file := by
  intro s hforwards d f hd howner
  obtain ⟨hs, hempty⟩ := unlinkedSymbols_sound searchPaths documents
  have h := unlinkedSymbols_unlinked searchPaths documents
  have hlisted := (unlinkedSymbols_written searchPaths headers documents).toListed
  have hl := SymbolTable.mem_links_of_declaration? hd
  have hfile (i : SymbolId) : (s.symbols.symbol i).file =
      ((unlinkedSymbols searchPaths documents).symbol i).file :=
    hs.linked.symbol_field (g := Symbol.file) (fun _ => rfl) i
  have hindexed : (unlinkedSymbols searchPaths documents).Indexed :=
    SymbolTable.indexed_unlinked ..
  have ht := hs.orderly hindexed hempty (symbols_seen_trans searchPaths headers documents) hforwards
  obtain ⟨o, hf, hfound⟩ := h.mem_links.mp hl
  obtain ⟨hmem, -, site, hdeclares⟩ := SymbolTable.declarationFor?_spec hfound
  have hplain := (SymbolKind.isFunction_apart (SymbolTable.declares_spec hdeclares).isFunction).2.2
  have ho : ((unlinkedSymbols searchPaths documents).symbol o).isNamespace = false := by
    -- A member of a namespace has it as its owner, which the hypothesis excludes.
    refine Bool.eq_false_iff.mpr fun hspace => ?_
    have hout := SymbolTable.owner?_declaration h hs hl
    rw [hlisted.scopeOwner?_eq hindexed hmem hspace hplain] at hout
    have hnot := (hs.linked.isNamespace_eq o).symm.trans (howner o hout)
    exact Bool.false_ne_true (hnot.symm.trans hspace)
  refine isSeenFrom_iff.mp ?_
  rw [hfile, hfile, hs.member_file hmem ho hplain]
  exact (SymbolTable.isSeenFrom_withLinks ..).trans (hf.sees ht ho)

/-- The blocks of anonymous namespaces are those of one namespace, so what one file declares in its
own is linked to what another file defines in its own. -/
theorem anonymous_function_linked :
    let s := Snapshot.ofDocuments [] [] ⟨[
      (.ofString "/a.cpp", ⟨"namespace \x7b void f(); \x7d\n", 0⟩),
      (.ofString "/b.cpp", ⟨"namespace \x7b void f() \x7b\x7d \x7d\n", 0⟩)]⟩
    s.symbols.declaration? 3 = some 2 ∧ s.symbols.owner? 2 = some 1 ∧
      (s.symbols.symbol 1).isNamespace = true ∧ (s.symbols.symbol 1).isAnonymous = true ∧
      ¬ Relation.ReflTransGen s.graph.Includes (s.symbols.symbol 3).file
        (s.symbols.symbol 2).file := by
  intro s
  have h : s.symbols.declaration? 3 = some 2 ∧ s.symbols.owner? 2 = some 1 ∧
      (s.symbols.symbol 1).isNamespace = true ∧ (s.symbols.symbol 1).isAnonymous = true ∧
      s.symbols.isSeenFrom (s.symbols.symbol 3).file (s.symbols.symbol 2).file = false := by
    decide +kernel
  obtain ⟨hlinked, howner, hspace, hanonymous, hseen⟩ := h
  refine ⟨hlinked, howner, hspace, hanonymous, fun hincluded => ?_⟩
  exact Bool.false_ne_true (hseen.symm.trans (isSeenFrom_iff.mpr hincluded))

end CppRefactor
