import CppRefactor.Proofs.Symbols.Ground
import CppRefactor.Proofs.Symbols.Naming

/-!
The walk through the tree of a text declares on the ground of what it comes to.
-/

namespace CppRefactor.Declare

variable {text : String} {t u outer : Tree} {p : Place} {w : Span} {r n : Set Nat}
  {known : Set SymbolId}

/-- Parts that are gone through have their ground inside that of the whole. -/
theorem Gives.parts {us : List Tree} {f : Tree → Declaring PUnit} (h : IsTreeOf text t)
    (hus : us.Sublist t.parts)
    (hf : ∀ u ∈ us, IsTreeOf text u → Fills known p (.of u.span) (f u)) :
    Fills known p (.of t.span) (us.forM f) := by
  have hd := h.pairwise_disjoint hus
  refine forM (fun u hu => ?_) hd hd ?_ ?_
  · exact (hf u hu (h.part (hus.subset hu))).mono (h.part_within (hus.subset hu)) subset_rfl
      subset_rfl
  · exact fun u hu => (h.part_within (hus.subset hu)).offsets
  · exact fun u hu => (h.part_within (hus.subset hu)).offsets

theorem Gives.names {us : List Tree} {f : Tree → Declaring PUnit} (h : IsTreeOf text t)
    (hus : us.Sublist t.parts)
    (hf : ∀ u ∈ us, IsTreeOf text u → Fills known p ⟨w, ∅, u.span.offsets⟩ (f u)) :
    Fills known p ⟨w, ∅, t.span.offsets⟩ (us.forM f) := by
  refine forM (R := fun _ => ∅) (fun u hu => hf u hu (h.part (hus.subset hu)))
    (List.pairwise_of_forall fun _ _ => Set.disjoint_empty ∅) (h.pairwise_disjoint hus) ?_ ?_
  · exact fun _ _ => subset_rfl
  · exact fun u hu => (h.part_within (hus.subset hu)).offsets

theorem Place.fits_symbol (name : String) {kind : SymbolKind} (hk : kind ≠ .namespaceKind)
    (nameSpan declSpan : Span) : p.Fits known (p.symbol name kind nameSpan declSpan) where
  plain := beq_false_of_ne hk
  file := rfl
  parent := rfl
  scope := rfl
  type := nofun
  bases := nofun

theorem Place.FitsType.some {type : TypeRef} (h : p.FitsType known type) :
    ∀ type', Option.some type = Option.some type' → p.FitsType known type' :=
  fun _ he => Option.some.inj he ▸ h

theorem Place.fits_typeRef (specs : Tree) (declarator : Option Tree) {target : Option SymbolId}
    (h : ∀ i, target = some i → i ∈ known) : p.FitsType known (typeRef p specs declarator target) :=
  ⟨rfl, rfl, h⟩

theorem Place.fits_typeRef_none (specs : Tree) (declarator : Option Tree) :
    p.FitsType known (typeRef p specs declarator none) :=
  p.fits_typeRef specs declarator nofun

theorem Gives.name {s : Symbol} (hs : p.Fits known s) (hn : s.nameSpan.start ∈ n) :
    Fills known p ⟨w, ∅, n⟩ (Functor.discard (Declare.add s)) :=
  (Gives.add hs).discard.mono (.refl w) subset_rfl (Set.singleton_subset_iff.mpr hn)

theorem declareTemplateParameters_fills (h : IsTreeOf text outer) (names : List String) :
    Fills known p ⟨w, ∅, templateNames outer⟩ (declareTemplateParameters p names outer) := by
  unfold declareTemplateParameters templateParameters
  split
  · rename_i hk
    cases hps : outer.child? .templateParamList with
    | none => exact Gives.pure (Set.empty_subset known)
    | some ps =>
      have hsub : ps.span.offsets ⊆ templateNames outer := fun o ho =>
        ⟨beq_iff_eq.mp hk, childOffsets_of hps ▸ ho⟩
      refine Gives.mono (Gives.names (h.child hps) List.filter_sublist fun param _ hparam => ?_)
        (.refl w) subset_rfl hsub
      split
      · rename_i token htoken
        refine .ite (.name (p.fits_symbol _ (by decide) _ _) ?_) (.pure (Set.empty_subset known))
        exact templateParameter_start hparam htoken
      · exact .pure (Set.empty_subset known)
  · exact Gives.pure (Set.empty_subset known)

theorem declareParameter_fills (h : IsTreeOf text t) :
    Fills known p ⟨w, ∅, t.span.offsets⟩ (declareParameter p t) := by
  unfold declareParameter
  split
  · exact Gives.pure (Set.empty_subset known)
  · rename_i segment hs
    obtain ⟨name, hname, hs⟩ := Option.bind_eq_some_iff.mp hs
    obtain ⟨declarator, hd, hname⟩ := Option.bind_eq_some_iff.mp hname
    have hmem := (segment_start (h.child hd) hname (List.mem_of_getLast? hs)).1
    have hstart := (h.part_within (Tree.mem_parts_of_child? hd)).offsets hmem
    refine Gives.name ?_ ?_
    · split
      · exact ⟨rfl, rfl, rfl, rfl, (p.fits_typeRef_none _ _).some, nofun⟩
      · exact p.fits_symbol _ (by decide) _ _
    · split
      · exact hstart
      · exact hstart

theorem declareForward_fills (h : IsTreeOf text t) (params : List String) (outer : Tree) :
    Fills known p ⟨w, ∅, t.span.offsets⟩ (declareForward p t params outer) := by
  unfold declareForward
  split
  · exact Gives.pure (Set.empty_subset known)
  · rename_i name hname
    refine .ite ?_ (Gives.pure (Set.empty_subset known))
    split
    · exact Gives.pure (Set.empty_subset known)
    · rename_i segment hs
      have hpart := Tree.mem_parts_of_child? hname
      have hstart := (h.part_within hpart).offsets ((h.part hpart).last?_start hs)
      refine Gives.read .get fun _ => Gives.name ⟨?_, rfl, rfl, rfl, nofun, nofun⟩ hstart
      exact beq_false_of_ne (SymbolKind.ofKey_ne _)

theorem declareNamespaceAlias_fills (h : IsTreeOf text t) (outer : Tree) :
    Fills known p ⟨w, ∅, t.span.offsets⟩ (declareNamespaceAlias p t outer) := by
  unfold declareNamespaceAlias
  split
  · rename_i segment target hs _
    obtain ⟨name, hname, hs⟩ := Option.bind_eq_some_iff.mp hs
    have hpart := Tree.mem_parts_of_child? hname
    have hstart := (h.part_within hpart).offsets ((h.part hpart).last?_start hs)
    have htype : p.FitsType known (.ofName target (p.site t.span.start)) := ⟨rfl, rfl, nofun⟩
    exact .name ⟨rfl, rfl, rfl, rfl, htype.some, nofun⟩ hstart
  · exact Gives.pure (Set.empty_subset known)

theorem declareAlias_fills (h : IsTreeOf text t) (params : List String) (outer : Tree) :
    Fills known p ⟨w, ∅, t.span.offsets⟩ (declareAlias p t params outer) := by
  unfold declareAlias
  split
  · exact Gives.pure (Set.empty_subset known)
  · rename_i name hname
    have hstart := h.tokens_start (List.mem_of_find?_eq_some hname)
    refine Gives.read .get fun _ =>
      Gives.name ⟨rfl, rfl, rfl, rfl, fun type htype => ?_, nofun⟩ hstart
    obtain ⟨specs, -, rfl⟩ := Option.map_eq_some_iff.mp htype
    exact p.fits_typeRef_none specs _

theorem declareDeclarator_fills (h : IsTreeOf text t) (specs : Tree) {target : Option SymbolId}
    (htarget : ∀ i, target = some i → i ∈ known) (params : List String) (outer : Tree) :
    Fills known p ⟨w, ∅, t.span.offsets⟩ (declareDeclarator p specs target params outer t) := by
  unfold declareDeclarator
  split
  · rename_i segment hs
    obtain ⟨name, hname, hs⟩ := Option.map_eq_some_iff.mp hs
    have hstart := (segment_start h hname (hs ▸ List.mem_singleton_self segment)).1
    have htype := (p.fits_typeRef specs (some t) htarget).some
    refine Gives.read (isClassBody_silent p) fun _ =>
      Gives.read (memberAccess_silent p) fun _ => ?_
    refine Gives.name ?_ ?_
    · split_ifs <;> exact ⟨rfl, rfl, rfl, rfl, htype, nofun⟩
    · split_ifs <;> exact hstart
  · exact Gives.pure (Set.empty_subset known)

theorem declareEnum_gives (h : IsTreeOf text t) (hk : t.isChild .enumSpec = true) (outer : Tree) :
    Gives known p (.of t.span) (declareEnum p t outer) fun given => {i | given = some i} := by
  obtain ⟨hmem, hapart⟩ := typeName_start h hk rfl
  unfold declareEnum
  refine .read .get fun _ => ?_
  cases hlist : Enumeration.list? t with
  | none =>
    refine .mono (.andThen (.add ⟨rfl, rfl, rfl, rfl, nofun, nofun⟩) (fun i => .pure nofun)
      (Set.notMem_empty _)) (.refl t.span) (Set.empty_subset _) ?_
    exact Set.insert_subset hmem (Set.empty_subset _)
  | some list =>
    have hpart := Tree.mem_parts_of_child? hlist
    have hlist' := Tree.kind_of_isChild (Tree.isChild_of_child? hlist)
    have hfresh := hapart list hpart hlist'.1 (by rw [hlist'.2]; nofun)
    have hwithin := h.part_within hpart
    refine .mono (.andThen (.add ⟨rfl, rfl, rfl, rfl, nofun, nofun⟩) (fun i => ?_) hfresh)
      (.refl t.span) hwithin.offsets (Set.insert_subset hmem hwithin.offsets)
    refine .enter hwithin (fun o ho _ => .inr (Option.some.inj ho).symm) fun scope =>
      .thenPure (.mono ?_ (.refl list.span) (Set.empty_subset _) subset_rfl) ?_
    · rw [Enumeration.enumerators, hlist]
      refine Gives.names (h.part hpart) List.filter_sublist fun e _ he => ?_
      split
      · rename_i token htoken
        refine .name (Place.fits_symbol _ (by decide) _ _) ?_
        exact he.tokens_start (List.mem_of_find?_eq_some htoken)
      · exact .pure (Set.empty_subset _)
    · rintro j ⟨⟩
      exact .inr rfl

namespace Visit

/-- What is declared there: scopes and names in the tree, and the parameters of templates around
it. -/
def ground : Visit → Ground
  | item t _ outer => ⟨t.span, t.span.offsets, t.span.offsets ∪ templateNames outer⟩
  | statement t => .of t.span

/-- The walk through a text comes there. -/
def Stands (text : String) : Visit → Prop
  | item t _ outer => IsTreeOf text t ∧ IsTreeOf text outer ∧
      (outer = t ∨ Disjoint (templateNames outer) t.span.offsets)
  | statement t => IsTreeOf text t

end Visit

section

variable {go : Place → Visit → Declaring Unit}
  (hgo : ∀ p v, v.Stands text → Fills ∅ p v.ground (go p v))

include hgo

theorem item_fills (h : IsTreeOf text t) : Fills known p (.of t.span) (go p (.ofItem t)) :=
  ((hgo p (.ofItem t) ⟨h, h, .inl rfl⟩).known_mono (Set.empty_subset known)).mono (.refl t.span)
    subset_rfl (Set.union_subset subset_rfl (templateNames_subset h))

theorem statement_fills (h : IsTreeOf text t) :
    Fills known p (.of t.span) (go p (.statement t)) :=
  (hgo p (.statement t) h).known_mono (Set.empty_subset known)

theorem items_fills (h : IsTreeOf text t) :
    Fills known p (.of t.span) (t.items.forM fun item => go p (.ofItem item)) :=
  .parts h List.filter_sublist fun _ _ hu => item_fills hgo hu

theorem statements_fills (h : IsTreeOf text t) :
    Fills known p (.of t.span) (t.children.forM fun s => go p (.statement s)) :=
  .parts h List.filter_sublist fun _ _ hu => statement_fills hgo hu

theorem declareClass_gives (h : IsTreeOf text t) (hk : t.isChild .classSpec = true)
    (ho : IsTreeOf text outer) (hd : Disjoint (templateNames outer) t.span.offsets)
    (params : List String) :
    Gives known p ⟨t.span, t.span.offsets, t.span.offsets ∪ templateNames outer⟩
      (declareClass go p t params outer) fun given => {i | given = some i} := by
  obtain ⟨hmem, hapart⟩ := typeName_start h hk rfl
  have hbases : ∀ base ∈ ((Class.bases t).filterMap Tree.name?).map fun n =>
      TypeRef.ofName n (p.site t.span.start), p.FitsType known base := by
    intro base hbase
    obtain ⟨name, -, rfl⟩ := List.mem_map.mp hbase
    exact ⟨rfl, rfl, nofun⟩
  have hplain (key : Option Kind) := beq_false_of_ne (SymbolKind.ofKey_ne key)
  unfold declareClass
  refine .read .get fun _ => ?_
  cases hlist : Class.members? t with
  | none =>
    refine .mono (.andThen (.add ⟨hplain _, rfl, rfl, rfl, nofun, hbases⟩)
      (fun i => .pure nofun) (Set.notMem_empty _)) (.refl t.span) (Set.empty_subset _) ?_
    exact Set.insert_subset (.inl hmem) (Set.empty_subset _)
  | some list =>
    have hpart := Tree.mem_parts_of_child? hlist
    have hlist' := Tree.kind_of_isChild (Tree.isChild_of_child? hlist)
    have hwithin := h.part_within hpart
    have hapart' := hd.mono_right hwithin.offsets
    have hfresh : (typeName t).2.start ∉ templateNames outer ∪ list.span.offsets := by
      rintro (hn | hn)
      · exact Set.disjoint_left.mp hd hn hmem
      · exact hapart list hpart hlist'.1 (by rw [hlist'.2]; nofun) hn
    refine .mono (.andThen (.add ⟨hplain _, rfl, rfl, rfl, nofun, hbases⟩)
      (fun i => ?_) hfresh) (.refl t.span) hwithin.offsets ?_
    · refine .enter hwithin (fun o ho _ => .inr (Option.some.inj ho).symm) fun scope =>
        .thenPure (.withAccess _ ?_) ?_
      · exact .namesThen (declareTemplateParameters_fills ho params)
          (fun _ => items_fills hgo (h.part hpart)) hapart'
      · rintro j ⟨⟩
        exact .inr rfl
    · exact Set.insert_subset (.inl hmem)
        (Set.union_subset Set.subset_union_right (hwithin.offsets.trans Set.subset_union_left))

omit hgo in
theorem declarators_fills (h : IsTreeOf text t) {f : Tree → Declaring PUnit}
    (hf : ∀ d, IsTreeOf text d → Fills known p ⟨w, ∅, d.span.offsets⟩ (f d)) :
    Fills known p ⟨w, ∅, {o | ∃ d ∈ t.childrenOf .initDeclarator, o ∈ d.span.offsets}⟩
      (((t.childrenOf .initDeclarator).filterMap Tree.declarator?).forM f) := by
  have hinit {d : Tree} (hd : d ∈ t.childrenOf .initDeclarator) : IsTreeOf text d :=
    h.part (Tree.isChild_of_childrenOf hd).1
  have hin {u d : Tree} (hu : u ∈ t.childrenOf .initDeclarator) (hd : u.declarator? = some d) :
      d.span.offsets ⊆ u.span.offsets :=
    ((hinit hu).part_within (Tree.mem_parts_of_child? hd)).offsets
  refine .forM (R := fun _ => ∅) (N := fun d => d.span.offsets) (fun d hd => ?_)
    (List.pairwise_of_forall fun _ _ => Set.disjoint_empty ∅) ?_ (fun _ _ => subset_rfl) ?_
  · obtain ⟨u, hu, hd⟩ := List.mem_filterMap.mp hd
    exact hf d ((hinit hu).child hd)
  · refine List.pairwise_filterMap.mpr ((h.pairwise_disjoint List.filter_sublist).imp_of_mem ?_)
    intro u v hu hv huv d hd d' hd'
    exact (huv.mono_left (hin hu hd)).mono_right (hin hv hd')
  · intro d hd o ho
    obtain ⟨u, hu, hd⟩ := List.mem_filterMap.mp hd
    exact ⟨u, hu, hin hu hd ho⟩

omit hgo in
/-- What the specifiers declare comes first, and the declarators have ground of their own. -/
theorem specified_fills (h : IsTreeOf text t) (hspecs : t.specifiers? = some specs)
    (hd : Disjoint (templateNames outer) t.span.offsets) (params : List String)
    {m : Declaring (Option SymbolId)}
    (hm : Gives known p ⟨t.span, specs.span.offsets, specs.span.offsets ∪ templateNames outer⟩ m
      fun given => {i | given = some i}) :
    Fills known p ⟨t.span, t.span.offsets, t.span.offsets ∪ templateNames outer⟩
      (m >>= fun target => ((t.childrenOf .initDeclarator).filterMap Tree.declarator?).forM
        (declareDeclarator p specs target params outer)) := by
  have hpart := Tree.mem_parts_of_child? hspecs
  have hkind := (Tree.kind_of_isChild (Tree.isChild_of_child? hspecs)).2
  have hwithin := h.part_within hpart
  have hapart : Disjoint specs.span.offsets
      {o | ∃ d ∈ t.childrenOf .initDeclarator, o ∈ d.span.offsets} := by
    refine Set.disjoint_left.mpr fun o ho ⟨d, hd, ho'⟩ => Set.disjoint_left.mp ?_ ho ho'
    obtain ⟨hd, hk⟩ := Tree.isChild_of_childrenOf hd
    refine h.apart_of_kind hpart hd ?_
    rw [hkind, (Tree.kind_of_isChild hk).2]
    nofun
  have hdeclarators : {o | ∃ d ∈ t.childrenOf .initDeclarator, o ∈ d.span.offsets} ⊆
      t.span.offsets := fun o ⟨d, hd, ho⟩ =>
    (h.part_within (Tree.isChild_of_childrenOf hd).1).offsets ho
  refine .mono (.bind hm (fun target => declarators_fills h fun d hd =>
    declareDeclarator_fills hd specs (fun i hi => .inr hi) params outer)
    (Set.disjoint_empty _) ?_) (.refl _) ?_ ?_
  · exact Set.disjoint_union_left.mpr ⟨hapart, hd.mono_right hdeclarators⟩
  · exact Set.union_subset hwithin.offsets (Set.empty_subset _)
  · exact Set.union_subset (Set.union_subset_union_left _ hwithin.offsets)
      (hdeclarators.trans Set.subset_union_left)

theorem declareSimple_fills (h : IsTreeOf text t) (ho : IsTreeOf text outer)
    (hd : Disjoint (templateNames outer) t.span.offsets) (params : List String) :
    Fills known p ⟨t.span, t.span.offsets, t.span.offsets ∪ templateNames outer⟩
      (declareSimple go p t params outer) := by
  unfold declareSimple
  split
  · exact .pure (Set.empty_subset known)
  · rename_i specs hspecs
    have hpart := Tree.mem_parts_of_child? hspecs
    have hwithin := h.part_within hpart
    have hs := h.part hpart
    have hnone : Gives known p
        ⟨t.span, specs.span.offsets, specs.span.offsets ∪ templateNames outer⟩
        (pure none : Declaring (Option SymbolId)) fun given => {i | given = some i} := .pure nofun
    dsimp only
    split
    · rename_i c _ _ hc
      have hc' := hs.part_within (Tree.mem_parts_of_child? hc)
      refine specified_fills h hspecs hd params
        (.mono (declareClass_gives hgo (hs.child hc) (Tree.isChild_of_child? hc) ho ?_ params)
          (hc'.trans hwithin) hc'.offsets (Set.union_subset_union_left _ hc'.offsets))
      exact hd.mono_right (hc'.trans hwithin).offsets
    · rename_i e _ _ he
      have he' := hs.part_within (Tree.mem_parts_of_child? he)
      exact specified_fills h hspecs hd params
        (.mono (declareEnum_gives (hs.child he) (Tree.isChild_of_child? he) outer)
          (he'.trans hwithin) he'.offsets (he'.offsets.trans Set.subset_union_left))
    · rename_i e _ _ he
      have he' := hs.part_within (Tree.mem_parts_of_child? he)
      have hforward : Gives known p
          ⟨t.span, specs.span.offsets, specs.span.offsets ∪ templateNames outer⟩
          (declareForward p e params outer >>= fun _ => pure none)
          fun given => {i | given = some i} :=
        .thenPure (.mono (declareForward_fills (hs.child he) params outer) (.refl _)
          (Set.empty_subset _) (he'.offsets.trans Set.subset_union_left)) nofun
      have hforward' := specified_fills h hspecs hd params hforward
      rw [bind_assoc] at hforward'
      exact .ite hforward' (specified_fills h hspecs hd params hnone)
    · exact specified_fills h hspecs hd params hnone

omit hgo in
theorem functionSymbol_fits (t declarator : Tree) (segment : Name.Segment) (qualified : Bool)
    (path : Option TypePath) (params : List String) (outer : Tree) (s : State) :
    let symbol := ((functionSymbol p t declarator segment qualified path params outer).run s).1
    p.Fits known symbol ∧ symbol.kind.isFunction = true ∧ symbol.nameSpan = segment.span := by
  have hbind {α : Type} {m : Declaring α} {f : α → Declaring Symbol}
      (hf : ∀ a s, p.Fits known ((f a).run s).1 ∧ ((f a).run s).1.kind.isFunction = true ∧
        ((f a).run s).1.nameSpan = segment.span) (s : State) :
      p.Fits known ((m >>= f).run s).1 ∧ ((m >>= f).run s).1.kind.isFunction = true ∧
        ((m >>= f).run s).1.nameSpan = segment.span := hf _ _
  unfold functionSymbol
  refine hbind (fun inClass => hbind fun access s => ?_) s
  dsimp only
  split
  · rename_i specs _
    split_ifs <;>
      exact ⟨⟨rfl, rfl, rfl, rfl, (p.fits_typeRef_none specs _).some, nofun⟩, rfl, rfl⟩
  · split_ifs <;> exact ⟨⟨rfl, rfl, rfl, rfl, nofun, nofun⟩, rfl, rfl⟩

theorem functionBody_fills (h : IsTreeOf text t)
    (hdeclarator : t.child? .declarator = some d) (ho : IsTreeOf text outer)
    (hd : Disjoint (templateNames outer) t.span.offsets) (params : List String)
    (hwithin : ∀ b, t.child? .compoundStmt = some b → b.span.Within w) :
    Fills known p ⟨w, w.offsets, templateNames outer ∪
        (childOffsets .paramList d ∪ childOffsets .compoundStmt t)⟩ (withAccess none do
      declareTemplateParameters p params outer
      (((Declarator.parameters? d).map Parameters.list).getD []).forM (declareParameter p)
      (((t.child? .compoundStmt).map (·.children)).getD []).forM fun s => go p (.statement s)) := by
  have hpart := Tree.mem_parts_of_child? hdeclarator
  have hd' := h.part hpart
  have hparameters : Fills known p ⟨w, ∅, childOffsets .paramList d⟩
      ((((Declarator.parameters? d).map Parameters.list).getD []).forM (declareParameter p)) := by
    cases hps : Declarator.parameters? d with
    | none => exact .pure (Set.empty_subset known)
    | some ps =>
      rw [childOffsets_of hps]
      exact Gives.names (hd'.child hps) List.filter_sublist fun _ _ hu => declareParameter_fills hu
  have hstatements : Fills known p ⟨w, w.offsets, childOffsets .compoundStmt t⟩
      ((((t.child? .compoundStmt).map (·.children)).getD []).forM fun s =>
        go p (.statement s)) := by
    cases hb : t.child? .compoundStmt with
    | none => exact .pure (Set.empty_subset known)
    | some b =>
      rw [childOffsets_of hb]
      exact (statements_fills hgo (h.child hb)).mono (hwithin b hb) (hwithin b hb).offsets
        subset_rfl
  have hkind := (Tree.kind_of_isChild (Tree.isChild_of_child? hdeclarator)).2
  have hbody : Disjoint (childOffsets .paramList d) (childOffsets .compoundStmt t) :=
    (childOffsets_apart h hpart (by rw [hkind]; nofun)).symm.mono_left (childOffsets_subset hd' _)
  have hin : childOffsets .paramList d ∪ childOffsets .compoundStmt t ⊆ t.span.offsets :=
    Set.union_subset ((childOffsets_subset hd' _).trans (h.part_within hpart).offsets)
      (childOffsets_subset h _)
  exact .withAccess none (.namesThen (declareTemplateParameters_fills ho params) (fun _ =>
    .namesThen hparameters (fun _ => hstatements) hbody) (hd.mono_right hin))

/-- From the parameters of a function to its end. -/
def functionSpan (t declarator : Tree) : Span :=
  ((Declarator.parameters? declarator).map fun ps => ⟨ps.span.start, t.span.stop⟩).getD t.span

omit hgo in
/-- The scope of a function is inside it, and its body inside the scope. -/
theorem functionSpan_within (h : IsTreeOf text t) (hk : t.kind = .functionDef)
    (hdeclarator : t.child? .declarator = some d) : (functionSpan t d).Within t.span ∧
      ∀ b, t.child? .compoundStmt = some b → b.span.Within (functionSpan t d) := by
  have hpart := Tree.mem_parts_of_child? hdeclarator
  have hd := h.part_within hpart
  unfold functionSpan
  cases hps : Declarator.parameters? d with
  | none => exact ⟨.refl t.span, fun b hb => h.part_within (Tree.mem_parts_of_child? hb)⟩
  | some ps =>
    have hps' := (h.part hpart).part_within (Tree.mem_parts_of_child? hps)
    have hle := ((h.part hpart).child hps).tiled.start_le_stop
    refine ⟨⟨(hps'.trans hd).1, Nat.le_refl _⟩, fun b hb => ⟨?_, ?_⟩⟩
    · exact Nat.le_trans hle (Nat.le_trans hps'.2 (h.declarator_before_body hk hdeclarator hb))
    · exact (h.part_within (Tree.mem_parts_of_child? hb)).2

theorem functionScope_fills (h : IsTreeOf text t) (hk : t.kind = .functionDef)
    (hdeclarator : t.child? .declarator = some d) (ho : IsTreeOf text outer)
    (hd : Disjoint (templateNames outer) t.span.offsets) (params : List String) (hi : i ∈ known) :
    Fills known p ⟨t.span, (functionSpan t d).offsets, templateNames outer ∪
        (childOffsets .paramList d ∪ childOffsets .compoundStmt t)⟩ (do
      let inner ← p.enter .function (some i) (functionSpan t d)
      withAccess none do
        declareTemplateParameters inner params outer
        (((Declarator.parameters? d).map Parameters.list).getD []).forM (declareParameter inner)
        (((t.child? .compoundStmt).map (·.children)).getD []).forM fun s =>
          go inner (.statement s)) := by
  obtain ⟨hwithin, hbody⟩ := functionSpan_within h hk hdeclarator
  exact .enter hwithin (fun o ho _ => Option.some.inj ho ▸ hi) fun scope =>
    functionBody_fills hgo h hdeclarator ho hd params hbody

theorem declareFunction_fills (h : IsTreeOf text t) (hk : t.kind = .functionDef)
    (ho : IsTreeOf text outer) (hd : Disjoint (templateNames outer) t.span.offsets)
    (params : List String) :
    Fills known p ⟨t.span, t.span.offsets, t.span.offsets ∪ templateNames outer⟩
      (declareFunction go p t params outer) := by
  unfold declareFunction
  split
  · rename_i d name hdeclarator hname
    dsimp only
    split
    · exact .pure (Set.empty_subset known)
    · rename_i segment hs
      have hpart := Tree.mem_parts_of_child? hdeclarator
      have hkind := (Tree.kind_of_isChild (Tree.isChild_of_child? hdeclarator)).2
      have hname' : Declarator.name? d = some name := by
        rwa [Tree.declaredName?, hdeclarator] at hname
      obtain ⟨hmem, hparameters⟩ := segment_start (h.part hpart) hname' (List.mem_of_getLast? hs)
      have hstart := (h.part_within hpart).offsets hmem
      have hfresh : segment.span.start ∉ templateNames outer ∪
          (childOffsets .paramList d ∪ childOffsets .compoundStmt t) := by
        rintro (hn | hn | hn)
        · exact Set.disjoint_left.mp hd hn hstart
        · exact hparameters hn
        · exact Set.disjoint_left.mp (childOffsets_apart h hpart (by rw [hkind]; nofun)) hn hmem
      have hnames : insert segment.span.start (templateNames outer ∪
          (childOffsets .paramList d ∪ childOffsets .compoundStmt t)) ⊆
            t.span.offsets ∪ templateNames outer := by
        refine Set.insert_subset (.inl hstart) (Set.union_subset Set.subset_union_right ?_)
        refine (Set.union_subset ?_ (childOffsets_subset h _)).trans Set.subset_union_left
        exact (childOffsets_subset (h.part hpart) _).trans (h.part_within hpart).offsets
      have hwithin := (functionSpan_within h hk hdeclarator).1
      have hscope (i : SymbolId) : Fills (known ∪ {i}) p _ _ :=
        functionScope_fills hgo h hk hdeclarator ho hd params (.inr rfl)
      refine .read (functionSymbol_silent p t d segment _ _ params outer) fun s => ?_
      obtain ⟨hfits, hfunction, hspan⟩ : p.Fits known _ ∧ _ := functionSymbol_fits t d segment
        (decide (1 < (Name.segments name).length)) (TypePath.ofName? name) params outer s
      rw [← hspan] at hfresh hnames
      generalize (functionSymbol p t d segment _ _ params outer).run s = symbol at *
      refine .mono ?_ (.refl t.span) hwithin.offsets hnames
      split
      · exact .addOutOfLine hfits hfunction hscope hfresh
      · exact .andThen (.add hfits) hscope hfresh
  · exact .pure (Set.empty_subset known)

omit hgo in
theorem enterNamespaces_fills {span : Span} {body : Place → Declaring Unit} (isInline : Bool)
    {names : List (String × Span)} (hspan : span.Within w)
    (hbody : ∀ scope, Fills known ⟨p.file, scope⟩ ⟨span, span.offsets, n⟩ (body ⟨p.file, scope⟩))
    (hpairs : (names.map (·.2.start)).Pairwise (· < ·)) (hfresh : ∀ x ∈ names, x.2.start ∉ n) :
    Fills known p ⟨w, span.offsets, {o | ∃ x ∈ names, x.2.start = o} ∪ n⟩
      (enterNamespaces span isInline names p >>= body) := by
  induction names generalizing p w with
  | nil => exact (hbody p.scope).mono hspan subset_rfl Set.subset_union_right
  | cons x names ih =>
    obtain ⟨name, nameSpan⟩ := x
    obtain ⟨hx, hpairs⟩ := List.pairwise_cons.mp hpairs
    obtain ⟨hxn, hfresh⟩ := List.forall_mem_cons.mp hfresh
    have hinner (i : SymbolId) : Fills known p
        ⟨w, span.offsets, {o | ∃ x ∈ names, x.2.start = o} ∪ n⟩
        ((p.enter .namespaceBlock (some i) span >>= enterNamespaces span isInline names) >>=
          body) := by
      rw [bind_assoc]
      exact .enter hspan (fun _ _ hne => absurd rfl hne) fun scope =>
        ih (.refl span) hbody hpairs hfresh
    have hnot : nameSpan.start ∉ {o | ∃ x ∈ names, x.2.start = o} ∪ n := by
      rintro (⟨x, hx', he⟩ | hn)
      · exact Nat.lt_irrefl _ (he ▸ hx _ (List.mem_map_of_mem hx'))
      · exact hxn hn
    rw [enterNamespaces, bind_assoc]
    refine .mono (.andThen (.declareNamespace name nameSpan) (fun i => ?_) hnot) (.refl w)
      subset_rfl ?_
    · refine Gives.known_mono ?_ Set.subset_union_left
      split
      · rw [bind_assoc]
        exact .after (.setFlags (fun flags => { flags with isInline := true }) i) fun _ => hinner i
      · exact hinner i
    · refine Set.insert_subset (.inl ⟨_, List.mem_cons_self, rfl⟩)
        (Set.union_subset_union_left _ ?_)
      rintro o ⟨x, hx, he⟩
      exact ⟨x, List.mem_cons_of_mem _ hx, he⟩

theorem declareNamespace_fills (h : IsTreeOf text t) (hk : t.kind = .namespaceDef) :
    Fills known p (.of t.span) (declareNamespace go p t) := by
  unfold declareNamespace
  split
  · exact .pure (Set.empty_subset known)
  · rename_i body hbody
    have hpart := Tree.mem_parts_of_child? hbody
    have hbody' := Tree.kind_of_isChild (Tree.isChild_of_child? hbody)
    obtain ⟨hpairs, hnames⟩ := namespaceNames_start h (hk ▸ Tree.isChild_kind hpart)
    have hwithin := h.part_within hpart
    have hfresh : ∀ x ∈ namespaceNames t, x.2.start ∉ body.span.offsets := fun x hx =>
      (hnames x hx).2 body hpart hbody'.1 (by rw [hbody'.2]; nofun)
    refine .mono (enterNamespaces_fills (t.hasToken .inlineKw) hwithin
      (fun scope => items_fills hgo (h.part hpart)) hpairs hfresh) (.refl t.span) hwithin.offsets ?_
    exact Set.union_subset (fun o ⟨x, hx, he⟩ => he ▸ (hnames x hx).1) hwithin.offsets

theorem innerItem_fills (hv : Visit.Stands text (.item t params outer))
    (hitem : t.item? = some item) (params' : List String) :
    Fills known p (Visit.ground (.item t params outer)) (go p (.item item params' outer)) := by
  obtain ⟨h, ho, hd⟩ := hv
  have hpart := List.mem_of_find?_eq_some hitem
  have hwithin := h.part_within hpart
  have hk : item.kind ≠ .templateParamList := by
    intro hk
    have hi := List.find?_some hitem
    rw [Tree.isItem, hk, Bool.and_comm] at hi
    cases hi
  have hapart : Disjoint (templateNames outer) item.span.offsets := by
    rcases hd with rfl | hd
    · exact templateNames_apart h hpart hk
    · exact hd.mono_right hwithin.offsets
  exact ((hgo p (.item item params' outer) ⟨h.part hpart, ho, .inr hapart⟩).known_mono
    (Set.empty_subset known)).mono hwithin hwithin.offsets
      (Set.union_subset_union_left _ hwithin.offsets)

theorem declareItem_fills (params : List String) (hv : Visit.Stands text (.item t params outer)) :
    Fills known p (Visit.ground (.item t params outer)) (declareItem go p t params outer) := by
  have hitem {item : Tree} (hitem : t.item? = some item) (params' : List String) :
      Fills known p (Visit.ground (.item t params outer)) (go p (.item item params' outer)) :=
    innerItem_fills hgo hv hitem params'
  obtain ⟨h, ho, hd⟩ := hv
  have hd' (hk : t.kind ≠ .templateDecl) : Disjoint (templateNames outer) t.span.offsets := by
    refine hd.elim ?_ fun hd => hd
    rintro rfl
    exact Set.disjoint_left.mpr fun o ho => absurd ho.1 hk
  have hof {m : Declaring Unit} (hm : Fills known p (.of t.span) m) :
      Fills known p (Visit.ground (.item t params outer)) m :=
    hm.mono (.refl t.span) subset_rfl Set.subset_union_left
  have hnames {m : Declaring Unit} (hm : Fills known p ⟨t.span, ∅, t.span.offsets⟩ m) :
      Fills known p (Visit.ground (.item t params outer)) m :=
    hof (hm.mono (.refl t.span) (Set.empty_subset _) subset_rfl)
  unfold declareItem
  split
  · rename_i hk
    exact hof (declareNamespace_fills hgo h hk)
  · exact hnames (declareNamespaceAlias_fills h outer)
  · split
    · rename_i body _ hbody
      have hpart := Tree.mem_parts_of_child? hbody
      have hwithin := h.part_within hpart
      exact hof (.mono (items_fills hgo (h.part hpart)) hwithin hwithin.offsets hwithin.offsets)
    · rename_i item _ hi
      exact hitem hi params
    · exact .pure (Set.empty_subset known)
  · split
    · refine .modifyScope ?_ ?_ ?_ ?_
      all_goals exact fun _ => rfl
    · exact .pure (Set.empty_subset known)
  · split
    · refine .modifyScope ?_ ?_ ?_ ?_
      all_goals exact fun _ => rfl
    · exact .pure (Set.empty_subset known)
  · exact hnames (declareAlias_fills h params outer)
  · split
    · rename_i item hi
      exact hitem hi _
    · exact .pure (Set.empty_subset known)
  · rename_i hk
    exact declareSimple_fills hgo h ho (hd' (hk ▸ nofun)) params
  · rename_i hk
    exact declareFunction_fills hgo h hk ho (hd' (hk ▸ nofun)) params
  · exact .silent (.modify fun _ => rfl)
  · exact .pure (Set.empty_subset known)

theorem declareStatement_fills (h : IsTreeOf text t) :
    Fills known p (.of t.span) (declareStatement go p t) := by
  have hblock : Fills known p (.of t.span) (do
      let inner ← p.enter .block none t.span
      t.children.forM fun s => go inner (.statement s)) :=
    .enter (.refl t.span) nofun fun _ => statements_fills hgo h
  unfold declareStatement
  split
  case h_16 => exact statements_fills hgo h
  case h_17 =>
    exact (declareParameter_fills h).mono (.refl t.span) (Set.empty_subset _) subset_rfl
  case h_18 => exact .pure (Set.empty_subset known)
  all_goals first | exact item_fills hgo h | exact hblock

omit hgo

/-- The walk declares on the ground of what it comes to: one case for an item, one for a
statement. -/
theorem visit_fills (n : Nat) {v : Visit} (hv : v.Stands text) :
    Fills ∅ p v.ground (visit n p v) := by
  induction n generalizing p v with
  | zero => exact .pure (Set.empty_subset _)
  | succ n ih =>
    cases v with
    | item t params outer => exact declareItem_fills (fun _ _ => ih) params hv
    | statement t => exact declareStatement_fills (fun _ _ => ih) hv

end

end CppRefactor.Declare
