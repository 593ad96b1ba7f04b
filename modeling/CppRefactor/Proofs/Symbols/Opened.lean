import CppRefactor.Proofs.Symbols.Bodies
import CppRefactor.Proofs.Symbols.Seen

/-!
What is declared in the scopes of a document. Each class and each function that is defined there
opens a scope that begins as its definition says; so of several templates around it, only the
outermost has its parameters declared. Parameters are declared of functions that are defined, and of
nothing else: none of those that a `catch` has in its list.
-/

namespace CppRefactor

namespace Declare

open SymbolTable (Fresh)

variable {root t d u outer : Tree} {file : FileId} {p : ScopeId} {params : List String}

theorem declareForward_steps (elaborated : Tree) (params : List String) (outer : Tree) :
    Steps root ⟨file, p⟩ (declareForward ⟨file, p⟩ elaborated params outer) := by
  have hkind (k : SymbolKind) (hk : SymbolKind.ofKey elaborated.leadKind? = k)
      (hne : k = .parameter ∨ k = .templateParam) : False := by
    unfold SymbolKind.ofKey at hk
    split at hk <;> subst hk <;> exact hne.elim nofun nofun
  unfold declareForward
  split
  · exact .pure ()
  · refine .ite ?_ (.pure ())
    split
    · exact .pure ()
    · refine .bind .get fun _ => .discard (.add ⟨rfl, rfl, fun hk => ?_⟩ rfl fun hk => ?_)
      · exact (hkind _ hk (.inl rfl)).elim
      · exact hkind _ hk (.inr rfl)

theorem declareNamespaceAlias_steps (t outer : Tree) :
    Steps root ⟨file, p⟩ (declareNamespaceAlias ⟨file, p⟩ t outer) := by
  unfold declareNamespaceAlias
  split
  · exact .discard (.add ⟨rfl, rfl, nofun⟩ rfl nofun)
  · exact .pure ()

theorem declareAlias_steps (t : Tree) (params : List String) (outer : Tree) :
    Steps root ⟨file, p⟩ (declareAlias ⟨file, p⟩ t params outer) := by
  unfold declareAlias
  split
  · exact .pure ()
  · exact .bind .get fun _ => .discard (.add ⟨rfl, rfl, nofun⟩ rfl nofun)

theorem declareDeclarator_steps (specs : Tree) (target : Option SymbolId) (params : List String)
    (outer d : Tree) :
    Steps root ⟨file, p⟩ (declareDeclarator ⟨file, p⟩ specs target params outer d) := by
  unfold declareDeclarator
  split
  · refine .bind (.silent (isClassBody_silent _)) fun inClass =>
      .bind (.silent (memberAccess_silent _)) fun _ => .discard ?_
    split_ifs <;> exact .add ⟨rfl, rfl, nofun⟩ rfl nofun
  · exact .pure ()

theorem declareParameter_steps (hu : u ∈ root.preorder) (htakes : u.Takes t) :
    Steps root ⟨file, p⟩ (declareParameter ⟨file, p⟩ t) where
  step s _ hp := by
    rw [declareParameter_run]
    cases hs : parameterSymbol ⟨file, p⟩ t with
    | none => exact .refl s.table
    | some symbol =>
      obtain ⟨hheads, hk⟩ := parameterSymbol_heads hu htakes hs
      exact (SymbolTable.gains_add hheads.parent hp.lt hk).step hheads.fresh

theorem declareEnum_steps (t outer : Tree) :
    Steps root ⟨file, p⟩ (declareEnum ⟨file, p⟩ t outer) := by
  unfold declareEnum
  generalize typeName t = named
  obtain ⟨name, nameSpan⟩ := named
  refine .bind .get fun _ => ?_
  cases Enumeration.list? t with
  | none => exact .bind (.add ⟨rfl, rfl, nofun⟩ rfl nofun) fun _ => .pure none
  | some list =>
    refine OpensWith.add ⟨⟨rfl, rfl, nofun⟩, nofun, nofun, fun _ hk => absurd rfl hk,
      fun _ _ hs => absurd hs List.not_mem_nil⟩ (fun id scope => .nil ?_) rfl nofun
    refine .bind (.forM fun e _ => ?_) fun _ => .pure _
    split
    · exact .discard (.add ⟨rfl, rfl, nofun⟩ rfl nofun)
    · exact .pure ()

theorem enterNamespaces_steps (span : Span) (isInline : Bool) (names : List (String × Span))
    {f : Place → Declaring α} (hf : ∀ scope, Steps root ⟨file, scope⟩ (f ⟨file, scope⟩)) :
    Steps root ⟨file, p⟩ (enterNamespaces span isInline names ⟨file, p⟩ >>= f) where
  step s ht hp := by
    rw [StateT.run_bind, enterNamespaces_run]
    have hopened : SymbolTable.Step root file s.table _ := .openBlocks ht hp span isInline names
    exact hopened.trans ((hf _).step ⟨_, s.access⟩ (hopened.frame.namesNamespaces ht)
      (hp.openBlocks span isInline names))

/-- What the walk through a tree comes to. -/
def Visit.IsIn (root : Tree) : Visit → Prop
  | item t params outer => t ∈ root.preorder ∧ outer ∈ root.preorder ∧ outer.Under t params
  | statement t => t ∈ root.preorder ∧ (t.kind = .param → ∃ u ∈ root.preorder, u.Takes t)

variable {go : Place → Visit → Declaring Unit}
  (hgo : ∀ scope v, v.IsIn root → Steps root ⟨file, scope⟩ (go ⟨file, scope⟩ v))

include hgo

theorem items_steps (ht : t ∈ root.preorder) :
    Steps root ⟨file, p⟩ (t.items.forM fun item => go ⟨file, p⟩ (.ofItem item)) := by
  refine .forM fun u hu => hgo p _ ?_
  have hu := Tree.mem_preorder_trans ht (Tree.mem_preorder_of_mem_parts (List.mem_filter.mp hu).1)
  exact ⟨hu, hu, .refl⟩

theorem statements_steps (ht : t ∈ root.preorder) (hk : t.kind ≠ .paramList) :
    Steps root ⟨file, p⟩ (t.children.forM fun s => go ⟨file, p⟩ (.statement s)) := by
  refine .forM fun u hu => hgo p _ ⟨?_, fun hu' => ⟨t, ht, .alone hk hu hu'⟩⟩
  exact Tree.mem_preorder_trans ht (Tree.mem_preorder_of_mem_parts (List.mem_filter.mp hu).1)

theorem declareClass_steps (houter : outer ∈ root.preorder) (ht : t ∈ root.preorder)
    (hunder : outer.Under t params) (hk : t.kind = .simpleDecl)
    (hspecs : t.specifiers? = some specs) (hc : specs.child? .classSpec = some c) :
    Steps root ⟨file, p⟩ (declareClass go ⟨file, p⟩ c params outer) := by
  have hcr := mem_of_child? (mem_of_child? ht hspecs) hc
  have hnames : ∀ name ∈ outer.templateEntries.map (·.2.1), name ∈ params := by
    obtain ⟨inner, rfl⟩ := hunder.begins (hk ▸ nofun)
    exact fun name hname => List.mem_append_left inner hname
  unfold declareClass
  generalize typeName c = named
  obtain ⟨name, nameSpan⟩ := named
  obtain ⟨kind, hkind, hclass⟩ : ∃ kind, SymbolKind.ofKey
      (if Class.key c == .enumKw then none else some (Class.key c)) = kind ∧
        kind.isClass = true := by
    refine ⟨_, rfl, ?_⟩
    unfold SymbolKind.ofKey
    split <;> simp_all [SymbolKind.isClass]
  have hplain : kind ≠ .parameter ∧ kind ≠ .templateParam := by
    constructor <;> rintro rfl <;> cases hclass
  dsimp only
  rw [hkind]
  refine .bind .get fun _ => ?_
  cases hlist : Class.members? c with
  | none =>
    exact .bind (.add ⟨rfl, rfl, fun hk => absurd hk hplain.1⟩ rfl hplain.2) fun _ => .pure none
  | some list =>
    refine OpensWith.add ⟨⟨rfl, rfl, fun hk => absurd hk hplain.1⟩, hplain.1, nofun,
      fun scope _ => ?_, fun scope s hs => templateSymbols_heads hs⟩
      (fun id scope => .thenPure (.withAccess _ (.andThen
        (declareTemplateParameters_run ⟨file, scope⟩ params outer)
        (items_steps hgo (mem_of_child? hcr hlist)))) _) rfl hplain.2
    rw [templateSymbols_entries hnames]
    exact .cls houter rfl hunder hclass hk hspecs hc hlist

theorem declareSimple_steps (houter : outer ∈ root.preorder) (ht : t ∈ root.preorder)
    (hunder : outer.Under t params) (hk : t.kind = .simpleDecl) :
    Steps root ⟨file, p⟩ (declareSimple go ⟨file, p⟩ t params outer) := by
  unfold declareSimple
  split
  · exact .pure ()
  · rename_i specs hspecs
    have hrest (target : Option SymbolId) : Steps root ⟨file, p⟩
        (((t.childrenOf .initDeclarator).filterMap Tree.declarator?).forM
          (declareDeclarator ⟨file, p⟩ specs target params outer)) :=
      .forM fun d _ => declareDeclarator_steps ..
    dsimp only
    split
    · rename_i c _ _ hc
      exact .bind (declareClass_steps hgo houter ht hunder hk hspecs hc) hrest
    · exact .bind (declareEnum_steps ..) hrest
    · exact .ite (.bind (declareForward_steps ..) fun _ => .bind (.pure none) hrest)
        (.bind (.pure none) hrest)
    · exact .bind (.pure none) hrest

/-- A symbol without a body tells what it is declared with. -/
structure Tells (outer : Tree) (params : List String) (s : Symbol) : Prop where
  scope : s.scope = none
  declSpan : s.declSpan = outer.span
  templateParams : s.templateParams = params

/-- What the definition of a function begins with: its parameters, behind those of a template. -/
def functionHeads (d outer : Tree) (params : List String) (p : Place) : List Symbol :=
  templateSymbols p params outer ++
    (((Declarator.parameters? d).map Parameters.list).getD []).filterMap (parameterSymbol p)

omit hgo in
theorem functionHeads_entries (hnames : ∀ name ∈ outer.templateEntries.map (·.2.1), name ∈ params)
    (d : Tree) (p : Place) : (functionHeads d outer params p).map Symbol.entry =
      outer.templateEntries ++ ((Declarator.parameters? d).map Tree.parameterEntries).getD [] := by
  rw [functionHeads, List.map_append, templateSymbols_entries hnames]
  cases Declarator.parameters? d with
  | none => rfl
  | some list => exact congrArg _ (parameterSymbols_entries p list)

omit hgo in
theorem functionHeads_heads (ht : t ∈ root.preorder) (hk : t.kind = .functionDef)
    (hd : t.declarator? = some d) {p : Place} (hs : s ∈ functionHeads d outer params p) :
    Heads root p s := by
  rcases List.mem_append.mp hs with hs | hs
  · exact templateSymbols_heads hs
  · obtain ⟨param, hparam, hs⟩ := List.mem_filterMap.mp hs
    cases hlist : Declarator.parameters? d with
    | none =>
      rw [hlist] at hparam
      cases hparam
    | some list =>
      rw [hlist] at hparam
      exact (parameterSymbol_heads ht (.function hk hd hlist hparam) hs).1

theorem functionBody_starts (ht : t ∈ root.preorder) (d : Tree) (params : List String)
    (outer : Tree) (scope : ScopeId) :
    StartsWith root ⟨file, scope⟩ (functionHeads d outer params ⟨file, scope⟩)
      (withAccess none do
        declareTemplateParameters ⟨file, scope⟩ params outer
        (((Declarator.parameters? d).map Parameters.list).getD []).forM
          (declareParameter ⟨file, scope⟩)
        (((t.child? .compoundStmt).map (·.children)).getD []).forM fun s =>
          go ⟨file, scope⟩ (.statement s)) := by
  have hbody : Steps root ⟨file, scope⟩ ((((t.child? .compoundStmt).map (·.children)).getD []).forM
      fun s => go ⟨file, scope⟩ (.statement s)) := by
    cases hbody : t.child? .compoundStmt with
    | none => exact .pure ()
    | some body =>
      have hk := (Tree.kind_of_isChild (Tree.isChild_of_child? hbody)).2
      exact statements_steps hgo (mem_of_child? ht hbody) (hk ▸ nofun)
  exact .withAccess none (.addAll (declareTemplateParameters_run ⟨file, scope⟩ params outer)
    (.andThen (forM_addAll (declareParameter_run ⟨file, scope⟩) _) hbody))

omit hgo in
theorem functionSymbol_tells (p : Place) (t d : Tree) (segment : Name.Segment) (qualified : Bool)
    (path : Option TypePath) (params : List String) (outer : Tree) (s : State) :
    Tells outer params
      ((functionSymbol p t d segment qualified path params outer).run s).1 := by
  have hbind {α : Type} {m : Declaring α} {f : α → Declaring Symbol}
      (hf : ∀ a s, Tells outer params ((f a).run s).1) (s : State) :
      Tells outer params ((m >>= f).run s).1 := hf _ _
  unfold functionSymbol
  refine hbind (fun inClass => hbind fun access s => ?_) s
  dsimp only
  split
  · split_ifs <;> exact ⟨rfl, rfl, rfl⟩
  · split_ifs <;> exact ⟨rfl, rfl, rfl⟩

theorem declareFunction_steps (houter : outer ∈ root.preorder) (ht : t ∈ root.preorder)
    (hunder : outer.Under t params) (hk : t.kind = .functionDef) :
    Steps root ⟨file, p⟩ (declareFunction go ⟨file, p⟩ t params outer) := by
  have hnames : ∀ name ∈ outer.templateEntries.map (·.2.1), name ∈ params := by
    obtain ⟨inner, rfl⟩ := hunder.begins (hk ▸ nofun)
    exact fun name hname => List.mem_append_left inner hname
  unfold declareFunction
  split
  · rename_i d _ hd _
    dsimp only
    split
    · exact .pure ()
    · rename_i name _ _ segment _
      have hsilent := functionSymbol_silent ⟨file, p⟩ t d segment
        (decide (1 < (Name.segments name).length)) (TypePath.ofName? name) params outer
      refine .read hsilent fun s => ?_
      have hdefines := functionSymbol_defines ⟨file, p⟩ t d segment
        (decide (1 < (Name.segments name).length)) (TypePath.ofName? name) params outer root s
      have htells := functionSymbol_tells ⟨file, p⟩ t d segment
        (decide (1 < (Name.segments name).length)) (TypePath.ofName? name) params outer s
      generalize ((functionSymbol _ _ _ _ _ _ _ _).run s).1 = symbol at *
      have hapart (k : SymbolKind) (hk : k.isFunction = false) : symbol.kind ≠ k := by
        rintro rfl
        exact Bool.false_ne_true (hk.symm.trans hdefines.isFunction)
      have hopens : OpensWith root file symbol .function
          (((Declarator.parameters? d).map fun ps => ⟨ps.span.start, t.span.stop⟩).getD t.span)
          fun scope => functionHeads d outer params ⟨file, scope⟩ := by
        refine ⟨⟨hdefines.inFile, htells.scope, fun hk => absurd hk (hapart _ rfl)⟩, hapart _ rfl,
          nofun, fun scope _ => ?_, fun scope s hs => functionHeads_heads ht hk hd hs⟩
        rw [functionHeads_entries hnames]
        exact .function houter htells.declSpan (htells.templateParams.symm ▸ hunder)
          hdefines.isFunction hk hd
      have hstarts (id : SymbolId) (scope : ScopeId) : StartsWith root ⟨file, scope⟩ _ _ :=
        functionBody_starts hgo ht d params outer scope
      split
      · exact hopens.addOutOfLine (p := ⟨file, p⟩) hstarts
      · exact hopens.add (p := ⟨file, p⟩) hstarts hdefines.parent (hapart _ rfl)
  · exact .pure ()

theorem declareNamespace_steps (ht : t ∈ root.preorder) :
    Steps root ⟨file, p⟩ (declareNamespace go ⟨file, p⟩ t) := by
  unfold declareNamespace
  split
  · exact .pure ()
  · rename_i body hbody
    exact enterNamespaces_steps _ _ _ fun scope => items_steps hgo (mem_of_child? ht hbody)

theorem declareItem_steps (houter : outer ∈ root.preorder) (ht : t ∈ root.preorder)
    (hunder : outer.Under t params) :
    Steps root ⟨file, p⟩ (declareItem go ⟨file, p⟩ t params outer) := by
  have hitem {item : Tree} (hitem : t.item? = some item) {params' : List String}
      (hunder : outer.Under item params') :
      Steps root ⟨file, p⟩ (go ⟨file, p⟩ (.item item params' outer)) := by
    refine hgo p _ ⟨Tree.mem_preorder_trans ht ?_, houter, hunder⟩
    exact Tree.mem_preorder_of_mem_parts (List.mem_of_find?_eq_some hitem)
  unfold declareItem
  split
  · exact declareNamespace_steps hgo ht
  · exact declareNamespaceAlias_steps t outer
  · rename_i hk
    split
    · rename_i body _ hbody
      exact items_steps hgo (mem_of_child? ht hbody)
    · rename_i item _ hi
      exact hitem hi (.linkage hunder hk hi)
    · exact .pure ()
  · split
    · exact .modifyScope (fun _ => rfl) fun _ => rfl
    · exact .pure ()
  · split
    · exact .modifyScope (fun _ => rfl) fun _ => rfl
    · exact .pure ()
  · exact declareAlias_steps t params outer
  · rename_i hk
    split
    · rename_i item hi
      exact hitem hi (.template hunder hk hi)
    · exact .pure ()
  · rename_i hk
    exact declareSimple_steps hgo houter ht hunder hk
  · rename_i hk
    exact declareFunction_steps hgo houter ht hunder hk
  · exact .modify fun _ => rfl
  · exact .pure ()

theorem declareStatement_steps (ht : t ∈ root.preorder)
    (htakes : t.kind = .param → ∃ u ∈ root.preorder, u.Takes t) :
    Steps root ⟨file, p⟩ (declareStatement go ⟨file, p⟩ t) := by
  have hblock (hk : t.kind ≠ .paramList) : Steps root ⟨file, p⟩ (do
      let inner ← Place.enter ⟨file, p⟩ .block none t.span
      t.children.forM fun s => go inner (.statement s)) :=
    .enterBlock t.span fun _ => statements_steps hgo ht hk
  have hitem : Steps root ⟨file, p⟩ (go ⟨file, p⟩ (.ofItem t)) := hgo p _ ⟨ht, ht, .refl⟩
  unfold declareStatement
  split
  case h_16 hk => exact statements_steps hgo ht (hk ▸ nofun)
  case h_17 hk =>
    obtain ⟨u, hu, htakes⟩ := htakes hk
    exact declareParameter_steps hu htakes
  case h_18 => exact .pure ()
  all_goals first | exact hitem | exact hblock (by simp_all)

omit hgo

/-- The walk through a file: one case for an item, one for a statement. -/
theorem visit_steps (n : Nat) (scope : ScopeId) (v : Visit) (hv : v.IsIn root) :
    Steps root ⟨file, scope⟩ (visit n ⟨file, scope⟩ v) := by
  induction n generalizing scope v with
  | zero => exact .pure ()
  | succ n ih =>
    cases v with
    | item t params outer => exact declareItem_steps ih hv.2.1 hv.1 hv.2.2
    | statement t => exact declareStatement_steps ih hv.1 hv.2

end Declare

namespace SymbolTable

variable {t t' : SymbolTable}

theorem declareFile_step (ht : t.NamesNamespaces) (file : FileId) (root : Tree) :
    Step root file t (t.declareFile file root) := by
  have hadd : Frame t t (t.addFile file root.span).2 :=
    .of_members (t.extends_addFile file root.span) rfl (fun _ _ => rfl)
      (t.members_addFile file root.span)
  have hwalk : Declare.Steps root ⟨file, t.scopes.size⟩ _ :=
    Declare.items_steps (Declare.visit_steps (2 * root.depth)) root.self_mem_preorder
  exact (Step.of_frame hadd rfl).trans (hwalk.step ⟨_, none⟩ (hadd.namesNamespaces ht)
    (t.isIn_addFile file root.span))

/-- Each symbol that files declare has a property in the tree of its file. -/
def AllIn (P : Tree → FileId → SymbolTable → SymbolId → Prop) (trees : FileId → Option Tree)
    (t : SymbolTable) : Prop :=
  ∀ i ∈ t.declared, ∃ root, trees (t.symbol i).file = some root ∧ P root (t.symbol i).file t i

/-- A property that a file gives to its symbols, and that they keep while the table grows. -/
structure Lasting (P : Tree → FileId → SymbolTable → SymbolId → Prop) : Prop where
  file {root : Tree} {id : FileId} {t : SymbolTable} {i : SymbolId} :
    P root id t i → (t.symbol i).file = id
  frame {root : Tree} {id : FileId} {t t' : SymbolTable} {i : SymbolId} :
    P root id t i → i < t.symbols.size → Frame t t t' → P root id t' i
  declareFile {t : SymbolTable} (ht : t.NamesNamespaces) (id : FileId) (root : Tree)
    (i : SymbolId) : t.symbols.size ≤ i → i < (t.declareFile id root).symbols.size →
      P root id (t.declareFile id root) i

variable {P : Tree → FileId → SymbolTable → SymbolId → Prop}

theorem Lasting.allIn (hP : Lasting P) {trees : FileId → Option Tree} (h : AllIn P trees t)
    (hf : Frame t t t') (hnew : ∀ i, t.symbols.size ≤ i → i < t'.symbols.size →
      ∃ id root, trees id = some root ∧ P root id t' i) : AllIn P trees t' := by
  intro i hi
  obtain ⟨hpos, hlt⟩ := t'.mem_declared.mp hi
  rcases Nat.lt_or_ge i t.symbols.size with hold | hge
  · obtain ⟨root, hroot, hin⟩ := h i (t.mem_declared.mpr ⟨hpos, hold⟩)
    have hin := hP.frame hin hold hf
    rw [hP.file hin]
    exact ⟨root, hroot, hin⟩
  · obtain ⟨id, root, hroot, hin⟩ := hnew i hge hlt
    rw [hP.file hin]
    exact ⟨root, hroot, hin⟩

theorem Lasting.unlinked (hP : Lasting P) (files : List SourceFile) (graph : IncludeGraph) :
    AllIn P (fun id => (files[id]?).map (·.tree)) (Snapshot.unlinked files graph) := by
  let Holds (t : SymbolTable) : Prop :=
    t.NamesNamespaces ∧ AllIn P (fun id => (files[id]?).map (·.tree)) t
  suffices hall : Holds (Snapshot.unlinked files graph) from hall.2
  refine List.foldlRecOn (motive := Holds) _ _ ?_ fun t ⟨ht, h⟩ id _ => ?_
  · refine List.foldlRecOn (motive := Holds) _ _ ⟨nofun, fun i hi => ?_⟩ fun t ⟨ht, h⟩ x hx => ?_
    · obtain ⟨hpos, hlt⟩ := (mem_declared _).mp hi
      exact absurd hlt (Nat.not_lt.mpr hpos)
    · have hframe := (declareFile_step ht x.2 x.1.tree).frame
      refine ⟨hframe.namesNamespaces ht, hP.allIn h hframe fun i hge hlt =>
        ⟨x.2, x.1.tree, ?_, hP.declareFile ht _ _ i hge hlt⟩⟩
      rw [List.mem_zipIdx_iff_getElem?.mp hx]
      rfl
  · have hframe (seen : List FileId) : Frame t t (t.setVisible id seen) :=
      .of_members (extends_setVisible ..) rfl (fun _ _ => rfl) fun _ => rfl
    exact ⟨(hframe _).namesNamespaces ht, hP.allIn h (hframe _) fun i hge hlt =>
      absurd hlt (Nat.not_lt.mpr hge)⟩

theorem Lasting.symbols (hP : Lasting P) (searchPaths : List Path) (headers : List Header)
    (documents : PathMap Document) :
    let s := Snapshot.ofDocuments searchPaths headers documents
    AllIn P (fun id => (s.file? id).map (·.tree)) s.symbols := by
  have hlinked := (unlinkedSymbols_sound searchPaths documents).1.linked
  simp only [Snapshot.file?_ofDocuments]
  refine hP.allIn (hP.unlinked _ _) hlinked.frame fun i hge hlt => ?_
  exact absurd hlt (Nat.not_lt.mpr (hlinked.symbols ▸ hge))

/-- The symbols that files declare are settled in the trees of their files. -/
def AllSettled (trees : FileId → Option Tree) (t : SymbolTable) : Prop :=
  ∀ i ∈ t.declared, ∃ root, trees (t.symbol i).file = some root ∧
    Settled root (t.symbol i).file t i

theorem settled_lasting : Lasting Settled where
  file h := h.file
  frame h := h.frame
  declareFile ht id root := (declareFile_step ht id root).settled

end SymbolTable

open SymbolTable in
/-- The symbols of documents are settled in the trees of the documents. -/
theorem symbols_settled (searchPaths : List Path) (headers : List Header)
    (documents : PathMap Document) :
    let s := Snapshot.ofDocuments searchPaths headers documents
    AllSettled (fun id => (s.file? id).map (·.tree)) s.symbols :=
  settled_lasting.symbols searchPaths headers documents

section

variable (searchPaths : List Path) (headers : List Header) (documents : PathMap Document)

/-- The template parameters that the scope of a class or a function declares are those of the
outermost template around the definition, with which the parameters of the symbol begin. -/
theorem template_parameters_begin :
    let s := Snapshot.ofDocuments searchPaths headers documents
    ∀ i ∈ s.symbols.declared, ∀ b, (s.symbols.symbol i).scope = some b →
      (s.symbols.symbol i).kind ≠ .enumKind →
      ∃ f outer inner, s.file? (s.symbols.symbol i).file = some f ∧ outer ∈ f.tree.preorder ∧
        (s.symbols.symbol i).declSpan = outer.span ∧
        (s.symbols.symbol i).templateParams = outer.templateEntries.map (·.2.1) ++ inner ∧
        (s.symbols.entriesOf b).filter (·.1 == .templateParam) = outer.templateEntries := by
  intro s i hi b hb hk
  obtain ⟨root, hroot, hsettled⟩ := symbols_settled searchPaths headers documents i hi
  obtain ⟨f, hf, rfl⟩ := Option.map_eq_some_iff.mp hroot
  obtain ⟨body, hopens, hbegins⟩ := hsettled.body b hb hk
  have hentries := hbegins.templateParameters
  cases hopens with
  | cls houter hspan hunder _ hk =>
    obtain ⟨inner, hinner⟩ := hunder.begins (hk ▸ nofun)
    rw [Tree.filter_templateEntries] at hentries
    exact ⟨f, _, inner, hf, houter, hspan, hinner, hentries⟩
  | function houter hspan hunder _ hk hd =>
    obtain ⟨inner, hinner⟩ := hunder.begins (hk ▸ nofun)
    refine ⟨f, _, inner, hf, houter, hspan, hinner, hentries.trans ?_⟩
    rw [List.filter_append, Tree.filter_templateEntries, List.append_right_eq_self]
    cases Declarator.parameters? _ with
    | none => rfl
    | some list => exact list.filter_parameterEntries

/-- Of two templates around a function, only the parameters of the outer one are found in its
body. -/
theorem inner_template_missing :
    let text := "template <class T>\ntemplate <class U>\nvoid f(T t, U u) \x7b U v; \x7d\n"
    let t := (Snapshot.ofDocuments [] [] ⟨[(.ofString "/a.cpp", ⟨text, 0⟩)]⟩).symbols
    (t.symbol 1).kind = .function ∧ (t.symbol 1).templateParams = ["T", "U"] ∧
      (t.symbol 1).scope = some 1 ∧
      (t.entriesOf 1).filter (·.1 == .templateParam) = [(.templateParam, "T", ⟨16, 17⟩)] ∧
      t.siteAt? 0 59 = some ⟨0, 1, 59⟩ ∧ t.lookup ⟨⟨0, 1, 59⟩, .any, []⟩ "T" = [2] ∧
      t.lookup ⟨⟨0, 1, 59⟩, .any, []⟩ "U" = [] := by
  decide +kernel

/-- The scope of a function reaches from its parameters to the end of its definition and declares
each of them that has a name. Every other parameter stands alone: the list of a `catch` is not
looked at. -/
theorem function_parameters_begin :
    let s := Snapshot.ofDocuments searchPaths headers documents
    (∀ i ∈ s.symbols.declared, ∀ b, (s.symbols.symbol i).scope = some b →
      (s.symbols.symbol i).kind.isFunction = true →
      ∃ f t d, s.file? (s.symbols.symbol i).file = some f ∧ t ∈ f.tree.preorder ∧
        t.kind = .functionDef ∧ t.declarator? = some d ∧
        ∀ list, Declarator.parameters? d = some list →
          (s.symbols.scope b).span = ⟨list.span.start, t.span.stop⟩ ∧
          list.parameterEntries ⊆ s.symbols.entriesOf b) ∧
    ∀ i ∈ s.symbols.declared, (s.symbols.symbol i).kind = .parameter →
      ∃ f, s.file? (s.symbols.symbol i).file = some f ∧ (s.symbols.symbol i).TakenIn f.tree := by
  intro s
  refine ⟨fun i hi b hb hk => ?_, fun i hi hk => ?_⟩
  · obtain ⟨root, hroot, hsettled⟩ := symbols_settled searchPaths headers documents i hi
    obtain ⟨f, hf, rfl⟩ := Option.map_eq_some_iff.mp hroot
    have hapart := SymbolKind.isFunction_apart hk
    obtain ⟨body, hopens, hbegins⟩ := hsettled.body b hb (beq_eq_false_iff_ne.mp hapart.2.1)
    cases hopens with
    | cls _ _ _ hclass => exact absurd (hclass.symm.trans hapart.1) nofun
    | function houter _ hunder _ hkind hd =>
      refine ⟨f, _, _, hf, Tree.mem_preorder_trans houter hunder.mem_preorder, hkind, hd,
        fun list hlist => ?_⟩
      have hspan := hbegins.span
      have hentries := hbegins.entries
      rw [hlist] at hspan hentries
      exact ⟨hspan, fun e he => hentries (List.mem_append_right _ he)⟩
  · obtain ⟨root, hroot, hsettled⟩ := symbols_settled searchPaths headers documents i hi
    obtain ⟨f, hf, rfl⟩ := Option.map_eq_some_iff.mp hroot
    exact ⟨f, hf, hsettled.taken hk⟩

/-- What a `catch` catches is not declared, though its clause is a scope. -/
theorem caught_missing :
    let text := "void f()\n\x7b\n    try \x7b\n    \x7d catch (int e) \x7b\n        e = 1;\n" ++
      "    \x7d\n\x7d\n"
    let s := Snapshot.ofDocuments [] [] ⟨[(.ofString "/a.cpp", ⟨text, 0⟩)]⟩
    ((s.file? 0).map fun f => (f.tree.preorder.filter (·.kind == .catchClause)).map fun clause =>
        (clause.child? .paramList).map Tree.parameterEntries) =
      some [some [(.parameter, "e", ⟨38, 39⟩)]] ∧
    (∀ i ∈ s.symbols.declared, (s.symbols.symbol i).kind ≠ .parameter) ∧
      s.symbols.siteAt? 0 51 = some ⟨0, 5, 51⟩ ∧
      s.symbols.lookup ⟨⟨0, 5, 51⟩, .any, []⟩ "e" = [] := by
  decide +kernel

end

end CppRefactor
