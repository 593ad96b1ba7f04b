import CppRefactor.Project.Snapshot
import CppRefactor.Proofs.Symbols.Blocks
import CppRefactor.Proofs.Symbols.Naming

/-!
What holds of every symbol table that is built from documents. A table is built by a few operations;
a property that each of them keeps is kept by declaring a file and by linking, whatever the file is.
What is added for a file is declared in its tree.
-/

namespace CppRefactor

/-- In a parameter or a declaration, specifiers and a declarator that declare a variable. -/
inductive Tree.Declares : Tree → Tree → Tree → Prop
  | parameter {t : Tree} (hk : t.kind = .param) (hspecs : t.specifiers? = some specs)
    (hd : t.declarator? = some d) : Declares t specs d
  | simple {t : Tree} (hk : t.kind = .simpleDecl) (hspecs : t.specifiers? = some specs)
    (hinit : init ∈ t.childrenOf .initDeclarator) (hd : init.declarator? = some d) :
    Declares t specs d

def SymbolKind.IsVariable (k : SymbolKind) : Prop := k = .variableKind ∨ k = .parameter

/-- Symbols of this kind may have a body. -/
def SymbolKind.mayDefine (k : SymbolKind) : Bool :=
  k.isClass || k == .enumKind || k.isFunction || k == .namespaceKind

theorem SymbolKind.ofKey_not_isVariable (key : Option Kind) : ¬ (ofKey key).IsVariable := by
  unfold ofKey
  split <;> nofun

theorem SymbolKind.ofKey_ne (key : Option Kind) : ofKey key ≠ .namespaceKind := by
  unfold ofKey
  split <;> nofun

theorem SymbolKind.ofKey_mayDefine (key : Option Kind) : (ofKey key).mayDefine = true := by
  unfold ofKey
  split <;> rfl

namespace Symbol

/-- Specifiers and a declarator give a symbol its name and its type. -/
def DeclaredBy (s : Symbol) (specs d : Tree) : Prop :=
  (∃ segment, (Declarator.name? d).bind Name.last? = some segment ∧ s.name = segment.text ∧
    s.nameSpan = segment.span) ∧
  ∃ p target, s.type = some (Declare.typeRef p specs (some d) target)

/-- A symbol of a file; if it is a variable that has a type, the tree declares it. -/
structure DeclaredIn (s : Symbol) (file : FileId) (root : Tree) : Prop where
  inFile : s.file = file
  declared : s.kind.IsVariable → s.type.isSome → ∃ t specs d, t ∈ root.preorder ∧
    t.Declares specs d ∧ s.DeclaredBy specs d

/-- A symbol that is declared in a scope of a file, and no namespace. If it has a body, it is of a
kind that may have one. -/
structure DeclaredAt (s : Symbol) (p : Declare.Place) (root : Tree) : Prop
    extends DeclaredIn s p.file root where
  parent : s.parent = some p.scope
  plain : s.isNamespace = false
  defines : s.flags.isDefinition = true → s.kind.mayDefine = true

theorem DeclaredAt.ite {c : Prop} [Decidable c] {s s' : Symbol} {p : Declare.Place} {root : Tree}
    (h : s.DeclaredAt p root) (h' : s'.DeclaredAt p root) :
    (if c then s else s').DeclaredAt p root := by
  split
  · exact h
  · exact h'

/-- The definition of a function that is declared in a scope. -/
structure DefinesFunction (s : Symbol) (p : Declare.Place) (root : Tree) : Prop
    extends DeclaredAt s p root where
  isFunction : s.kind.isFunction = true
  isDefinition : s.flags.isDefinition = true

end Symbol

/-- A property of symbol tables that is kept by all that is done to them to declare a file. -/
structure FileInvariant (file : FileId) (root : Tree) (P : SymbolTable → Prop) : Prop where
  addScope {t : SymbolTable} {p : ScopeId} (hp : t.IsIn file p) {kind : ScopeKind}
    (hfile : kind ≠ .file) (hk : kind ≠ .namespaceBlock) (owner : Option SymbolId) (span : Span) :
    P t → P (t.addScope kind p owner span).2
  add {t : SymbolTable} {p : ScopeId} (hp : t.IsIn file p) {s : Symbol}
    (hs : s.DeclaredAt ⟨file, p⟩ root) : P t → P (t.add s).2
  addOutOfLine {t : SymbolTable} {p : ScopeId} (hp : t.IsIn file p) {s : Symbol}
    (hs : s.DefinesFunction ⟨file, p⟩ root) : P t → P (t.addOutOfLine s).2
  openBlocks {t : SymbolTable} {p : ScopeId} (hp : t.IsIn file p) {d body : Tree}
    (hd : d ∈ root.preorder) (hk : d.kind = .namespaceDef)
    (hbody : d.child? .declList = some body) : P t →
    P (t.openBlocks body.span (d.hasToken .inlineKw) (Declare.namespaceNames d) p).2
  addUsing (id : ScopeId) (d : UsingDirective) :
    P t → P (t.modifyScope id fun s => { s with usings := s.usings ++ [d] })
  addUsingDeclaration (id : ScopeId) (path : TypePath) (offset : Nat) :
    P t → P (t.modifyScope id fun s =>
      { s with usingDeclarations := s.usingDeclarations ++ [⟨path.last.name, path, offset⟩] })

/-- A property of symbol tables that is kept by all that is done to them once their files are
there. -/
structure GrowthInvariant (P : SymbolTable → Prop) : Prop where
  addScope {kind : ScopeKind} (hfile : kind ≠ .file) (parent : ScopeId) (owner : Option SymbolId)
    (span : Span) : P t → P (t.addScope kind parent owner span).2
  addDetached (s : Symbol) : P t → P (t.addDetached s).2
  add (s : Symbol) : P t → P (t.add s).2
  declareNamespace (name : String) (block : ScopeId) (span : Span) :
    P t → P (t.declareNamespace name block span).2
  putOutOfLine (id : SymbolId) : P t → P { t with outOfLine := t.outOfLine ++ [id] }
  addUsing (id : ScopeId) (d : UsingDirective) :
    P t → P (t.modifyScope id fun s => { s with usings := s.usings ++ [d] })
  addUsingDeclaration (id : ScopeId) (path : TypePath) (offset : Nat) :
    P t → P (t.modifyScope id fun s =>
      { s with usingDeclarations := s.usingDeclarations ++ [⟨path.last.name, path, offset⟩] })
  setContext (id cls : ScopeId) :
    P t → P (t.modifyScope id fun s => { s with classContext := some cls })
  setFlags (id : SymbolId) (f : SymbolFlags → SymbolFlags) :
    P t → P (t.modifySymbol id fun s => { s with flags := f s.flags })
  setKind (id : SymbolId) (kind : SymbolKind) :
    P t → P (t.modifySymbol id fun s => { s with kind })
  link (declaration definition : SymbolId) : P t → P (t.link declaration definition)

/-- A property of symbol tables that all operations on them keep. -/
structure TableInvariant (P : SymbolTable → Prop) : Prop extends GrowthInvariant P where
  addFile (file : FileId) (span : Span) : P t → P (t.addFile file span).2
  setVisible (file : FileId) (files : List FileId) : P t → P (t.setVisible file files)

namespace Declare

/-- Declaring something only reads the table. -/
def Silent (m : Declaring α) : Prop := ∀ s, (m.run s).2.table = s.table

namespace Silent

theorem pure (a : α) : Silent (Pure.pure a) := fun _ => rfl

theorem bind {m : Declaring α} {f : α → Declaring β} (hm : Silent m) (hf : ∀ a, Silent (f a)) :
    Silent (m >>= f) :=
  fun s => (hf _ _).trans (hm s)

theorem ite {c : Prop} [Decidable c] {m n : Declaring α} (hm : Silent m) (hn : Silent n) :
    Silent (if c then m else n) := by
  split
  · exact hm
  · exact hn

theorem get : Silent (MonadState.get : Declaring State) := fun _ => rfl

theorem modify {f : State → State} (h : ∀ s, (f s).table = s.table) :
    Silent (modify f : Declaring PUnit) :=
  h

end Silent

theorem isClassBody_silent (p : Place) : Silent p.isClassBody := .bind .get fun _ => .pure _

theorem memberAccess_silent (p : Place) : Silent p.memberAccess :=
  .bind (isClassBody_silent p) fun _ => .ite (.bind .get fun _ => .pure _) (.pure _)

section

variable (p : Place) (t declarator : Tree) (segment : Name.Segment) (qualified : Bool)
  (path : Option TypePath) (params : List String) (outer : Tree)

theorem functionSymbol_silent :
    Silent (functionSymbol p t declarator segment qualified path params outer) := by
  refine .bind (isClassBody_silent p) fun _ => .bind (memberAccess_silent p) fun _ => ?_
  dsimp only
  split
  · split
    · exact .pure _
    · exact .pure _
  · split
    · exact .pure _
    · exact .pure _

theorem functionSymbol_defines (root : Tree) (s : State) :
    ((functionSymbol p t declarator segment qualified path params outer).run s).1.DefinesFunction
      p root := by
  have hbind {α : Type} {m : Declaring α} {f : α → Declaring Symbol}
      (hf : ∀ a s, ((f a).run s).1.DefinesFunction p root) (s : State) :
      ((m >>= f).run s).1.DefinesFunction p root := hf _ _
  unfold functionSymbol
  refine hbind (fun inClass => hbind fun access s => ?_) s
  dsimp only
  split
  · split_ifs <;> exact ⟨⟨⟨rfl, nofun⟩, rfl, rfl, fun _ => rfl⟩, rfl, rfl⟩
  · split_ifs <;> exact ⟨⟨⟨rfl, nofun⟩, rfl, rfl, fun _ => rfl⟩, rfl, rfl⟩

end

/-- Declaring something in a scope of a file keeps a property of the table, which only grows. -/
structure Keeps (P : SymbolTable → Prop) (p : Place) (m : Declaring α) : Prop where
  grows : ∀ s : State, s.table.Extends (m.run s).2.table
  table : ∀ s : State, s.table.IsIn p.file p.scope → P s.table → P (m.run s).2.table

variable {P : SymbolTable → Prop} {p : Place}

namespace Keeps

theorem silent {m : Declaring α} (hm : Silent m) : Keeps P p m where
  grows s := hm s ▸ .refl s.table
  table s _ h := (hm s).symm ▸ h

theorem pure (a : α) : Keeps P p (Pure.pure a) := silent (.pure a)

theorem bind {m : Declaring α} {f : α → Declaring β} (hm : Keeps P p m)
    (hf : ∀ a, Keeps P p (f a)) : Keeps P p (m >>= f) where
  grows s := (hm.grows s).trans ((hf _).grows _)
  table s hp h := (hf _).table _ (hp.mono (hm.grows s)) (hm.table s hp h)

theorem read {m : Declaring α} {f : α → Declaring β} (hm : Silent m)
    (hf : ∀ s, Keeps P p (f (m.run s).1)) : Keeps P p (m >>= f) where
  grows s := by
    have h := (hf s).grows (m.run s).2
    rw [hm s] at h
    exact h
  table s := by
    have h := (hf s).table (m.run s).2
    rw [hm s] at h
    exact h

theorem run {f : SymbolTable → α × SymbolTable} (hgrows : ∀ t : SymbolTable, t.Extends (f t).2)
    (h : ∀ t : SymbolTable, t.IsIn p.file p.scope → P t → P (f t).2) :
    Keeps P p (Declare.run f) :=
  ⟨fun s => hgrows s.table, fun s hp hs => h s.table hp hs⟩

theorem discard {m : Declaring α} (hm : Keeps P p m) : Keeps P p (discard m) :=
  ⟨hm.grows, hm.table⟩

theorem ite {c : Prop} [Decidable c] {m n : Declaring α} (hm : Keeps P p m) (hn : Keeps P p n) :
    Keeps P p (if c then m else n) := by
  split
  · exact hm
  · exact hn

theorem get : Keeps P p (MonadState.get : Declaring State) := silent .get

theorem modify {f : State → State} (h : ∀ s, (f s).table = s.table) :
    Keeps P p (modify f : Declaring PUnit) :=
  silent (.modify h)

theorem forM {f : α → Declaring PUnit} {as : List α} (h : ∀ a ∈ as, Keeps P p (f a)) :
    Keeps P p (as.forM f) := by
  induction as with
  | nil => exact pure ()
  | cons a as ih =>
    refine bind (h a List.mem_cons_self) fun _ => ih fun b hb => h b (List.mem_cons_of_mem a hb)

theorem withAccess (access : Option Access) {body : Declaring Unit} (h : Keeps P p body) :
    Keeps P p (withAccess access body) :=
  bind get fun _ => bind (modify fun _ => rfl) fun _ => bind h fun _ => modify fun _ => rfl

end Keeps

theorem functionSymbol_keeps (root t declarator : Tree) (segment : Name.Segment)
    (qualified : Bool) (path : Option TypePath) (params : List String) (outer : Tree)
    {f : Symbol → Declaring α} (hf : ∀ s : Symbol, s.DefinesFunction p root → Keeps P p (f s)) :
    Keeps P p (functionSymbol p t declarator segment qualified path params outer >>= f) :=
  .read (functionSymbol_silent p t declarator segment qualified path params outer) fun s =>
    hf _ (functionSymbol_defines p t declarator segment qualified path params outer root s)

variable {file : FileId} {root : Tree} (I : FileInvariant file root P) {p : ScopeId}

include I

theorem add_keeps {s : Symbol} (hs : s.DeclaredAt ⟨file, p⟩ root) : Keeps P ⟨file, p⟩ (add s) :=
  .run (fun t => t.extends_add s) fun _ hp => I.add hp hs

theorem addOutOfLine_keeps {s : Symbol} (hs : s.DefinesFunction ⟨file, p⟩ root)
    {f : SymbolId → Declaring α} (hf : ∀ i, Keeps P ⟨file, p⟩ (f i)) : Keeps P ⟨file, p⟩ (do
      let i ← run (·.addDetached s)
      change fun t => { t with outOfLine := t.outOfLine ++ [i] }
      f i) :=
  .bind (m := run (·.addOutOfLine s))
    (.run (fun t => t.extends_addOutOfLine s) fun _ hp => I.addOutOfLine hp hs) hf

theorem enter_keeps {kind : ScopeKind} (hfile : kind ≠ .file) (hk : kind ≠ .namespaceBlock)
    (owner : Option SymbolId)
    (span : Span) {f : Place → Declaring α}
    (hf : ∀ scope, Keeps P ⟨file, scope⟩ (f ⟨file, scope⟩)) :
    Keeps P ⟨file, p⟩ (Place.enter ⟨file, p⟩ kind owner span >>= f) where
  grows s := by
    rw [enter_run]
    exact (SymbolTable.extends_addScope ..).trans ((hf _).grows ⟨_, s.access⟩)
  table s hp h := by
    rw [enter_run]
    exact (hf _).table _ (hp.addScope ..) (I.addScope hp hfile hk owner span h)

theorem declareTemplateParameters_keeps (names : List String) (outer : Tree) :
    Keeps P ⟨file, p⟩ (declareTemplateParameters ⟨file, p⟩ names outer) := by
  refine .ite (.forM fun param _ => ?_) (.pure ())
  split
  · exact .ite (.discard (add_keeps I ⟨⟨rfl, nofun⟩, rfl, rfl, nofun⟩)) (.pure ())
  · exact .pure ()

theorem declareForward_keeps (elaborated : Tree) (params : List String) (outer : Tree) :
    Keeps P ⟨file, p⟩ (declareForward ⟨file, p⟩ elaborated params outer) := by
  have hkind (hv : (SymbolKind.ofKey elaborated.leadKind?).IsVariable) : False :=
    SymbolKind.ofKey_not_isVariable _ hv
  have hplain := beq_false_of_ne (SymbolKind.ofKey_ne elaborated.leadKind?)
  unfold declareForward
  split
  · exact .pure ()
  · refine .ite ?_ (.pure ())
    split
    · exact .pure ()
    · refine .bind .get fun _ => .discard (add_keeps I ?_)
      exact ⟨⟨rfl, fun hv => (hkind hv).elim⟩, rfl, hplain, nofun⟩

theorem declareEnum_keeps (t outer : Tree) : Keeps P ⟨file, p⟩ (declareEnum ⟨file, p⟩ t outer) := by
  unfold declareEnum
  refine .bind .get fun _ => .bind (add_keeps I ⟨⟨rfl, nofun⟩, rfl, rfl, fun _ => rfl⟩) fun _ => ?_
  split
  · exact .pure none
  · refine enter_keeps I (by decide) (by decide) _ _ fun inner =>
      .bind (.forM fun e _ => ?_) fun _ => .pure _
    split
    · exact .discard (add_keeps I ⟨⟨rfl, nofun⟩, rfl, rfl, nofun⟩)
    · exact .pure ()

theorem declareNamespaceAlias_keeps (t outer : Tree) :
    Keeps P ⟨file, p⟩ (declareNamespaceAlias ⟨file, p⟩ t outer) := by
  unfold declareNamespaceAlias
  split
  · exact .discard (add_keeps I ⟨⟨rfl, nofun⟩, rfl, rfl, nofun⟩)
  · exact .pure ()

theorem declareAlias_keeps (t : Tree) (params : List String) (outer : Tree) :
    Keeps P ⟨file, p⟩ (declareAlias ⟨file, p⟩ t params outer) := by
  unfold declareAlias
  split
  · exact .pure ()
  · exact .bind .get fun _ => .discard (add_keeps I ⟨⟨rfl, nofun⟩, rfl, rfl, nofun⟩)

theorem enterNamespaces_keeps {t body : Tree} (ht : t ∈ root.preorder)
    (hk : t.kind = .namespaceDef) (hbody : t.child? .declList = some body)
    {f : Place → Declaring α} (hf : ∀ scope, Keeps P ⟨file, scope⟩ (f ⟨file, scope⟩)) :
    Keeps P ⟨file, p⟩
      (enterNamespaces body.span (t.hasToken .inlineKw) (namespaceNames t) ⟨file, p⟩ >>= f) where
  grows s := by
    rw [StateT.run_bind, enterNamespaces_run]
    exact (SymbolTable.extends_openBlocks ..).trans ((hf _).grows ⟨_, s.access⟩)
  table s hp h := by
    rw [StateT.run_bind, enterNamespaces_run]
    exact (hf _).table _ (hp.openBlocks ..) (I.openBlocks hp ht hk hbody h)

theorem declareParameter_keeps {t : Tree} (ht : t ∈ root.preorder) (hk : t.kind = .param) :
    Keeps P ⟨file, p⟩ (declareParameter ⟨file, p⟩ t) := by
  unfold declareParameter
  split
  · exact .pure ()
  · rename_i segment hsegment
    obtain ⟨name, hname, hlast⟩ := Option.bind_eq_some_iff.mp hsegment
    obtain ⟨d, hd, hname⟩ := Option.bind_eq_some_iff.mp hname
    have hnamed : (Declarator.name? d).bind Name.last? = some segment :=
      Option.bind_eq_some_iff.mpr ⟨name, hname, hlast⟩
    refine .discard (add_keeps I ?_)
    split
    · rename_i specs hspecs
      rw [hd]
      exact ⟨⟨rfl, fun _ _ => ⟨t, specs, d, ht, .parameter hk hspecs hd,
        ⟨segment, hnamed, rfl, rfl⟩, ⟨file, p⟩, none, rfl⟩⟩, rfl, rfl, nofun⟩
    · exact ⟨⟨rfl, fun _ htype => nomatch htype⟩, rfl, rfl, nofun⟩

theorem declareDeclarator_keeps {t : Tree} (ht : t ∈ root.preorder)
    (hdeclares : t.Declares specs d) (target : Option SymbolId) (params : List String)
    (outer : Tree) :
    Keeps P ⟨file, p⟩ (declareDeclarator ⟨file, p⟩ specs target params outer d) := by
  unfold declareDeclarator
  split
  · rename_i segment hsegment
    refine .bind (.silent (isClassBody_silent _)) fun inClass =>
      .bind (.silent (memberAccess_silent _)) fun _ => ?_
    obtain ⟨name, hname, hsegments⟩ := Option.map_eq_some_iff.mp hsegment
    have hnamed : (Declarator.name? d).bind Name.last? = some segment := by
      rw [hname, Option.bind_some, Name.last?, hsegments]
      rfl
    refine .discard (add_keeps I (.ite ?_ ?_))
    all_goals
      refine ⟨⟨rfl, fun _ _ => ⟨t, specs, d, ht, hdeclares,
        ⟨segment, hnamed, rfl, rfl⟩, ⟨file, p⟩, target, rfl⟩⟩, rfl, ?_, nofun⟩
      split_ifs <;> rfl
  · exact .pure ()

omit I in
theorem mem_of_child? {t : Tree} (ht : t ∈ root.preorder) (hu : t.child? k = some u) :
    u ∈ root.preorder :=
  Tree.mem_preorder_trans ht (Tree.mem_preorder_of_mem_parts (Tree.mem_parts_of_child? hu))

/-- The tree that the walk comes to. -/
def Visit.tree : Visit → Tree
  | item t _ _ => t
  | statement t => t

variable {go : Place → Visit → Declaring Unit} {t : Tree}
  (hgo : ∀ scope v, v.tree ∈ root.preorder → Keeps P ⟨file, scope⟩ (go ⟨file, scope⟩ v))

include hgo

omit I in
theorem items_keeps (ht : t ∈ root.preorder) :
    Keeps P ⟨file, p⟩ (t.items.forM fun item => go ⟨file, p⟩ (.ofItem item)) :=
  .forM fun _ hu => hgo p _ <| Tree.mem_preorder_trans ht <|
    Tree.mem_preorder_of_mem_parts (List.mem_filter.mp hu).1

omit I in
theorem statements_keeps (ht : t ∈ root.preorder) :
    Keeps P ⟨file, p⟩ (t.children.forM fun s => go ⟨file, p⟩ (.statement s)) :=
  .forM fun _ hu => hgo p _ <| Tree.mem_preorder_trans ht <|
    Tree.mem_preorder_of_mem_parts (List.mem_filter.mp hu).1

theorem declareClass_keeps (ht : t ∈ root.preorder) (params : List String) (outer : Tree) :
    Keeps P ⟨file, p⟩ (declareClass go ⟨file, p⟩ t params outer) := by
  have hkind (key : Option Kind) (hv : (SymbolKind.ofKey key).IsVariable) : False :=
    SymbolKind.ofKey_not_isVariable key hv
  unfold declareClass
  refine .bind .get fun _ => .bind (add_keeps I ?_) fun _ => ?_
  · exact ⟨⟨rfl, fun hv => (hkind _ hv).elim⟩, rfl, beq_false_of_ne (SymbolKind.ofKey_ne _),
      fun _ => SymbolKind.ofKey_mayDefine _⟩
  · split
    · exact .pure none
    · rename_i list hlist
      refine enter_keeps I (by decide) (by decide) _ _ fun scope =>
        .bind (.withAccess _ ?_) fun _ => .pure _
      exact .bind (declareTemplateParameters_keeps I ..) fun _ =>
        items_keeps hgo (mem_of_child? ht hlist)

theorem declareSimple_keeps (ht : t ∈ root.preorder) (hk : t.kind = .simpleDecl)
    (params : List String) (outer : Tree) :
    Keeps P ⟨file, p⟩ (declareSimple go ⟨file, p⟩ t params outer) := by
  unfold declareSimple
  split
  · exact .pure ()
  · rename_i specs hspecs
    have hrest (target : Option SymbolId) : Keeps P ⟨file, p⟩
        (((t.childrenOf .initDeclarator).filterMap Tree.declarator?).forM
          (declareDeclarator ⟨file, p⟩ specs target params outer)) := by
      refine .forM fun d hd => ?_
      obtain ⟨init, hinit, hd⟩ := List.mem_filterMap.mp hd
      exact declareDeclarator_keeps I ht (.simple hk hspecs hinit hd) ..
    dsimp only
    split
    · rename_i c _ _ hc
      have hc := mem_of_child? (mem_of_child? ht hspecs) hc
      exact .bind (declareClass_keeps I hgo hc ..) hrest
    · exact .bind (declareEnum_keeps I ..) hrest
    · exact .ite (.bind (declareForward_keeps I ..) fun _ => .bind (.pure none) hrest)
        (.bind (.pure none) hrest)
    · exact .bind (.pure none) hrest

theorem functionScope_keeps (ht : t ∈ root.preorder) (hd : t.declarator? = some d)
    (params : List String) (outer : Tree) (id : SymbolId) (span : Span) :
    Keeps P ⟨file, p⟩ (do
      let inner ← Place.enter ⟨file, p⟩ .function (some id) span
      withAccess none do
        declareTemplateParameters inner params outer
        (((Declarator.parameters? d).map Parameters.list).getD []).forM (declareParameter inner)
        (((t.child? .compoundStmt).map (·.children)).getD []).forM fun s =>
          go inner (.statement s)) := by
  refine enter_keeps I (by decide) (by decide) _ _ fun scope => .withAccess none ?_
  refine .bind (declareTemplateParameters_keeps I ..) fun _ =>
    .bind ?_ fun _ => ?_
  · cases hlist : Declarator.parameters? d with
    | none => exact .pure ()
    | some list =>
      refine .forM fun u hu => ?_
      obtain ⟨hu, hk⟩ := Tree.isChild_of_childrenOf hu
      have hlist := mem_of_child? (mem_of_child? ht hd) hlist
      have hu := Tree.mem_preorder_trans hlist (Tree.mem_preorder_of_mem_parts hu)
      exact declareParameter_keeps I hu (Tree.kind_of_isChild hk).2
  · cases hbody : t.child? .compoundStmt with
    | none => exact .pure ()
    | some body => exact statements_keeps hgo (mem_of_child? ht hbody)

theorem declareFunction_keeps (ht : t ∈ root.preorder) (params : List String) (outer : Tree) :
    Keeps P ⟨file, p⟩ (declareFunction go ⟨file, p⟩ t params outer) := by
  unfold declareFunction
  split
  · rename_i d _ hd _
    dsimp only
    split
    · exact .pure ()
    · refine functionSymbol_keeps root t d _ _ _ params outer fun s hs => ?_
      have hscope (id : SymbolId) := functionScope_keeps (p := p) I hgo ht hd params outer id
      split
      · exact addOutOfLine_keeps I hs fun id => hscope id _
      · exact .bind (add_keeps I hs.toDeclaredAt) fun id => hscope id _
  · exact .pure ()

theorem declareNamespace_keeps (ht : t ∈ root.preorder) (hk : t.kind = .namespaceDef) :
    Keeps P ⟨file, p⟩ (declareNamespace go ⟨file, p⟩ t) := by
  unfold declareNamespace
  split
  · exact .pure ()
  · rename_i body hbody
    exact enterNamespaces_keeps I ht hk hbody fun scope =>
      items_keeps hgo (mem_of_child? ht hbody)

theorem declareItem_keeps (ht : t ∈ root.preorder) (params : List String) (outer : Tree) :
    Keeps P ⟨file, p⟩ (declareItem go ⟨file, p⟩ t params outer) := by
  have hitem {item : Tree} (hitem : t.item? = some item) (params' : List String) :
      Keeps P ⟨file, p⟩ (go ⟨file, p⟩ (.item item params' outer)) :=
    hgo p _ <| Tree.mem_preorder_trans ht <|
      Tree.mem_preorder_of_mem_parts (List.mem_of_find?_eq_some hitem)
  unfold declareItem
  split
  · rename_i hk
    exact declareNamespace_keeps I hgo ht hk
  · exact declareNamespaceAlias_keeps I t outer
  · split
    · rename_i body _ hbody
      exact items_keeps hgo (mem_of_child? ht hbody)
    · rename_i item _ hi
      exact hitem hi params
    · exact .pure ()
  · split
    · refine .run (SymbolTable.extends_modifyScope ?_ · p) fun _ _ => I.addUsing p _
      exact fun _ => rfl
    · exact .pure ()
  · split
    · refine .run (SymbolTable.extends_modifyScope ?_ · p) fun _ _ =>
        I.addUsingDeclaration p _ _
      exact fun _ => rfl
    · exact .pure ()
  · exact declareAlias_keeps I t params outer
  · split
    · rename_i item hi
      exact hitem hi _
    · exact .pure ()
  · rename_i hk
    exact declareSimple_keeps I hgo ht hk params outer
  · exact declareFunction_keeps I hgo ht params outer
  · exact .modify fun _ => rfl
  · exact .pure ()

theorem declareStatement_keeps (ht : t ∈ root.preorder) :
    Keeps P ⟨file, p⟩ (declareStatement go ⟨file, p⟩ t) := by
  have hblock : Keeps P ⟨file, p⟩ (do
      let inner ← Place.enter ⟨file, p⟩ .block none t.span
      t.children.forM fun s => go inner (.statement s)) :=
    enter_keeps I (by decide) (by decide) _ _ fun _ => statements_keeps hgo ht
  unfold declareStatement
  split
  case h_16 => exact statements_keeps hgo ht
  case h_17 hk => exact declareParameter_keeps I ht hk
  case h_18 => exact .pure ()
  all_goals first | exact hgo p _ ht | exact hblock

omit hgo

/-- The walk through a file: one case for an item, one for a statement. -/
theorem visit_keeps (n : Nat) (scope : ScopeId) (v : Visit) (hv : v.tree ∈ root.preorder) :
    Keeps P ⟨file, scope⟩ (visit n ⟨file, scope⟩ v) := by
  induction n generalizing scope v with
  | zero => exact .pure ()
  | succ n ih =>
    cases v with
    | item t params outer =>
      exact declareItem_keeps I ih hv params outer
    | statement t => exact declareStatement_keeps I ih hv

end Declare

theorem SymbolTable.isIn_addFile (t : SymbolTable) (file : FileId) (span : Span) :
    (t.addFile file span).2.IsIn file (t.addFile file span).1 := by
  refine ⟨Nat.lt_of_lt_of_eq (Nat.lt_succ_self _) (Array.size_push ..).symm, ?_⟩
  rw [scope_addFile]
  exact congrArg Scope.file (if_pos rfl)

theorem FileInvariant.declareFile {P : SymbolTable → Prop} {t : SymbolTable} {file : FileId}
    {root : Tree} (I : FileInvariant file root P) (h : P (t.addFile file root.span).2) :
    P (t.declareFile file root) := by
  have hwalk := Declare.items_keeps (p := t.scopes.size) (Declare.visit_keeps I (2 * root.depth))
    root.self_mem_preorder
  exact hwalk.table ⟨_, none⟩ (t.isIn_addFile file root.span) h

namespace GrowthInvariant

variable {P : SymbolTable → Prop} (I : GrowthInvariant P) {t : SymbolTable}

theorem foldl {f : SymbolTable → α → SymbolTable} (as : List α) (h : P t)
    (hf : ∀ t a, P t → P (f t a)) : P (as.foldl f t) := by
  induction as generalizing t with
  | nil => exact h
  | cons a as ih => exact ih (hf t a h)

include I

theorem openBlock (h : P t) (p : ScopeId) (name : String × Span) (isInline : Bool) (span : Span) :
    P (t.openBlock p name isInline span).2 := by
  have hdeclared := I.declareNamespace name.1 p name.2 h
  unfold SymbolTable.openBlock
  dsimp only
  refine I.addScope (by decide) _ _ _ ?_
  split
  · exact I.setFlags _ (fun flags => { flags with isInline := true }) hdeclared
  · exact hdeclared

theorem inFile (file : FileId) (root : Tree) : FileInvariant file root P where
  addScope _ _ hfile _ := I.addScope hfile _
  add _ _ _ := I.add _
  addOutOfLine _ _ _ h := I.putOutOfLine _ (I.addDetached _ h)
  openBlocks hp _ _ _ _ _ := SymbolTable.openBlocks_induction (P := P)
    (fun _ p name isInline _ h => I.openBlock h p name isInline _) _ hp
  addUsing := I.addUsing
  addUsingDeclaration := I.addUsingDeclaration

theorem declareFile {file : FileId} {root : Tree} (h : P (t.addFile file root.span).2) :
    P (t.declareFile file root) :=
  (I.inFile file root).declareFile h

theorem attach (h : P t) (b : SymbolTable.Belonging) : P (t.attach b) := by
  unfold SymbolTable.attach
  dsimp only
  split
  · split
    · exact I.setContext _ _ h
    · exact h
  · exact I.setKind _ _ h

theorem linkOne (h : P t) (b : SymbolTable.Belonging) : P (t.linkOne b) := by
  unfold SymbolTable.linkOne
  split
  · exact I.link _ _ h
  · exact h

theorem withLinks (h : P t) : P t.withLinks := by
  unfold SymbolTable.withLinks
  apply foldl
  · exact foldl _ h fun _ b ht => I.attach ht b
  · exact fun _ b ht => I.linkOne ht b

end GrowthInvariant

/-- The symbols of files before their definitions are linked. -/
def Snapshot.unlinked (files : List SourceFile) (graph : IncludeGraph) : SymbolTable :=
  (List.range files.length).foldl
    (fun (t : SymbolTable) id => t.setVisible id (graph.allIncludes id))
    (files.zipIdx.foldl (fun (t : SymbolTable) (f, id) => t.declareFile id f.tree) .empty)

theorem Snapshot.unlinked_induction {P : SymbolTable → Prop} {files : List SourceFile}
    (graph : IncludeGraph) (hempty : P .empty)
    (haddFile : ∀ (t : SymbolTable) file span, P t → P (t.addFile file span).2)
    (hfile : ∀ id f, files[id]? = some f → FileInvariant id f.tree P)
    (hvisible : ∀ (t : SymbolTable) file seen, P t → P (t.setVisible file seen)) :
    P (unlinked files graph) := by
  refine List.foldlRecOn _ _ ?_ fun t h id _ => hvisible t id _ h
  refine List.foldlRecOn _ _ hempty fun t h x hx => ?_
  exact (hfile x.2 x.1 (List.mem_zipIdx_iff_getElem?.mp hx)).declareFile (haddFile t _ _ h)

/-- A property that the empty table has and all operations keep is one of every table that is built
from files. -/
theorem TableInvariant.symbolsOf (I : TableInvariant P) (h : P .empty) (files : List SourceFile)
    (graph : IncludeGraph) : P (Snapshot.symbolsOf files graph) :=
  I.withLinks <| Snapshot.unlinked_induction graph h (fun _ => I.addFile)
    (fun id f _ => I.inFile id f.tree) fun _ => I.setVisible

end CppRefactor
