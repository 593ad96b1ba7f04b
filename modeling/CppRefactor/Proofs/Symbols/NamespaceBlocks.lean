import CppRefactor.Proofs.Symbols.Levels
import CppRefactor.Proofs.Symbols.Namespaces

/-!
Where the blocks of namespaces are written. A definition opens a block for each segment of its name,
one in the other, and no block is opened by anything else. The walk comes to every definition that
stands in a file, in another namespace or in a linkage specification.
-/

namespace CppRefactor

namespace SymbolTable

variable {t t' : SymbolTable}

/-- Blocks of one span, one in the other, each of a namespace that has one of the names. -/
inductive Opens (t : SymbolTable) (span : Span) : ScopeId → List String → List ScopeId → Prop
  | nil (p : ScopeId) : Opens t span p [] []
  | cons (hb : t.IsBlock b p ns) (hspan : (t.scope b).span = span) (hlt : ns < t.symbols.size)
    (hname : (t.symbol ns).name = name) (hrest : Opens t span b names bs) :
    Opens t span p (name :: names) (b :: bs)

/-- A definition of namespaces in a tree opens the block for a segment of its name, and others for
the other segments. -/
inductive OpenedIn (t : SymbolTable) (root : Tree) (b : ScopeId) : Prop
  | intro (hd : d ∈ root.preorder) (hk : d.kind = .namespaceDef)
    (hbody : d.child? .declList = some body)
    (hopens : t.Opens body.span p ((Declare.namespaceNames d).map (·.1)) bs) (hb : b ∈ bs)

theorem Opens.mono {span : Span} (h : t.Opens span p names bs) (ht : t.Extends t') :
    t'.Opens span p names bs := by
  induction h with
  | nil p => exact .nil p
  | @cons b p ns name names bs hb hspan hlt hname _ ih =>
    have hcore := Scope.core_inj (ht.scope b (t.lt_size_of_block hb.kind))
    refine .cons (hb.mono ht) (hcore.2.2.2.2.trans hspan) ?_ ?_ ih
    · exact Nat.lt_of_lt_of_le hlt ht.symbols
    · exact (Symbol.core_name (ht.symbol ns hlt)).trans hname

theorem OpenedIn.mono (h : t.OpenedIn root b) (ht : t.Extends t') : t'.OpenedIn root b := by
  obtain ⟨hd, hk, hbody, hopens, hb⟩ := h
  exact ⟨hd, hk, hbody, hopens.mono ht, hb⟩

/-- All scopes that are new are blocks of the names, and the last of them is entered. -/
theorem Spaced.openBlocks (h : t.Spaced) (hp : t.IsIn file p) (span : Span) (isInline : Bool)
    (names : List (String × Span)) :
    let (inner, t') := t.openBlocks span isInline names p
    t'.Spaced ∧ ∃ bs, t'.Opens span p (names.map (·.1)) bs ∧ bs.getLastD p = inner ∧
      (∀ b ∈ bs, t'.IsIn file b) ∧ ∀ b < t'.scopes.size, b < t.scopes.size ∨ b ∈ bs := by
  induction names generalizing t p with
  | nil => exact ⟨h, [], .nil p, rfl, nofun, fun b hb => .inl hb⟩
  | cons name names ih =>
    have hin := hp.openBlock name (names.isEmpty && isInline) span
    obtain ⟨hspaced, ns, hblock, hspan, hns⟩ :=
      h.openBlock hp.lt name (names.isEmpty && isInline) span
    have hsize := t.size_scopes_openBlock p name (names.isEmpty && isInline) span
    have hlt := hspaced.lt_size hns.listed
    rw [openBlock_fst] at hin
    rw [SymbolTable.openBlocks]
    dsimp only
    rw [openBlock_fst]
    generalize (t.openBlock p name (names.isEmpty && isInline) span).2 = t₁ at *
    have ht := t₁.extends_openBlocks span isInline names t.scopes.size
    obtain ⟨hspaced', bs, hopens, hlast, hbs, hall⟩ := ih hspaced hin
    refine ⟨hspaced', t.scopes.size :: bs, .cons (hblock.mono ht) ?_ ?_ ?_ hopens, ?_, ?_, ?_⟩
    · exact (Scope.core_inj (ht.scope _ hin.lt)).2.2.2.2.trans hspan
    · exact Nat.lt_of_lt_of_le hlt ht.symbols
    · exact (Symbol.core_name (ht.symbol ns hlt)).trans hns.isSpace.name
    · exact (List.getLastD_cons ..).trans hlast
    · exact List.forall_mem_cons.mpr ⟨hin.mono ht, hbs⟩
    · intro b hb
      rcases hall b hb with hlt | hmem
      · rw [hsize] at hlt
        rcases Nat.lt_or_eq_of_le (Nat.le_of_lt_succ hlt) with hlt | rfl
        · exact .inl hlt
        · exact .inr List.mem_cons_self
      · exact .inr (List.mem_cons_of_mem _ hmem)

/-- The namespaces that an item defines in a scope have their blocks there, one in the other, and
what is defined inside of them has its own in the last one. Those in the bodies of classes and
functions do not count. -/
inductive Lays (t : SymbolTable) : ScopeId → Tree → Prop
  | definition (hk : u.kind = .namespaceDef) (hbody : u.child? .declList = some body)
    (hopens : t.Opens body.span p ((Declare.namespaceNames u).map (·.1)) bs)
    (hinside : ∀ v ∈ body.items, Lays t (bs.getLastD p) v) : Lays t p u
  | noBody (hk : u.kind = .namespaceDef) (hbody : u.child? .declList = none) : Lays t p u
  | list (hk : u.kind = .linkageSpec) (hbody : u.child? .declList = some body)
    (hinside : ∀ v ∈ body.items, Lays t p v) : Lays t p u
  | item (hk : u.kind = .templateDecl ∨ u.kind = .linkageSpec ∧ u.child? .declList = none)
    (hinside : ∀ v, u.item? = some v → Lays t p v) : Lays t p u
  | other (hk : u.kind ≠ .namespaceDef ∧ u.kind ≠ .linkageSpec ∧ u.kind ≠ .templateDecl) :
    Lays t p u

theorem Lays.mono {u : Tree} (h : t.Lays p u) (ht : t.Extends t') : t'.Lays p u := by
  induction h with
  | definition hk hbody hopens _ ih => exact .definition hk hbody (hopens.mono ht) ih
  | noBody hk hbody => exact .noBody hk hbody
  | list hk hbody _ ih => exact .list hk hbody ih
  | item hk _ ih => exact .item hk ih
  | other hk => exact .other hk

/-- Every block is opened by a definition in the tree of its file. -/
structure Written (trees : FileId → Option Tree) (t : SymbolTable) : Prop extends t.Spaced where
  opened : (t.scope b).kind = .namespaceBlock →
    ∃ root, trees (t.scope b).file = some root ∧ t.OpenedIn root b

variable {trees : FileId → Option Tree}

theorem Written.of_extends (h : t.Written trees) (hs : t'.Spaced) (ht : t.Extends t')
    (hnew : ∀ b, t.scopes.size ≤ b → b < t'.scopes.size → (t'.scope b).kind = .namespaceBlock →
      ∃ root, trees (t'.scope b).file = some root ∧ t'.OpenedIn root b) : t'.Written trees where
  toSpaced := hs
  opened {b} hb := by
    rcases Nat.lt_or_ge b t.scopes.size with hlt | hge
    · obtain ⟨hkind, -, -, hfile, -⟩ := Scope.core_inj (ht.scope b hlt)
      obtain ⟨root, hroot, hopened⟩ := h.opened (hkind ▸ hb)
      exact ⟨root, hfile ▸ hroot, hopened.mono ht⟩
    · exact hnew b hge (t'.lt_size_of_block hb) hb

theorem Written.congr (h : t.Written trees) (hs : t'.Spaced) (ht : t.Extends t')
    (hblock : t.NoBlocks t') : t'.Written trees :=
  h.of_extends hs ht fun b hge hlt hb => absurd hb (hblock b hge hlt)

theorem written_inFile (hroot : trees file = some root) :
    FileInvariant file root (Written trees) where
  addScope _ _ _ hk owner span h :=
    h.congr (h.toSpaced.addScope hk _ owner span) (extends_addScope ..)
      (noBlocks_addScope hk _ owner span)
  add {t _} hp s hs h :=
    h.congr (h.toSpaced.add hs.parent hs.plain hp.lt) (t.extends_add s)
      (.of_size (t.size_scopes_add s))
  addOutOfLine {t _} hp s hs h :=
    h.congr (h.toSpaced.addOutOfLine hs.parent hs.plain hp.lt) (t.extends_addOutOfLine s)
      (.of_size rfl)
  openBlocks hp d body hd hk hbody h := by
    obtain ⟨hs, bs, hopens, -, hbs, hall⟩ := h.toSpaced.openBlocks hp body.span
      (d.hasToken .inlineKw) (Declare.namespaceNames d)
    refine h.of_extends hs (extends_openBlocks ..) fun b hge hlt _ => ?_
    have hb := (hall b hlt).resolve_left (Nat.not_lt.mpr hge)
    exact ⟨root, (hbs b hb).file ▸ hroot, hd, hk, hbody, hopens, hb⟩
  addUsing {t} id d h := by
    refine h.congr (h.toSpaced.modifyScope ?_ ?_ id) (extends_modifyScope ?_ t id)
      (.of_size (t.size_modifyScope id _))
    all_goals exact fun _ => rfl
  addUsingDeclaration {t} id path offset h := by
    refine h.congr (h.toSpaced.modifyScope ?_ ?_ id) (extends_modifyScope ?_ t id)
      (.of_size (t.size_modifyScope id _))
    all_goals exact fun _ => rfl

theorem Written.addFile (h : t.Written trees) (file : FileId) (span : Span) :
    (t.addFile file span).2.Written trees :=
  h.congr (h.toSpaced.addFile file span) (t.extends_addFile file span) (noBlocks_addFile file span)

theorem Written.setVisible (h : t.Written trees) (file : FileId) (files : List FileId) :
    (t.setVisible file files).Written trees :=
  h.congr (h.toSpaced.setVisible file files) (t.extends_setVisible file files) (.of_size rfl)

theorem Written.linked (h : t.Written trees) (hl : t.Linked t') : t'.Written trees :=
  h.congr (h.toSpaced.linked hl) hl.toExtends (.of_size hl.scopes)

end SymbolTable

namespace Declare

variable {P : SymbolTable → Prop} {p : Place}

/-- Declaring something keeps a property of the table, and something else holds behind it. -/
structure Makes (P Q : SymbolTable → Prop) (p : Place) (m : Declaring α) : Prop where
  keeps : Keeps P p m
  makes : ∀ s, s.table.IsIn p.file p.scope → P s.table → Q (m.run s).2.table

/-- What holds behind an element holds in the end if it is kept while the table grows. -/
theorem Makes.forM {f : α → Declaring PUnit} {Q : α → SymbolTable → Prop} {as : List α}
    (h : ∀ a ∈ as, Makes P (Q a) p (f a))
    (hgrows : ∀ a (t t' : SymbolTable), t.Extends t' → Q a t → Q a t') :
    Makes P (fun t => ∀ a ∈ as, Q a t) p (as.forM f) where
  keeps := .forM fun a ha => (h a ha).keeps
  makes s hp hs := by
    induction as generalizing s with
    | nil => nofun
    | cons a as ih =>
      obtain ⟨ha, has⟩ := List.forall_mem_cons.mp h
      have hrest : Keeps P p (as.forM f) := .forM fun b hb => (has b hb).keeps
      refine List.forall_mem_cons.mpr ⟨?_, ?_⟩
      · exact hgrows a _ _ (hrest.grows _) (ha.makes s hp hs)
      · exact ih has _ (hp.mono (ha.keeps.grows s)) (ha.keeps.table s hp hs)

section

open SymbolTable (Written)

variable {trees : FileId → Option Tree} {file : FileId} {root t : Tree} {n : Nat} {scope : ScopeId}
  (hroot : trees file = some root)

/-- The items of a body lay their blocks in the scope they are visited in if each of them does. -/
theorem items_lays {body : Tree} (hbody : body ∈ root.preorder) (hn : 2 * body.depth ≤ n + 2)
    (hvisit : ∀ u ∈ root.preorder, u.isItem = true → 2 * u.depth ≤ n → ∀ params outer,
      Makes (Written trees) (·.Lays scope u) ⟨file, scope⟩
        (visit n ⟨file, scope⟩ (.item u params outer))) :
    Makes (Written trees) (fun t' => ∀ u ∈ body.items, t'.Lays scope u) ⟨file, scope⟩
      (body.items.forM fun u => visit n ⟨file, scope⟩ (.ofItem u)) := by
  refine .forM (fun u hu => ?_) fun _ _ _ ht h => h.mono ht
  obtain ⟨hpart, hitem⟩ := Tree.mem_items.mp hu
  have hlt := Tree.depth_lt hpart
  exact hvisit u (Tree.mem_preorder_trans hbody (Tree.mem_preorder_of_mem_parts hpart)) hitem
    (by omega) ..

include hroot

/-- A definition opens its blocks, and its items are visited in the last of them. -/
theorem declareNamespace_lays (ht : t ∈ root.preorder) (hk : t.kind = .namespaceDef)
    {go : Place → Visit → Declaring Unit}
    (hgo : ∀ body, t.child? .declList = some body → ∀ scope,
      Makes (Written trees) (fun t' => ∀ u ∈ body.items, t'.Lays scope u) ⟨file, scope⟩
        (body.items.forM fun u => go ⟨file, scope⟩ (.ofItem u)))
    (s : State) (hp : s.table.IsIn file scope) (hs : s.table.Written trees) :
    ((declareNamespace go ⟨file, scope⟩ t).run s).2.table.Lays scope t := by
  have I := SymbolTable.written_inFile hroot
  unfold declareNamespace
  split
  · rename_i hbody
    exact .noBody hk hbody
  · rename_i body hbody
    obtain ⟨-, bs, hopens, hlast, -⟩ := hs.toSpaced.openBlocks hp body.span
      (t.hasToken .inlineKw) (namespaceNames t)
    have hkept := I.openBlocks hp ht hk hbody hs
    have hin := hp.openBlocks body.span (t.hasToken .inlineKw) (namespaceNames t)
    have hitems := hgo body hbody (SymbolTable.openBlocks body.span (t.hasToken .inlineKw)
      (namespaceNames t) scope s.table).1
    rw [StateT.run_bind, enterNamespaces_run]
    refine .definition hk hbody (hopens.mono (hitems.keeps.grows ⟨_, s.access⟩)) ?_
    rw [hlast]
    exact hitems.makes ⟨_, s.access⟩ hin hkept

theorem visit_lays (ht : t ∈ root.preorder) (hitem : t.isItem = true) (hn : 2 * t.depth ≤ n)
    (params : List String) (outer : Tree) : Makes (Written trees) (·.Lays scope t) ⟨file, scope⟩
      (visit n ⟨file, scope⟩ (.item t params outer)) := by
  induction n generalizing t scope params outer with
  | zero =>
    have hpos := Tree.depth_pos (Bool.and_eq_true_iff.mp hitem).1
    omega
  | succ n ih =>
    have I := SymbolTable.written_inFile hroot
    refine ⟨visit_keeps I (n + 1) scope _ ht, fun s hp hs => ?_⟩
    have hlist (body : Tree) (hbody : t.child? .declList = some body) (scope : ScopeId) :
        Makes (Written trees) (fun t' => ∀ u ∈ body.items, t'.Lays scope u) ⟨file, scope⟩
          (body.items.forM fun u => visit n ⟨file, scope⟩ (.ofItem u)) := by
      have hlt := Tree.depth_lt (Tree.mem_parts_of_child? hbody)
      exact items_lays (mem_of_child? ht hbody) (by omega) fun u hu hitem hn => ih hu hitem hn
    have hinner {u : Tree} (hu : t.item? = some u) (params : List String) :
        ((visit n ⟨file, scope⟩ (.item u params outer)).run s).2.table.Lays scope u := by
      obtain ⟨hpart, hitem⟩ := Tree.mem_items.mp (Tree.mem_items_of_item? hu)
      have hlt := Tree.depth_lt hpart
      exact (ih (Tree.mem_preorder_trans ht (Tree.mem_preorder_of_mem_parts hpart)) hitem
        (by omega) ..).makes s hp hs
    by_cases hspace : t.kind = .namespaceDef
    · rw [visit, declareItem, hspace]
      exact declareNamespace_lays hroot ht hspace hlist s hp hs
    by_cases hlinkage : t.kind = .linkageSpec
    · rw [visit, declareItem, hlinkage]
      dsimp only
      split
      · rename_i hbody
        exact .list hlinkage hbody ((hlist _ hbody scope).makes s hp hs)
      · rename_i u hbody hu
        refine .item (.inr ⟨hlinkage, hbody⟩) fun v hv => ?_
        obtain rfl := Option.some.inj (hu.symm.trans hv)
        exact hinner hu params
      · rename_i hbody hu
        exact .item (.inr ⟨hlinkage, hbody⟩) fun v hv => by cases hu.symm.trans hv
    by_cases htemplate : t.kind = .templateDecl
    · rw [visit, declareItem, htemplate]
      dsimp only
      refine .item (.inl htemplate) fun v hv => ?_
      rw [hv]
      exact hinner hv _
    · exact .other ⟨hspace, hlinkage, htemplate⟩

end

end Declare

namespace SymbolTable

variable {t t' : SymbolTable} {trees : FileId → Option Tree} {file : FileId} {root : Tree}

/-- The items of a file lay their blocks in a scope of the file. -/
def LaysFile (t : SymbolTable) (file : FileId) (root : Tree) : Prop :=
  ∃ p, t.IsIn file p ∧ (t.scope p).kind = .file ∧ ∀ u ∈ root.items, t.Lays p u

theorem LaysFile.mono (h : t.LaysFile file root) (ht : t.Extends t') : t'.LaysFile file root := by
  obtain ⟨p, hp, hk, hitems⟩ := h
  refine ⟨p, hp.mono ht, ?_, fun u hu => (hitems u hu).mono ht⟩
  exact (Scope.core_inj (ht.scope p hp.lt)).1.trans hk

theorem Written.declareFile (h : t.Written trees) (hroot : trees file = some root) :
    (t.declareFile file root).Written trees ∧ t.Extends (t.declareFile file root) ∧
      (t.declareFile file root).LaysFile file root := by
  have hin := t.isIn_addFile file root.span
  have hwalk : Declare.Makes (Written trees) (fun t' => ∀ u ∈ root.items, t'.Lays t.scopes.size u)
      ⟨file, t.scopes.size⟩ (root.items.forM fun item =>
        Declare.visit (2 * root.depth) ⟨file, t.scopes.size⟩ (.ofItem item)) :=
    Declare.items_lays (Tree.self_mem_preorder root) (by omega) fun u hu hitem hn =>
      Declare.visit_lays hroot hu hitem hn
  have hgrows := hwalk.keeps.grows ⟨(t.addFile file root.span).2, none⟩
  have hadded := h.addFile file root.span
  refine ⟨hwalk.keeps.table ⟨_, none⟩ hin hadded, (t.extends_addFile file _).trans hgrows,
    t.scopes.size, hin.mono hgrows, ?_, hwalk.makes ⟨_, none⟩ hin hadded⟩
  refine (Scope.core_inj (hgrows.scope _ hin.lt)).1.trans ?_
  exact congrArg Scope.kind ((scope_addFile ..).trans (if_pos rfl))

theorem foldl_lays {xs : List (SourceFile × FileId)} (h : t.Written trees)
    (hxs : ∀ x ∈ xs, trees x.2 = some x.1.tree) :
    let t' := xs.foldl (fun t (f, id) => t.declareFile id f.tree) t
    t.Extends t' ∧ ∀ x ∈ xs, t'.LaysFile x.2 x.1.tree := by
  induction xs generalizing t with
  | nil => exact ⟨.refl t, nofun⟩
  | cons x xs ih =>
    obtain ⟨hx, hxs⟩ := List.forall_mem_cons.mp hxs
    obtain ⟨hwritten, ht, hlays⟩ := h.declareFile hx
    obtain ⟨ht', hrest⟩ := ih hwritten hxs
    exact ⟨ht.trans ht', List.forall_mem_cons.mpr ⟨hlays.mono ht', hrest⟩⟩

end SymbolTable

theorem unlinkedSymbols_written (searchPaths : List Path) (headers : List Header)
    (documents : PathMap Document) :
    let s := Snapshot.ofDocuments searchPaths headers documents
    (unlinkedSymbols searchPaths documents).Written fun id => (s.file? id).map (·.tree) := by
  intro s
  refine Snapshot.unlinked_induction _ ⟨.empty, fun {b} hb => ?_⟩
    (fun _ file span h => h.addFile file span) (fun id f hf => ?_)
    fun _ file seen h => h.setVisible file seen
  · exact absurd (SymbolTable.lt_size_of_block _ hb) (Nat.not_lt_zero b)
  · refine SymbolTable.written_inFile ?_
    rw [Snapshot.file?_ofDocuments, hf]
    rfl

theorem Snapshot.unlinked_lays (files : List SourceFile) (graph : IncludeGraph)
    {id : FileId} {f : SourceFile} (hf : files[id]? = some f) :
    (unlinked files graph).LaysFile id f.tree := by
  have hempty : SymbolTable.empty.Written fun id => (files[id]?).map (·.tree) :=
    ⟨.empty, fun {b} hb => absurd (SymbolTable.lt_size_of_block _ hb) (Nat.not_lt_zero b)⟩
  obtain ⟨-, hlays⟩ := SymbolTable.foldl_lays hempty fun x hx => by
    rw [List.mem_zipIdx_iff_getElem?.mp hx]
    rfl
  refine List.foldlRecOn (motive := (SymbolTable.LaysFile · id f.tree)) _ _ ?_
    fun t h id _ => h.mono (SymbolTable.extends_setVisible ..)
  exact hlays (f, id) (List.mem_zipIdx_iff_getElem?.mpr hf)

/-- All blocks of namespaces of one name inside one namespace, in whatever files, have one symbol as
their owner, and no others have it. Each block is listed once by its owner, which is listed once as
a member around the block; and the members of a namespace are those of its blocks, each once, in
the order in which the blocks first list them. A block is opened by a definition in its file, and
its owner has the name that is written there; and every definition opens its blocks. -/
theorem namespaces_shared (searchPaths : List Path) (headers : List Header)
    (documents : PathMap Document) :
    let s := Snapshot.ofDocuments searchPaths headers documents
    let t := s.symbols
    (∀ b, (t.scope b).kind = .namespaceBlock →
      (∃ p ns, t.IsBlock b p ns ∧ (t.symbol ns).isNamespace = true) ∧
      ∃ f, s.file? (t.scope b).file = some f ∧ t.OpenedIn f.tree b) ∧
    (∀ id f, s.file? id = some f → t.LaysFile id f.tree) ∧
    (∀ b p ns, t.IsBlock b p ns →
      (∀ b' p' ns', t.IsBlock b' p' ns' →
        (ns = ns' ↔ t.spaceOf p = t.spaceOf p' ∧ (t.symbol ns).name = (t.symbol ns').name)) ∧
      (t.blocks ns).count b = 1 ∧ (t.scope p).members.count ns = 1) ∧
    ∀ ns, (t.symbol ns).isNamespace = true →
      let listed := (t.blocks ns).flatMap fun b => (t.scope b).members
      (∀ b, b ∈ t.blocks ns ↔
        (t.scope b).isNamespaceBody = true ∧ (t.scope b).owner = some ns) ∧
        (t.blocks ns).Pairwise (· < ·) ∧ (t.members ns).Nodup ∧
        (∀ m, m ∈ t.members ns ↔ ∃ b ∈ t.blocks ns, m ∈ (t.scope b).members) ∧
        (t.members ns).Pairwise fun m m' => listed.idxOf m < listed.idxOf m' := by
  intro s t
  have hlinked := (unlinkedSymbols_sound searchPaths documents).1.linked
  have hwritten : t.Written fun id => (s.file? id).map (·.tree) :=
    (unlinkedSymbols_written searchPaths headers documents).linked hlinked
  have hindexed : t.Indexed := SymbolTable.indexed_symbolsOf ..
  have h := hwritten.toSpaced
  refine ⟨fun b hb => ⟨?_, ?_⟩, fun id f hf => ?_,
    fun b p ns hb => ⟨fun _ _ _ hb' => h.owner_eq_iff hb hb', ?_, ?_⟩, fun ns hns => ?_⟩
  · obtain ⟨p, ns, hblock, hspace, -⟩ := h.block hb
    exact ⟨p, ns, hblock, hspace⟩
  · obtain ⟨root, hroot, hopened⟩ := hwritten.opened hb
    obtain ⟨f, hf, rfl⟩ := Option.map_eq_some_iff.mp hroot
    exact ⟨f, hf, hopened⟩
  · rw [Snapshot.file?_ofDocuments] at hf
    exact (Snapshot.unlinked_lays _ _ hf).mono hlinked.toExtends
  · exact hindexed.count_blocks hb
  · exact h.count_members hb
  · dsimp only
    rw [SymbolTable.members_namespace hns]
    refine ⟨fun b => hindexed.mem_blocks, hindexed.pairwise_blocks ns,
      SymbolTable.nodup_distinct _, fun m => ?_, SymbolTable.pairwise_distinct _⟩
    rw [SymbolTable.mem_distinct, List.mem_flatMap]

/-- A namespace that is opened three times, in a name of two segments and in another file too, and
an anonymous one in both files. -/
theorem namespaces_shared_reopened :
    let documents : PathMap Document := ⟨[
      (.ofString "/a.cpp", ⟨"namespace A \x7b namespace B \x7b int x; \x7d \x7d\n" ++
        "namespace A::B \x7b int y; \x7d\nnamespace \x7b int u; \x7d\n", 0⟩),
      (.ofString "/b.cpp", ⟨"inline namespace A \x7b namespace B \x7b int z; \x7d \x7d\n" ++
        "namespace \x7b int v; \x7d\n", 0⟩)]⟩
    let t := (Snapshot.ofDocuments [] [] documents).symbols
    (t.IsBlock 2 1 2 ∧ t.IsBlock 8 7 2 ∧ t.IsBlock 9 6 5) ∧
      (t.spaceOf 1 = t.spaceOf 7 ∧ ¬ (t.spaceOf 7 = t.spaceOf 6 ∧
        (t.symbol 2).name = (t.symbol 5).name)) ∧
      (t.blocks 2 = [2, 4, 8] ∧ (t.blocks 2).count 8 = 1 ∧ (t.scope 7).members.count 2 = 1) ∧
      t.members 2 = [3, 4, 7] ∧ (t.members 2).Nodup := by
  intro documents t
  have hscopes : [2, 8, 9].map (fun b =>
      ((t.scope b).kind, (t.scope b).parent, (t.scope b).owner)) =
        [(.namespaceBlock, some 1, some 2), (.namespaceBlock, some 7, some 2),
          (.namespaceBlock, some 6, some 5)] ∧ (t.symbol 2).isNamespace = true ∧
      t.blocks 2 = [2, 4, 8] ∧ t.members 2 = [3, 4, 7] := by decide +kernel
  simp only [List.map_cons, List.map_nil, List.cons.injEq, Prod.mk.injEq] at hscopes
  obtain ⟨⟨h₂, h₈, h₉, -⟩, hspace, hblocks, hmembers⟩ := hscopes
  have hb₂ : t.IsBlock 2 1 2 := ⟨h₂.1, h₂.2.1, h₂.2.2⟩
  have hb₈ : t.IsBlock 8 7 2 := ⟨h₈.1, h₈.2.1, h₈.2.2⟩
  have hb₉ : t.IsBlock 9 6 5 := ⟨h₉.1, h₉.2.1, h₉.2.2⟩
  obtain ⟨-, -, hshared, hlisted⟩ := namespaces_shared [] [] documents
  obtain ⟨hiff, hcount, hmember⟩ := hshared 8 7 2 hb₈
  refine ⟨⟨hb₂, hb₈, hb₉⟩, ⟨((hiff 2 1 2 hb₂).mp rfl).1.symm, fun h => ?_⟩,
    ⟨hblocks, hcount, hmember⟩, hmembers, (hlisted 2 hspace).2.2.1⟩
  exact absurd ((hiff 9 6 5 hb₉).mpr h) (by decide)

end CppRefactor
