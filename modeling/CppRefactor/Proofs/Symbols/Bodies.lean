import CppRefactor.Proofs.Symbols.Frames
import Mathlib.Data.List.Basic

/-!
What the bodies of classes and functions begin with: the parameters of the outermost template around
the definition, and those of the function itself. They are declared before anything in the body is;
no other scope has template parameters, and no other list of parameters is declared.
-/

namespace CppRefactor

namespace Tree

/-- An item inside another one, by way of templates that have these parameters. -/
inductive Under (outer : Tree) : Tree → List String → Prop
  | refl : Under outer outer []
  | template (h : Under outer t params) (hk : t.kind = .templateDecl) (hu : t.item? = some u) :
    Under outer u (params ++ Declare.templateParameterNames t)
  | linkage (h : Under outer t params) (hk : t.kind = .linkageSpec) (hu : t.item? = some u) :
    Under outer u params

/-- The named parameters of a template, if the item is one. -/
def templateEntries (t : Tree) : List (SymbolKind × String × Span) :=
  if t.kind == .templateDecl then
    (templateParameters t).filterMap fun param =>
      (TemplateParameter.name? param).map fun token => (.templateParam, token.text, token.span)
  else []

/-- The named parameters of a list. -/
def parameterEntries (list : Tree) : List (SymbolKind × String × Span) :=
  (Parameters.list list).filterMap fun param =>
    (param.declaredName?.bind Name.last?).map fun segment =>
      (.parameter, segment.text, segment.span)

/-- A parameter that is declared with the tree: one of a function that is defined there, or one that
stands alone and in no list. -/
inductive Takes (t param : Tree) : Prop
  | function (hk : t.kind = .functionDef) (hd : t.declarator? = some d)
    (hlist : Declarator.parameters? d = some list) (hp : param ∈ Parameters.list list)
  | alone (hk : t.kind ≠ .paramList) (hp : param ∈ t.children) (hparam : param.kind = .param)

variable {outer t u : Tree} {params : List String}

theorem Under.begins (h : Under outer t params) (hk : t.kind ≠ .templateDecl) :
    ∃ inner, params = outer.templateEntries.map (·.2.1) ++ inner := by
  suffices hsuffices : t = outer ∧ params = [] ∨
      ∃ inner, params = outer.templateEntries.map (·.2.1) ++ inner by
    rcases hsuffices with ⟨rfl, rfl⟩ | hinner
    · rw [templateEntries, if_neg fun h => hk (beq_iff_eq.mp h)]
      exact ⟨[], rfl⟩
    · exact hinner
  clear hk
  induction h with
  | refl => exact .inl ⟨rfl, rfl⟩
  | template h hk hu ih =>
    refine .inr ?_
    rcases ih with ⟨rfl, rfl⟩ | ⟨inner, rfl⟩
    · refine ⟨[], ?_⟩
      rw [templateEntries, if_pos (beq_iff_eq.mpr hk), List.map_filterMap, List.append_nil,
        List.nil_append, Declare.templateParameterNames]
      congr
      funext param
      rw [Option.map_map]
      rfl
    · exact ⟨_, List.append_assoc ..⟩
  | linkage h hk hu ih =>
    refine .inr ?_
    rcases ih with ⟨rfl, rfl⟩ | hinner
    · rw [templateEntries, hk]
      exact ⟨[], rfl⟩
    · exact hinner

theorem Under.mem_preorder (h : Under outer t params) : t ∈ outer.preorder := by
  have hstep {t u : Tree} (ht : t ∈ outer.preorder) (hu : t.item? = some u) : u ∈ outer.preorder :=
    mem_preorder_trans ht (mem_preorder_of_mem_parts (List.mem_of_find?_eq_some hu))
  induction h with
  | refl => exact outer.self_mem_preorder
  | template _ _ hu ih => exact hstep ih hu
  | linkage _ _ hu ih => exact hstep ih hu

theorem filter_templateEntries (t : Tree) :
    t.templateEntries.filter (·.1 == .templateParam) = t.templateEntries := by
  refine List.filter_eq_self.mpr fun e he => ?_
  unfold templateEntries at he
  split at he
  · obtain ⟨param, -, he⟩ := List.mem_filterMap.mp he
    obtain ⟨token, -, rfl⟩ := Option.map_eq_some_iff.mp he
    rfl
  · cases he

theorem filter_parameterEntries (list : Tree) :
    list.parameterEntries.filter (·.1 == .templateParam) = [] := by
  refine List.filter_eq_nil_iff.mpr fun e he => ?_
  obtain ⟨param, -, he⟩ := List.mem_filterMap.mp he
  obtain ⟨segment, -, rfl⟩ := Option.map_eq_some_iff.mp he
  nofun

end Tree

/-- A scope that a definition opens, and what is declared in it first. -/
structure Body where
  kind : ScopeKind
  span : Span
  entries : List (SymbolKind × String × Span)

theorem SymbolKind.isFunction_of_isClass {k : SymbolKind} (h : k.isClass = true) :
    k.isFunction = false := by
  cases k <;> first | rfl | cases h

namespace Symbol

/-- The body that a class or a function has by its definition, which may stand in templates. -/
inductive Opens (root : Tree) (s : Symbol) : Body → Prop
  | cls {t outer : Tree} (houter : outer ∈ root.preorder) (hspan : s.declSpan = outer.span)
    (hunder : outer.Under t s.templateParams) (hs : s.kind.isClass = true)
    (hk : t.kind = .simpleDecl) (hspecs : t.specifiers? = some specs)
    (hc : specs.child? .classSpec = some c) (hlist : Class.members? c = some list) :
    Opens root s ⟨.classBody, list.span, outer.templateEntries⟩
  | function {t outer : Tree} (houter : outer ∈ root.preorder) (hspan : s.declSpan = outer.span)
    (hunder : outer.Under t s.templateParams) (hs : s.kind.isFunction = true)
    (hk : t.kind = .functionDef) (hd : t.declarator? = some d) :
    Opens root s ⟨.function,
      ((Declarator.parameters? d).map fun list => ⟨list.span.start, t.span.stop⟩).getD t.span,
      outer.templateEntries ++
        ((Declarator.parameters? d).map Tree.parameterEntries).getD []⟩

theorem Opens.core {s s' : Symbol} (h : s.Opens root body) (hs : s'.core = s.core) :
    s'.Opens root body := by
  obtain ⟨hparams, hspan⟩ := core_head hs
  cases h with
  | cls houter hdecl hunder hclass hk hspecs hc hlist =>
    have hkind := core_kind_eq hs (SymbolKind.isFunction_of_isClass hclass)
    exact .cls houter (hspan.trans hdecl) (hparams ▸ hunder) (hkind ▸ hclass) hk hspecs hc hlist
  | function houter hdecl hunder hfunction hk hd =>
    exact .function houter (hspan.trans hdecl) (hparams ▸ hunder)
      ((core_inj hs).2.1.trans hfunction) hk hd

/-- A parameter of a function of the tree, or one that stands alone. -/
def TakenIn (s : Symbol) (root : Tree) : Prop :=
  ∃ t param segment, t ∈ root.preorder ∧ t.Takes param ∧
    param.declaredName?.bind Name.last? = some segment ∧
    s.name = segment.text ∧ s.nameSpan = segment.span

end Symbol

namespace SymbolTable

variable {base t t' t'' : SymbolTable} {root : Tree} {file : FileId} {i : SymbolId} {b : ScopeId}
  {body : Body} {s : Symbol}

/-- A scope begins with the members of a body, and no more template parameters follow. -/
structure Begins (t : SymbolTable) (b : ScopeId) (body : Body) : Prop where
  lt : b < t.scopes.size
  kind : (t.scope b).kind = body.kind
  span : (t.scope b).span = body.span
  members : ∃ heads rest, (t.scope b).members = heads ++ rest ∧
    heads.map (fun m => (t.symbol m).entry) = body.entries ∧
    (∀ m ∈ heads, m < t.symbols.size ∧ (t.symbol m).kind.isFunction = false) ∧
    ∀ m ∈ rest, t.HasOther m

theorem Begins.frame (h : t.Begins b body) (hf : Frame t t t') : t'.Begins b body := by
  obtain ⟨hkind, -, -, -, hspan⟩ := Scope.core_inj (hf.scope b h.lt)
  refine ⟨Nat.lt_of_lt_of_le h.lt hf.scopes, hkind.trans h.kind, hspan.trans h.span, ?_⟩
  obtain ⟨heads, rest, hmembers, hentries, hheads, hrest⟩ := h.members
  obtain ⟨more, hmore, hother⟩ := hf.members b h.lt
  refine ⟨heads, rest ++ more, by rw [hmore, hmembers, List.append_assoc], ?_, fun m hm => ?_,
    fun m hm => ?_⟩
  · rw [← hentries]
    refine List.map_congr_left fun m hm => ?_
    exact Symbol.core_entry (hf.symbol m (hheads m hm).1) (hheads m hm).2
  · obtain ⟨hlt, hfunction⟩ := hheads m hm
    refine ⟨Nat.lt_of_lt_of_le hlt hf.symbols, ?_⟩
    rw [(Symbol.core_inj (hf.symbol m hlt)).2.1]
    exact hfunction
  · rcases List.mem_append.mp hm with hm | hm
    · exact (hrest m hm).mono hf.toExtends
    · exact hother m hm

/-- What a scope declares, in order. -/
def entriesOf (t : SymbolTable) (b : ScopeId) : List (SymbolKind × String × Span) :=
  (t.scope b).members.map fun m => (t.symbol m).entry

theorem Begins.entries (h : t.Begins b body) : body.entries ⊆ t.entriesOf b := by
  obtain ⟨heads, rest, hmembers, hentries, -⟩ := h.members
  rw [entriesOf, hmembers, List.map_append, hentries]
  exact List.subset_append_left ..

theorem Begins.templateParameters (h : t.Begins b body) :
    (t.entriesOf b).filter (·.1 == .templateParam) =
      body.entries.filter (·.1 == .templateParam) := by
  obtain ⟨heads, rest, hmembers, hentries, -, hrest⟩ := h.members
  rw [entriesOf, hmembers, List.map_append, hentries, List.filter_append,
    List.append_right_eq_self, List.filter_eq_nil_iff]
  intro e he
  obtain ⟨m, hm, rfl⟩ := List.mem_map.mp he
  exact mt beq_iff_eq.mp (hrest m hm).kind

/-- A symbol of a file. If it has a body and is no enumeration, that begins as its definition says;
if it is a parameter, it is taken in the tree. -/
structure Settled (root : Tree) (file : FileId) (t : SymbolTable) (i : SymbolId) : Prop where
  file : (t.symbol i).file = file
  body : ∀ b, (t.symbol i).scope = some b → (t.symbol i).kind ≠ .enumKind →
    ∃ body, (t.symbol i).Opens root body ∧ t.Begins b body
  taken : (t.symbol i).kind = .parameter → (t.symbol i).TakenIn root

theorem Settled.frame (h : Settled root file t i) (hi : i < t.symbols.size)
    (hf : Frame t t t') : Settled root file t' i := by
  have hcore := hf.symbol i hi
  obtain ⟨-, -, hfile, hname, -⟩ := Symbol.core_inj hcore
  refine ⟨hfile.trans h.file, fun b hb hk => ?_, fun hk => ?_⟩
  · have hk' : (t.symbol i).kind ≠ .enumKind := fun he =>
      hk ((Symbol.core_kind_eq hcore (he ▸ rfl)).trans he)
    obtain ⟨body, hopens, hbegins⟩ := h.body b ((hf.body i hi).symm.trans hb) hk'
    exact ⟨body, hopens.core hcore, hbegins.frame hf⟩
  · have hk' : (t.symbol i).kind = .parameter :=
      (Symbol.core_kind_eq hcore.symm (hk ▸ rfl)).trans hk
    obtain ⟨u, param, segment, hu, htakes, hsegment, hn, hs⟩ := h.taken hk'
    exact ⟨u, param, segment, hu, htakes, hsegment, (Symbol.core_name hcore).trans hn,
      hname.trans hs⟩

/-- A table grows by symbols that are settled. -/
structure Step (root : Tree) (file : FileId) (t t' : SymbolTable) : Prop where
  frame : Frame t t t'
  settled : ∀ i, t.symbols.size ≤ i → i < t'.symbols.size → Settled root file t' i

theorem Step.of_frame (hf : Frame t t t') (hsize : t'.symbols.size = t.symbols.size) :
    Step root file t t' :=
  ⟨hf, fun _ hge hlt => absurd hlt (Nat.not_lt.mpr (hsize ▸ hge))⟩

theorem Step.refl (t : SymbolTable) : Step root file t t := .of_frame (.refl t t) rfl

theorem Step.trans (h : Step root file t t') (h' : Step root file t' t'') :
    Step root file t t'' where
  frame := h.frame.trans (h'.frame.mono h.frame.toExtends)
  settled i hge hlt := by
    rcases Nat.lt_or_ge i t'.symbols.size with hi | hi
    · exact (h.settled i hge hi).frame hi h'.frame
    · exact h'.settled i hi hlt

/-- A symbol that has no body yet. -/
structure Fresh (root : Tree) (file : FileId) (s : Symbol) : Prop where
  file : s.file = file
  scope : s.scope = none
  taken : s.kind = .parameter → s.TakenIn root

theorem Fresh.settled (h : Fresh root file s) (hs : t.symbol i = s) : Settled root file t i where
  file := hs ▸ h.file
  body _ hb := nomatch (hs ▸ h.scope).symm.trans hb
  taken := hs ▸ h.taken

/-- A symbol has been declared, and nothing else. -/
structure Gains (t t' : SymbolTable) (s : Symbol) : Prop where
  frame : Frame t t t'
  size : t'.symbols.size = t.symbols.size + 1
  symbol : t'.symbol t.symbols.size = s

theorem gains_add {p : ScopeId} (hs : s.parent = some p) (hp : p < t.scopes.size)
    (hk : s.kind ≠ .templateParam) : t.Gains (t.add s).2 s :=
  ⟨.add (.refl t) hs hp (.inl hk), size_symbols_add .., by rw [symbol_add, if_pos rfl]⟩

theorem gains_addOutOfLine (t : SymbolTable) (s : Symbol) : t.Gains (t.addOutOfLine s).2 s :=
  ⟨.addOutOfLine (.refl t) s, size_symbols_addOutOfLine .., by
    rw [symbol_addOutOfLine, if_pos rfl]⟩

theorem Gains.step (h : t.Gains t' s) (hs : Fresh root file s) : Step root file t t' where
  frame := h.frame
  settled i hge hlt := by
    rw [h.size] at hlt
    obtain rfl : i = t.symbols.size := Nat.le_antisymm (Nat.le_of_lt_succ hlt) hge
    exact hs.settled h.symbol

theorem Step.declareNamespace (ht : t.NamesNamespaces) {p : ScopeId} (hp : t.IsIn file p)
    (name : String) (span : Span) :
    Step root file t (t.declareNamespace name p span).2 := by
  rcases t.declareNamespace_cases name p span with ⟨ns, hns, heq⟩ | ⟨-, heq⟩
  · rw [heq]
    exact .of_frame (.listNamespace (ht.hasNamespace hns) p) rfl
  · have hgains : t.Gains _ (t.newNamespace name p span) := gains_add rfl hp.lt nofun
    have hadded : Step root file t _ := hgains.step ⟨hp.file, rfl, nofun⟩
    rw [heq, addNamespace_eq]
    refine hadded.trans (.of_frame (.indexNamespace ⟨by simp, ?_⟩) rfl)
    rw [symbol_add, if_pos rfl]
    rfl

theorem Step.openBlock (ht : t.NamesNamespaces) {p : ScopeId} (hp : t.IsIn file p)
    (name : String × Span) (isInline : Bool) (span : Span) :
    Step root file t (t.openBlock p name isInline span).2 := by
  have hdeclared : Step root file t (t.declareNamespace name.1 p name.2).2 :=
    .declareNamespace ht hp name.1 name.2
  have hblock (t' : SymbolTable) (ns : SymbolId) :
      Step root file t' (t'.addScope .namespaceBlock p (some ns) span).2 :=
    .of_frame (.addScope (fun _ _ hk => absurd rfl hk) p span) (t'.size_symbols_addScope ..)
  unfold SymbolTable.openBlock
  dsimp only
  split
  · exact (hdeclared.trans (.of_frame (.setInline _) (size_modifySymbol ..))).trans (hblock _ _)
  · exact hdeclared.trans (hblock _ _)

theorem Step.openBlocks (ht : t.NamesNamespaces) {p : ScopeId} (hp : t.IsIn file p) (span : Span)
    (isInline : Bool) (names : List (String × Span)) :
    Step root file t (openBlocks span isInline names p t).2 :=
  openBlocks_induction (P := Step root file t)
    (fun _ _ name isInline hp h =>
      h.trans (.openBlock (h.frame.namesNamespaces ht) hp name isInline span)) names hp (.refl t)

/-- A scope that has just been added begins with the symbols that are added to it. -/
theorem begins_addAll {ss : List Symbol} (hlt : b < t.scopes.size)
    (hmembers : (t.scope b).members = []) (hss : ∀ s ∈ ss, s.parent = some b ∧
      s.kind.isFunction = false) (hf : Frame base t (t.addAll ss)) :
    (t.addAll ss).Begins b ⟨(t.scope b).kind, (t.scope b).span, ss.map Symbol.entry⟩ := by
  obtain ⟨hkind, -, -, -, hspan⟩ := Scope.core_inj (hf.scope b hlt)
  have hnew := t.symbols_addAll ss
  refine ⟨t.size_scopes_addAll ss ▸ hlt, hkind, hspan,
    List.range' t.symbols.size ss.length, [], ?_, ?_, fun m hm => ?_, nofun⟩
  · rw [members_addAll (fun s hs => (hss s hs).1) hlt, hmembers, List.append_nil, List.nil_append]
  · rw [← hnew, List.map_map, hnew]
    rfl
  · have hmem := List.mem_map_of_mem (f := (t.addAll ss).symbol) hm
    rw [hnew] at hmem
    rw [size_symbols_addAll]
    exact ⟨(List.mem_range'_1.mp hm).2, (hss _ hmem).2⟩

/-- The symbol that has been declared gets a body, which begins with other symbols. -/
theorem Gains.enter (h : t.Gains t' s) (hs : Fresh root file s) (hp : s.kind ≠ .parameter)
    {kind : ScopeKind} (hk : kind ≠ .namespaceBlock) {span : Span} {ss : List Symbol}
    (hopens : s.kind ≠ .enumKind → s.Opens root ⟨kind, span, ss.map Symbol.entry⟩)
    (hss : ∀ s ∈ ss, Fresh root file s ∧ s.parent = some t'.scopes.size ∧
      s.kind.isFunction = false) (p : ScopeId) :
    Step root file t ((t'.addScope kind p (some t.symbols.size) span).2.addAll ss) := by
  have hid : t.symbols.size < t'.symbols.size := h.size ▸ Nat.lt_succ_self _
  have hnew := t'.symbol_addScope kind p (some t.symbols.size) span t.symbols.size
  have hself := t'.scope_addScope_self kind p (some t.symbols.size) span
  have hsymbols := t'.size_symbols_addScope kind p (some t.symbols.size) span
  have hscopes := t'.size_scopes_addScope kind p (some t.symbols.size) span
  have hentered : Frame t t' (t'.addScope kind p (some t.symbols.size) span).2 :=
    .addScope (fun o ho _ => Nat.le_of_eq (Option.some.inj ho)) p span
  generalize (t'.addScope kind p (some t.symbols.size) span).2 = u at *
  have hlt : t'.scopes.size < u.scopes.size := hscopes ▸ Nat.lt_succ_self _
  have hadded : Frame t u (u.addAll ss) := .addAll
    (h.frame.toExtends.trans hentered.toExtends) (fun s hs => (hss s hs).2.1) hlt h.frame.scopes
  rw [if_pos ⟨hk, rfl, hid⟩, h.symbol] at hnew
  rw [← symbol_addAll (hsymbols ▸ hid) ss] at hnew
  refine ⟨(h.frame.trans hentered).trans hadded, fun i hge hi => ?_⟩
  rcases Nat.lt_or_ge i u.symbols.size with hu | hu
  · rw [hsymbols, h.size] at hu
    obtain rfl : i = t.symbols.size := Nat.le_antisymm (Nat.le_of_lt_succ hu) hge
    constructor
    · rw [hnew]
      exact hs.file
    · intro b hb hkind
      rw [hnew] at hb hkind ⊢
      obtain rfl : t'.scopes.size = b := Option.some.inj hb
      refine ⟨_, (hopens hkind).core rfl, ?_⟩
      have hbegins := begins_addAll hlt (hself ▸ rfl) (fun s hs => (hss s hs).2) hadded
      rwa [hself] at hbegins
    · intro hkind
      rw [hnew] at hkind
      exact absurd hkind hp
  · exact (hss _ (symbol_addAll_mem hu hi)).1.settled rfl

end SymbolTable

namespace Declare

open SymbolTable (Fresh Gains)

variable {root t d outer : Tree} {p : Place} {names params : List String} {s : Symbol}

/-- What is done with each element is that a symbol is added, or nothing. -/
theorem forM_addAll {f : α → Declaring PUnit} {g : α → Option Symbol}
    (hf : ∀ a s, (f a).run s = ((), ⟨s.table.addAll (g a).toList, s.access⟩)) (as : List α)
    (s : State) : (as.forM f).run s = ((), ⟨s.table.addAll (as.filterMap g), s.access⟩) := by
  induction as generalizing s with
  | nil => rfl
  | cons a as ih =>
    have hcons : (List.forM (a :: as) f).run s = (as.forM f).run ((f a).run s).2 := rfl
    rw [hcons, hf, ih]
    cases hg : g a with
    | none => rw [List.filterMap_cons_none hg]; rfl
    | some s' => rw [List.filterMap_cons_some hg]; rfl

def templateSymbol (p : Place) (names : List String) (param : Tree) : Option Symbol :=
  (TemplateParameter.name? param).bind fun token =>
    if names.contains token.text then
      some (p.symbol token.text .templateParam token.span param.span)
    else none

def templateSymbols (p : Place) (names : List String) (outer : Tree) : List Symbol :=
  if outer.kind == .templateDecl then
    (templateParameters outer).filterMap (templateSymbol p names)
  else []

def parameterSymbol (p : Place) (param : Tree) : Option Symbol :=
  (param.declaredName?.bind Name.last?).map fun segment =>
    let base := p.symbol segment.text .parameter segment.span param.span
    match param.specifiers? with
    | some specs => { base with
        type := some (typeRef p specs param.declarator? none)
        flags := { isConst := specs.hasToken .constKw } }
    | none => base

theorem declareTemplateParameters_run (p : Place) (names : List String) (outer : Tree)
    (s : State) : (declareTemplateParameters p names outer).run s =
      ((), ⟨s.table.addAll (templateSymbols p names outer), s.access⟩) := by
  unfold declareTemplateParameters templateSymbols
  split
  · refine forM_addAll (fun param s => ?_) _ s
    unfold templateSymbol
    cases TemplateParameter.name? param with
    | none => rfl
    | some token =>
      dsimp only
      rw [Option.bind_some]
      split
      · rfl
      · rfl
  · rfl

theorem declareParameter_run (p : Place) (param : Tree) (s : State) :
    (declareParameter p param).run s =
      ((), ⟨s.table.addAll (parameterSymbol p param).toList, s.access⟩) := by
  unfold declareParameter parameterSymbol
  cases param.declaredName?.bind Name.last? with
  | none => rfl
  | some segment =>
    rw [Option.map_some]
    cases param.specifiers? with
    | none => rfl
    | some specs => rfl

/-- A symbol that a body may begin with. -/
structure Heads (root : Tree) (p : Place) (s : Symbol) : Prop where
  fresh : Fresh root p.file s
  parent : s.parent = some p.scope
  kind : s.kind.isFunction = false

theorem templateSymbols_heads (h : s ∈ templateSymbols p names outer) : Heads root p s := by
  unfold templateSymbols at h
  split at h
  · obtain ⟨param, -, hs⟩ := List.mem_filterMap.mp h
    obtain ⟨token, -, hs⟩ := Option.bind_eq_some_iff.mp hs
    split at hs
    · cases hs
      exact ⟨⟨rfl, rfl, nofun⟩, rfl, rfl⟩
    · cases hs
  · cases h

/-- All parameters of the outermost template are among those of the templates. -/
theorem templateSymbols_entries (h : ∀ name ∈ outer.templateEntries.map (·.2.1), name ∈ names) :
    (templateSymbols p names outer).map Symbol.entry = outer.templateEntries := by
  unfold templateSymbols Tree.templateEntries at *
  split
  · rename_i hk
    rw [if_pos hk] at h
    rw [List.map_filterMap]
    refine List.filterMap_congr fun param hparam => ?_
    unfold templateSymbol
    cases hname : TemplateParameter.name? param with
    | none => rfl
    | some token =>
      have hmem : token.text ∈ names := by
        refine h _ (List.mem_map.mpr ⟨(.templateParam, token.text, token.span), ?_, rfl⟩)
        exact List.mem_filterMap.mpr ⟨param, hparam, by rw [hname, Option.map_some]⟩
      rw [Option.bind_some, if_pos (List.contains_iff_mem.mpr hmem)]
      rfl
  · rfl

theorem parameterSymbol_heads (ht : t ∈ root.preorder) (htakes : t.Takes param)
    (h : parameterSymbol p param = some s) : Heads root p s ∧ s.kind ≠ .templateParam := by
  obtain ⟨segment, hsegment, rfl⟩ := Option.map_eq_some_iff.mp h
  dsimp only
  split
  · exact ⟨⟨⟨rfl, rfl, fun _ => ⟨t, param, segment, ht, htakes, hsegment, rfl, rfl⟩⟩, rfl, rfl⟩,
      nofun⟩
  · exact ⟨⟨⟨rfl, rfl, fun _ => ⟨t, param, segment, ht, htakes, hsegment, rfl, rfl⟩⟩, rfl, rfl⟩,
      nofun⟩

theorem parameterSymbols_entries (p : Place) (list : Tree) :
    ((Parameters.list list).filterMap (parameterSymbol p)).map Symbol.entry =
      list.parameterEntries := by
  rw [List.map_filterMap]
  refine List.filterMap_congr fun param _ => ?_
  unfold parameterSymbol
  cases param.declaredName?.bind Name.last? with
  | none => rfl
  | some segment => cases param.specifiers? <;> rfl

/-- Declaring something in a scope of a file is a step of its table. -/
structure Steps (root : Tree) (p : Place) (m : Declaring α) : Prop where
  step : ∀ s, s.table.NamesNamespaces → s.table.IsIn p.file p.scope →
    SymbolTable.Step root p.file s.table (m.run s).2.table

namespace Steps

theorem silent {m : Declaring α} (hm : Silent m) : Steps root p m :=
  ⟨fun s _ _ => (hm s).symm ▸ .refl s.table⟩

theorem pure (a : α) : Steps root p (Pure.pure a) := silent (.pure a)

theorem bind {m : Declaring α} {f : α → Declaring β} (hm : Steps root p m)
    (hf : ∀ a, Steps root p (f a)) : Steps root p (m >>= f) where
  step s ht hp := by
    have hstep := hm.step s ht hp
    exact hstep.trans ((hf _).step _ (hstep.frame.namesNamespaces ht)
      (hp.mono hstep.frame.toExtends))

theorem read {m : Declaring α} {f : α → Declaring β} (hm : Silent m)
    (hf : ∀ s, Steps root p (f (m.run s).1)) : Steps root p (m >>= f) where
  step s := by
    have hstep := (hf s).step (m.run s).2
    rw [hm s] at hstep
    exact hstep

theorem discard {m : Declaring α} (hm : Steps root p m) : Steps root p (discard m) := ⟨hm.step⟩

theorem ite {c : Prop} [Decidable c] {m n : Declaring α} (hm : Steps root p m)
    (hn : Steps root p n) : Steps root p (if c then m else n) := by
  split
  · exact hm
  · exact hn

theorem get : Steps root p (MonadState.get : Declaring State) := silent .get

theorem modify {f : State → State} (h : ∀ s, (f s).table = s.table) :
    Steps root p (modify f : Declaring PUnit) :=
  silent (.modify h)

theorem forM {f : α → Declaring PUnit} {as : List α} (h : ∀ a ∈ as, Steps root p (f a)) :
    Steps root p (as.forM f) := by
  induction as with
  | nil => exact pure ()
  | cons a as ih =>
    refine bind (h a List.mem_cons_self) fun _ => ih fun b hb => h b (List.mem_cons_of_mem a hb)

theorem add (hs : Fresh root p.file s) (hparent : s.parent = some p.scope)
    (hk : s.kind ≠ .templateParam) : Steps root p (Declare.add s) where
  step _ _ hp := (SymbolTable.gains_add hparent hp.lt hk).step hs

theorem modifyScope {f : Scope → Scope} (hcore : ∀ s, (f s).core = s.core)
    (hmembers : ∀ s, (f s).members = s.members) :
    Steps root p (change (·.modifyScope p.scope f)) where
  step _ _ _ := .of_frame (.modifyScope hcore hmembers p.scope) rfl

theorem enterBlock (span : Span) {f : Place → Declaring α}
    (hf : ∀ scope, Steps root ⟨p.file, scope⟩ (f ⟨p.file, scope⟩)) :
    Steps root p (p.enter .block none span >>= f) where
  step s ht hp := by
    have hstep : SymbolTable.Step root p.file s.table
        (s.table.addScope .block p.scope none span).2 :=
      .of_frame (.addScope (fun _ (ho : none = some _) => nomatch ho) p.scope span)
        (s.table.size_symbols_addScope ..)
    rw [enter_run]
    have hrest := (hf (s.table.addScope .block p.scope none span).1).step ⟨_, s.access⟩
      (hstep.frame.namesNamespaces ht) (hp.addScope .block none span)
    exact hstep.trans hrest

end Steps

/-- Declaring something in a scope adds symbols to it first, and goes on step by step. -/
structure StartsWith (root : Tree) (p : Place) (ss : List Symbol) (m : Declaring α) : Prop where
  step : ∀ s, (s.table.addAll ss).NamesNamespaces → (s.table.addAll ss).IsIn p.file p.scope →
    SymbolTable.Step root p.file (s.table.addAll ss) (m.run s).2.table

namespace StartsWith

variable {ss ss' : List Symbol}

theorem nil {m : Declaring α} (hm : Steps root p m) : StartsWith root p [] m := ⟨hm.step⟩

theorem andThen {m : Declaring PUnit} {f : PUnit → Declaring α}
    (hm : ∀ s, m.run s = ((), ⟨s.table.addAll ss, s.access⟩)) (hf : Steps root p (f ())) :
    StartsWith root p ss (m >>= f) where
  step s ht hp := by
    rw [StateT.run_bind, hm]
    exact hf.step ⟨s.table.addAll ss, s.access⟩ ht hp

theorem addAll {m : Declaring PUnit} {f : PUnit → Declaring α}
    (hm : ∀ s, m.run s = ((), ⟨s.table.addAll ss, s.access⟩)) (hf : StartsWith root p ss' (f ())) :
    StartsWith root p (ss ++ ss') (m >>= f) where
  step s ht hp := by
    have hstep := hf.step ⟨s.table.addAll ss, s.access⟩
    rw [StateT.run_bind, hm, SymbolTable.addAll_append]
    rw [SymbolTable.addAll_append] at ht hp
    exact hstep ht hp

theorem withAccess (access : Option Access) {body : Declaring Unit}
    (h : StartsWith root p ss body) : StartsWith root p ss (withAccess access body) :=
  ⟨fun s => h.step ⟨s.table, access⟩⟩

theorem thenPure {m : Declaring β} (hm : StartsWith root p ss m) (a : α) :
    StartsWith root p ss (m >>= fun _ => Pure.pure a) :=
  ⟨hm.step⟩

end StartsWith

/-- What a symbol must be to be declared with a body that begins with other symbols. -/
structure OpensWith (root : Tree) (file : FileId) (s : Symbol) (kind : ScopeKind) (span : Span)
    (ss : ScopeId → List Symbol) : Prop where
  fresh : Fresh root file s
  isParameter : s.kind ≠ .parameter
  scopeKind : kind ≠ .namespaceBlock
  opens : ∀ scope, s.kind ≠ .enumKind → s.Opens root ⟨kind, span, (ss scope).map Symbol.entry⟩
  heads : ∀ scope, ∀ h ∈ ss scope, Heads root ⟨file, scope⟩ h

namespace OpensWith

variable {kind : ScopeKind} {span : Span} {ss : ScopeId → List Symbol}
  {f : SymbolId → Place → Declaring α} (h : OpensWith root p.file s kind span ss)
  (hf : ∀ id scope, StartsWith root ⟨p.file, scope⟩ (ss scope) (f id ⟨p.file, scope⟩))

include h hf

theorem steps {create : Declaring SymbolId}
    (hcreate : ∀ u, u.table.IsIn p.file p.scope → (create.run u).1 = u.table.symbols.size ∧
      u.table.Gains (create.run u).2.table s) :
    Steps root p (create >>= fun id => p.enter kind (some id) span >>= f id) where
  step u ht hin := by
    obtain ⟨hid, hgains⟩ := hcreate u hin
    have hin := (hin.mono hgains.frame.toExtends).addScope kind (some u.table.symbols.size) span
    change SymbolTable.Step root p.file u.table
      ((p.enter kind (some (create.run u).1) span >>= f (create.run u).1).run
        (create.run u).2).2.table
    rw [enter_run, hid]
    generalize (create.run u).2 = u₁ at *
    have hscope := u₁.table.addScope_fst kind p.scope (some u.table.symbols.size) span
    have hstep := hgains.enter h.fresh h.isParameter h.scopeKind (h.opens u₁.table.scopes.size)
      (fun s hs => by
        have hheads := h.heads _ s hs
        exact ⟨hheads.fresh, hheads.parent, hheads.kind⟩) p.scope
    rw [hscope] at hin ⊢
    have hrest := (hf u.table.symbols.size u₁.table.scopes.size).step ⟨_, u₁.access⟩
      (hstep.frame.namesNamespaces ht) (hin.mono (SymbolTable.extends_addAll _ _))
    exact hstep.trans hrest

theorem add (hparent : s.parent = some p.scope) (hk : s.kind ≠ .templateParam) :
    Steps root p (Declare.add s >>= fun id => p.enter kind (some id) span >>= f id) :=
  h.steps hf fun u hin =>
    ⟨u.table.add_fst s, SymbolTable.gains_add hparent hin.lt hk⟩

theorem addOutOfLine : Steps root p (do
    let id ← run (·.addDetached s)
    change fun t => { t with outOfLine := t.outOfLine ++ [id] }
    let inner ← p.enter kind (some id) span
    f id inner) := by
  have hsteps : Steps root p (run (·.addOutOfLine s) >>= fun id =>
      p.enter kind (some id) span >>= f id) :=
    h.steps hf fun u _ => ⟨rfl, u.table.gains_addOutOfLine s⟩
  exact hsteps

end OpensWith

end Declare

end CppRefactor
