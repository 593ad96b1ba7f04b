import CppRefactor.Proofs.Symbols.Levels
import CppRefactor.Proofs.Symbols.Opened

/-!
Members of a class are declared at the access level of their place in its body. The walk keeps one
level, which classes and functions set for what is in them and set back behind it; so at each member
it is that of the last specifier before.
-/

namespace CppRefactor

/-- Symbols of these kinds have an access level in a class. -/
def SymbolKind.hasLevel (k : SymbolKind) : Bool :=
  k.isClass || k.isFunction || k == .enumKind || k == .field || k == .typeAlias

namespace Symbol

variable {s s' : Symbol}

theorem core_level (h : s'.core = s.core) : s'.kind.hasLevel = s.kind.hasLevel ∧
    s'.access = s.access := by
  have hlevel (s : Symbol) : s.core.kind.hasLevel = s.kind.hasLevel := by
    unfold core
    dsimp only
    cases s.kind
    all_goals rfl
  refine ⟨by rw [← hlevel s', h, hlevel s], ?_⟩
  simp only [core, mk.injEq] at h
  simp [h]

/-- In the body of a class, the symbol is declared at a level and has its name at these offsets. -/
structure AtLevel (k : ScopeKind) (p : ScopeId) (level : Option Access) (names : Set Nat)
    (s : Symbol) : Prop where
  kind : k = .classBody
  parent : s.parent = some p
  access : s.kind.hasLevel = true → s.access = level
  name : s.kind.hasLevel = true → s.nameSpan.start ∈ names

variable {k : ScopeKind} {p : ScopeId} {level : Option Access} {names names' : Set Nat}

theorem AtLevel.core (h : s.AtLevel k p level names) (hs : s'.core = s.core) :
    s'.AtLevel k p level names := by
  obtain ⟨-, -, -, hspan, hparent, -⟩ := core_inj hs
  obtain ⟨hlevel, haccess⟩ := core_level hs
  refine ⟨h.kind, hparent.trans h.parent, fun hk => ?_, fun hk => ?_⟩
  · exact haccess.trans (h.access (hlevel.symm.trans hk))
  · exact hspan ▸ h.name (hlevel.symm.trans hk)

theorem AtLevel.mono (h : s.AtLevel k p level names) (hn : names ⊆ names') :
    s.AtLevel k p level names' :=
  ⟨h.kind, h.parent, h.access, fun hk => hn (h.name hk)⟩

end Symbol

namespace SymbolTable

variable {text : String} {t t' t'' : SymbolTable} {file : FileId} {k k' : ScopeKind}
  {p p' : ScopeId} {level level' : Option Access} {names names' : Set Nat} {c list : Tree}
  {s s' : Symbol}

/-- A scope of a file that has a kind. -/
structure IsOf (t : SymbolTable) (file : FileId) (k : ScopeKind) (p : ScopeId) : Prop
    extends t.IsIn file p where
  kind : (t.scope p).kind = k

theorem IsOf.mono (h : t.IsOf file k p) (ht : t.Extends t') : t'.IsOf file k p :=
  ⟨h.toIsIn.mono ht, (Scope.core_inj (ht.scope p h.lt)).1.trans h.kind⟩

theorem IsOf.addScope (h : t.IsIn file p) (k : ScopeKind) (owner : Option SymbolId) (span : Span) :
    (t.addScope k p owner span).2.IsOf file k (t.addScope k p owner span).1 := by
  refine ⟨h.addScope k owner span, ?_⟩
  rw [addScope_fst, scope_addScope_self]
  rfl

theorem IsOf.openBlocks (h : t.IsIn file p) (span : Span) (isInline : Bool) (x : String × Span)
    (xs : List (String × Span)) : (openBlocks span isInline (x :: xs) p t).2.IsOf file
      .namespaceBlock (openBlocks span isInline (x :: xs) p t).1 := by
  induction xs generalizing x t p with
  | nil =>
    have hp := h.mono (t.extends_declareNamespace x.1 p x.2)
    unfold SymbolTable.openBlocks SymbolTable.openBlock
    dsimp only [SymbolTable.openBlocks]
    refine IsOf.addScope ?_ ..
    split
    · exact hp.mono (extends_setInline _ _)
    · exact hp
  | cons y ys ih => exact ih (h.openBlock ..) y

/-- A scope is the body of a class of a text. -/
structure IsBody (t : SymbolTable) (text : String) (p : ScopeId) (c list : Tree) : Prop where
  tree : IsTreeOf text c
  kind : c.kind = .classSpec
  members : Class.members? c = some list
  span : (t.scope p).span = list.span

theorem IsBody.mono (h : t.IsBody text p c list) (hp : p < t.scopes.size) (ht : t.Extends t') :
    t'.IsBody text p c list :=
  ⟨h.tree, h.kind, h.members, (Scope.core_inj (ht.scope p hp)).2.2.2.2.trans h.span⟩

/-- If the symbol stands in the body of a class, it has the level of its place there. -/
structure Leveled (t : SymbolTable) (text : String) (s : Symbol) : Prop where
  lt : ∀ p, s.parent = some p → p < t.scopes.size
  level : s.kind.hasLevel = true → ∀ p, s.parent = some p → (t.scope p).kind = .classBody →
    ∃ c list, t.IsBody text p c list ∧ s.access = some (Class.levelAt c list s.nameSpan.start)

theorem Leveled.mono (h : t.Leveled text s) (ht : t.Extends t') (hs : s'.core = s.core) :
    t'.Leveled text s' := by
  obtain ⟨-, -, -, hspan, hparent, -⟩ := Symbol.core_inj hs
  obtain ⟨hlevel, haccess⟩ := Symbol.core_level hs
  have hlt (p : ScopeId) (hp : s'.parent = some p) := h.lt p (hparent.symm.trans hp)
  refine ⟨fun p hp => Nat.lt_of_lt_of_le (hlt p hp) ht.scopes, fun hk p hp hbody => ?_⟩
  have hbody' : (t.scope p).kind = .classBody :=
    (Scope.core_inj (ht.scope p (hlt p hp))).1.symm.trans hbody
  obtain ⟨c, list, hc, hs⟩ :=
    h.level (hlevel.symm.trans hk) p (hparent.symm.trans hp) hbody'
  exact ⟨c, list, hc.mono (hlt p hp) ht, by rw [haccess, hs, hspan]⟩

/-- The table grows by symbols that have the levels of their places, and by some that are declared
at a level in one scope. -/
structure LevelStep (text : String) (k : ScopeKind) (p : ScopeId) (level : Option Access)
    (names : Set Nat) (t t' : SymbolTable) : Prop extends t.Extends t' where
  symbol_new : ∀ i, t.symbols.size ≤ i → i < t'.symbols.size →
    t'.Leveled text (t'.symbol i) ∨ (t'.symbol i).AtLevel k p level names

namespace LevelStep

theorem of_size (ht : t.Extends t') (hsize : t'.symbols.size = t.symbols.size) :
    LevelStep text k p level names t t' :=
  ⟨ht, fun _ hge hlt => absurd hlt (Nat.not_lt.mpr (hsize ▸ hge))⟩

theorem refl (t : SymbolTable) : LevelStep text k p level names t t := of_size (.refl t) rfl

theorem trans (h : LevelStep text k p level names t t')
    (h' : LevelStep text k p level names t' t'') : LevelStep text k p level names t t'' where
  toExtends := h.toExtends.trans h'.toExtends
  symbol_new i hge hlt := by
    rcases Nat.lt_or_ge i t'.symbols.size with hi | hi
    · have hcore := h'.symbol i hi
      exact (h.symbol_new i hge hi).imp (·.mono h'.toExtends hcore) (·.core hcore)
    · exact h'.symbol_new i hi hlt

theorem mono (h : LevelStep text k p level names t t') (hn : names ⊆ names') :
    LevelStep text k p level names' t t' :=
  ⟨h.toExtends, fun i hge hlt => (h.symbol_new i hge hlt).imp_right (·.mono hn)⟩

theorem of_kind (h : LevelStep text k p level names t t') (hk : k ≠ .classBody) :
    LevelStep text k' p' level' names' t t' :=
  ⟨h.toExtends, fun i hge hlt => (h.symbol_new i hge hlt).imp_right fun hs => absurd hs.kind hk⟩

/-- What is declared at a level in the body of a class has the level of its place if that is the
level of the places. -/
theorem of_body (h : LevelStep text .classBody p level names t t') (hp : p < t.scopes.size)
    (hbody : t.IsBody text p c list)
    (hlevel : ∀ o ∈ names, level = some (Class.levelAt c list o)) :
    LevelStep text k p' level' names' t t' where
  toExtends := h.toExtends
  symbol_new i hge hlt := by
    rcases h.symbol_new i hge hlt with hs | hs
    · exact .inl hs
    · refine .inl ⟨fun q hq => ?_, fun hk q hq _ => ⟨c, list, ?_⟩⟩
      all_goals obtain rfl : p = q := Option.some.inj (hs.parent.symm.trans hq)
      · exact Nat.lt_of_lt_of_le hp h.scopes
      · exact ⟨hbody.mono hp h.toExtends, (hs.access hk).trans (hlevel _ (hs.name hk))⟩

theorem of_symbol (hp : t.IsOf file k p) (ht : t.Extends t')
    (hsize : t'.symbols.size = t.symbols.size + 1) (hs : t'.symbol t.symbols.size = s)
    (hparent : s.parent = some p) (haccess : k = .classBody → s.kind.hasLevel = true →
      s.access = level ∧ s.nameSpan.start ∈ names) : LevelStep text k p level names t t' where
  toExtends := ht
  symbol_new i hge hlt := by
    rw [hsize] at hlt
    obtain rfl : i = t.symbols.size := Nat.le_antisymm (Nat.le_of_lt_succ hlt) hge
    rw [hs]
    by_cases hk : k = .classBody
    · exact .inr ⟨hk, hparent, fun h => (haccess hk h).1, fun h => (haccess hk h).2⟩
    · refine .inl ⟨fun q hq => ?_, fun _ q hq hbody => ?_⟩
      all_goals obtain rfl : p = q := Option.some.inj (hparent.symm.trans hq)
      · exact (hp.mono ht).lt
      · exact absurd ((hp.mono ht).kind.symm.trans hbody) hk

theorem addAll (ss : List Symbol) (hp : p < t.scopes.size)
    (hss : ∀ s ∈ ss, s.parent = some p ∧ s.kind.hasLevel = false) :
    LevelStep text k p' level names t (t.addAll ss) where
  toExtends := t.extends_addAll ss
  symbol_new i hge hlt := by
    obtain ⟨hparent, hlevel⟩ := hss _ (symbol_addAll_mem hge hlt)
    refine .inl ⟨fun q hq => ?_, fun hk => absurd hk (Bool.eq_false_iff.mp hlevel)⟩
    obtain rfl : p = q := Option.some.inj (hparent.symm.trans hq)
    simpa using hp

theorem openBlocks (hp : t.IsIn file p) (span : Span) (isInline : Bool)
    (xs : List (String × Span)) :
    LevelStep text k p' level names t (openBlocks span isInline xs p t).2 := by
  refine openBlocks_induction (P := LevelStep text k p' level names t)
    (fun t₁ q x isInline hq h => h.trans ?_) xs hp (.refl t)
  have hdeclared : LevelStep text k p' level names t₁ (t₁.declareNamespace x.1 q x.2).2 := by
    rcases t₁.declareNamespace_cases x.1 q x.2 with ⟨ns, -, heq⟩ | ⟨-, heq⟩
    · rw [heq]
      exact .of_size (t₁.extends_listNamespace q ns) rfl
    · have hadded : LevelStep text k p' level names t₁ (t₁.add _).2 :=
        .addAll [t₁.newNamespace x.1 q x.2] hq.lt (List.forall_mem_singleton.mpr ⟨rfl, rfl⟩)
      rw [heq, addNamespace_eq]
      exact hadded.trans (.of_size (extends_indexNamespace ..) rfl)
  refine hdeclared.trans ?_
  unfold SymbolTable.openBlock
  dsimp only
  split
  · exact (LevelStep.of_size (extends_setInline _ _) (size_modifySymbol ..)).trans
      (.of_size (extends_addScope ..) (size_symbols_addScope ..))
  · exact .of_size (extends_addScope ..) (size_symbols_addScope ..)

end LevelStep

end SymbolTable

namespace Declare

open SymbolTable (LevelStep IsOf IsBody)

variable {text : String} {k k' : ScopeKind} {p : Place} {names names' : Set Nat} {s : State}

/-- From a state on, what is declared in a scope has the level of its place or that of the state. -/
def LevelsFrom (text : String) (k : ScopeKind) (names : Set Nat) (p : Place) (s : State)
    (m : Declaring α) : Prop :=
  s.table.IsOf p.file k p.scope →
    LevelStep text k p.scope s.access names s.table (m.run s).2.table

/-- The same from each state on. -/
def Levels (text : String) (k : ScopeKind) (names : Set Nat) (p : Place) (m : Declaring α) : Prop :=
  ∀ s, LevelsFrom text k names p s m

theorem LevelsFrom.bind {m : Declaring α} {f : α → Declaring β}
    (hm : LevelsFrom text k names p s m) (hs : k = .classBody → Steady m)
    (hf : ∀ a, Levels text k names p (f a)) : LevelsFrom text k names p s (m >>= f) := by
  intro hp
  have hstep := hm hp
  have hrest := hf (m.run s).1 (m.run s).2 (hp.mono hstep.toExtends)
  refine hstep.trans ?_
  by_cases hk : k = .classBody
  · rw [(hs hk).access s] at hrest
    exact hrest
  · exact hrest.of_kind hk

theorem LevelsFrom.read {m : Declaring α} {f : α → Declaring β} (hm : Silent m) (hs : Steady m)
    (hf : LevelsFrom text k names p s (f (m.run s).1)) :
    LevelsFrom text k names p s (m >>= f) := by
  intro hp
  have hbind : (m >>= f).run s = (f (m.run s).1).run (m.run s).2 := rfl
  have hrun : (m.run s).2 = s := by
    have htable := hm s
    have haccess := hs.access s
    generalize (m.run s).2 = s' at *
    cases s'
    cases htable
    cases haccess
    rfl
  rw [hbind, hrun]
  exact hf hp

theorem LevelsFrom.discard {m : Declaring α} (hm : LevelsFrom text k names p s m) :
    LevelsFrom text k names p s (discard m) :=
  hm

theorem LevelsFrom.add {symbol : Symbol} (hparent : symbol.parent = some p.scope)
    (haccess : k = .classBody → symbol.kind.hasLevel = true →
      symbol.access = s.access ∧ symbol.nameSpan.start ∈ names) :
    LevelsFrom text k names p s (Declare.add symbol) := fun hp =>
  .of_symbol hp (s.table.extends_add symbol) (SymbolTable.size_symbols_add ..)
    ((s.table.symbol_add symbol _).trans (if_pos rfl)) hparent haccess

theorem LevelsFrom.addOutOfLine {symbol : Symbol} {f : SymbolId → Declaring α}
    (hparent : symbol.parent = some p.scope)
    (haccess : k = .classBody → symbol.kind.hasLevel = true →
      symbol.access = s.access ∧ symbol.nameSpan.start ∈ names)
    (hf : ∀ i, Levels text k names p (f i)) : LevelsFrom text k names p s (do
      let i ← run (·.addDetached symbol)
      change fun t => { t with outOfLine := t.outOfLine ++ [i] }
      f i) := by
  have hadd : LevelsFrom text k names p s (run (·.addOutOfLine symbol)) := fun hp =>
    .of_symbol hp (s.table.extends_addOutOfLine symbol)
      (SymbolTable.size_symbols_addOutOfLine ..)
      ((s.table.symbol_addOutOfLine symbol _).trans (if_pos rfl)) hparent haccess
  exact hadd.bind (fun _ => .run _) hf

namespace Levels

theorem silent {m : Declaring α} (hm : Silent m) : Levels text k names p m :=
  fun s _ => (hm s).symm ▸ .refl s.table

theorem pure (a : α) : Levels text k names p (Pure.pure a) := silent (.pure a)

theorem mono {m : Declaring α} (hm : Levels text k names p m) (hn : names ⊆ names') :
    Levels text k names' p m :=
  fun s hp => (hm s hp).mono hn

theorem bind {m : Declaring α} {f : α → Declaring β} (hm : Levels text k names p m)
    (hs : k = .classBody → Steady m) (hf : ∀ a, Levels text k names p (f a)) :
    Levels text k names p (m >>= f) :=
  fun s => (hm s).bind hs hf

theorem discard {m : Declaring α} (hm : Levels text k names p m) :
    Levels text k names p (discard m) :=
  fun s => (hm s).discard

theorem ite {b : Prop} [Decidable b] {m n : Declaring α} (hm : Levels text k names p m)
    (hn : Levels text k names p n) : Levels text k names p (if b then m else n) := by
  split
  · exact hm
  · exact hn

theorem forM {f : α → Declaring PUnit} {as : List α} (h : ∀ a ∈ as, Levels text k names p (f a))
    (hs : k = .classBody → ∀ a ∈ as, Steady (f a)) : Levels text k names p (as.forM f) := by
  induction as with
  | nil => exact pure ()
  | cons a as ih =>
    refine bind (h a List.mem_cons_self) (fun hk => hs hk a List.mem_cons_self) fun _ => ?_
    exact ih (fun b hb => h b (List.mem_cons_of_mem a hb))
      fun hk b hb => hs hk b (List.mem_cons_of_mem a hb)

theorem add {symbol : Symbol} (hparent : symbol.parent = some p.scope)
    (hlevel : symbol.kind.hasLevel = false) : Levels text k names p (Declare.add symbol) :=
  fun _ => .add hparent fun _ hk => absurd hk (Bool.eq_false_iff.mp hlevel)

theorem modifyScope {f : Scope → Scope} (hcore : ∀ s, (f s).core = s.core) :
    Levels text k names p (change (·.modifyScope p.scope f)) :=
  fun s _ => .of_size (SymbolTable.extends_modifyScope hcore s.table p.scope) rfl

/-- What follows is declared in a scope of its own, which is not the body of a class. -/
theorem enter (names' : Set Nat) (hk : k' ≠ .classBody) (owner : Option SymbolId) (span : Span)
    {f : Place → Declaring α}
    (hf : ∀ scope, Levels text k' names' ⟨p.file, scope⟩ (f ⟨p.file, scope⟩)) :
    Levels text k names p (p.enter k' owner span >>= f) := by
  intro s hp
  rw [enter_run]
  have hentered : LevelStep text k p.scope s.access names s.table
      (s.table.addScope k' p.scope owner span).2 :=
    .of_size (SymbolTable.extends_addScope ..) (SymbolTable.size_symbols_addScope ..)
  have hrest := hf (s.table.addScope k' p.scope owner span).1 ⟨_, s.access⟩
    (.addScope hp.toIsIn k' owner span)
  exact hentered.trans (hrest.of_kind hk)

theorem withAccess (hk : k ≠ .classBody) (access : Option Access) {body : Declaring Unit}
    (h : Levels text k names p body) : Levels text k names p (withAccess access body) :=
  fun s hp => (h ⟨s.table, access⟩ hp).of_kind hk

end Levels

section

variable {t u outer specs c list : Tree} {front back : List Tree} {params : List String}

theorem memberAccess_run (hp : s.table.IsOf p.file .classBody p.scope) :
    ((p.memberAccess).run s).1 = s.access := by
  have hrun : p.memberAccess.run s =
      (if (s.table.scope p.scope).kind == .classBody then do return (← MonadState.get).access
        else pure none : Declaring (Option Access)).run s := rfl
  rw [hrun, if_pos (beq_iff_eq.mpr hp.kind)]
  rfl

theorem templateSymbols_level {symbol : Symbol} (h : symbol ∈ templateSymbols p params outer) :
    symbol.parent = some p.scope ∧ symbol.kind.hasLevel = false := by
  unfold templateSymbols at h
  split at h
  · obtain ⟨param, -, hs⟩ := List.mem_filterMap.mp h
    obtain ⟨token, -, hs⟩ := Option.bind_eq_some_iff.mp hs
    split at hs
    · cases hs
      exact ⟨rfl, rfl⟩
    · cases hs
  · cases h

theorem declareTemplateParameters_levels (params : List String) (outer : Tree) :
    Levels text k names p (declareTemplateParameters p params outer) := by
  intro s hp
  rw [declareTemplateParameters_run]
  exact .addAll _ hp.lt fun _ => templateSymbols_level

theorem declareParameter_levels (param : Tree) :
    Levels text k names p (declareParameter p param) := by
  intro s hp
  rw [declareParameter_run]
  refine .addAll _ hp.lt fun symbol hs => ?_
  obtain ⟨segment, -, rfl⟩ := Option.map_eq_some_iff.mp (Option.mem_toList.mp hs)
  dsimp only
  split
  · exact ⟨rfl, rfl⟩
  · exact ⟨rfl, rfl⟩

theorem declareForward_levels (h : IsTreeOf text t) (params : List String) (outer : Tree) :
    Levels text k t.span.offsets p (declareForward p t params outer) := by
  unfold declareForward
  split
  · exact .pure ()
  · rename_i name hname
    refine .ite ?_ (.pure ())
    split
    · exact .pure ()
    · rename_i segment hs
      have hpart := Tree.mem_parts_of_child? hname
      have hstart := (h.part_within hpart).offsets ((h.part hpart).last?_start hs)
      exact fun s => .read .get .get (.discard (.add rfl fun _ _ => ⟨rfl, hstart⟩))

theorem declareNamespaceAlias_levels (t outer : Tree) :
    Levels text k names p (declareNamespaceAlias p t outer) := by
  unfold declareNamespaceAlias
  split
  · exact .discard (.add rfl rfl)
  · exact .pure ()

theorem declareAlias_levels (h : IsTreeOf text t) (params : List String) (outer : Tree) :
    Levels text k t.span.offsets p (declareAlias p t params outer) := by
  unfold declareAlias
  split
  · exact .pure ()
  · rename_i name hname
    have hstart := h.tokens_start (List.mem_of_find?_eq_some hname)
    exact fun s => .read .get .get (.discard (.add rfl fun _ _ => ⟨rfl, hstart⟩))

theorem declareDeclarator_levels (h : IsTreeOf text t) (specs : Tree) (target : Option SymbolId)
    (params : List String) (outer : Tree) :
    Levels text k t.span.offsets p (declareDeclarator p specs target params outer t) := by
  unfold declareDeclarator
  split
  · rename_i segment hs
    obtain ⟨name, hname, hs⟩ := Option.map_eq_some_iff.mp hs
    have hstart := (segment_start h hname (hs ▸ List.mem_singleton_self segment)).1
    refine fun s hp => LevelsFrom.read (isClassBody_silent p) (.isClassBody p)
      (.read (memberAccess_silent p) (.memberAccess p) ?_) hp
    have haccess (hk : k = .classBody) : ((p.memberAccess).run s).1 = s.access :=
      memberAccess_run (hk ▸ hp)
    refine LevelsFrom.add ?_ fun hk _ => ⟨?_, ?_⟩
    · split_ifs <;> rfl
    · split_ifs <;> exact haccess hk
    · split_ifs <;> exact hstart
  · exact .pure ()

theorem declareEnum_levels (h : IsTreeOf text t) (hk : t.isChild .enumSpec = true) (outer : Tree) :
    Levels text k t.span.offsets p (declareEnum p t outer) := by
  have hstart := (typeName_start h hk rfl).1
  unfold declareEnum
  refine fun s => .read .get .get (.bind (.add rfl fun _ _ => ⟨rfl, hstart⟩) (fun _ => .run _)
    fun _ => ?_)
  split
  · exact .pure none
  · refine .enter ∅ (nofun : ScopeKind.enumBody ≠ .classBody) _ _ fun scope => ?_
    refine .bind (.forM (fun e _ => ?_) nofun) nofun fun _ => .pure _
    split
    · exact .discard (.add rfl rfl)
    · exact .pure ()

theorem visit_specifier {n : Nat} (hn : t.depth ≤ n) (hnode : t.isNode = true)
    (ht : t.specifies = true) (params : List String) (outer : Tree) (s : State) :
    (visit n p (.item t params outer)).run s =
      ((), ⟨s.table, some (AccessSection.access t.withoutTemplates)⟩) := by
  induction t using Tree.templates_induction generalizing n params with
  | here t hself =>
    cases n with
    | zero => exact absurd hn (Nat.not_le.mpr (Tree.depth_pos hnode))
    | succ n =>
      have hk : t.kind = .accessSpec := by
        rw [Tree.specifies, hself] at ht
        exact beq_iff_eq.mp ht
      rw [visit, declareItem, hk, hself]
      rfl
  | template t u hk hu ih =>
    cases n with
    | zero => exact absurd hn (Nat.not_le.mpr (Tree.depth_pos hnode))
    | succ n =>
      obtain ⟨hpart, hitem⟩ := Tree.mem_items.mp (Tree.mem_items_of_item? hu)
      have hlt := Tree.depth_lt hpart
      rw [Tree.specifies_template hk hu] at ht
      rw [visit, declareItem, hk, hu, Tree.withoutTemplates_template hk hu]
      exact ih (by omega) (Bool.and_eq_true_iff.mp hitem).1 ht _

namespace Visit

/-- How deep the walk may go from there. -/
def depth : Visit → Nat
  | item t _ _ => 2 * t.depth
  | statement t => 2 * t.depth + 1

/-- The walk through a text comes there in a scope of that kind. Directly in a class it comes to
items only, and of these the specifiers are seen to apart. -/
def IsAmong (text : String) (k : ScopeKind) : Visit → Prop
  | item t _ _ => IsTreeOf text t ∧ (k = .classBody → ¬ t.BeginsSection)
  | statement t => IsTreeOf text t ∧ k ≠ .classBody

end Visit

theorem enterNamespaces_levels (span : Span) (isInline : Bool) (xs : List (String × Span))
    {f : Place → Declaring α}
    (hf : ∀ k scope, Levels text k names ⟨p.file, scope⟩ (f ⟨p.file, scope⟩)) :
    Levels text k names p (enterNamespaces span isInline xs p >>= f) := by
  cases xs with
  | nil => exact hf k p.scope
  | cons x xs =>
    intro s hp
    rw [StateT.run_bind, enterNamespaces_run]
    have hopened : LevelStep text k p.scope s.access names s.table _ :=
      .openBlocks hp.toIsIn span isInline (x :: xs)
    have hin := IsOf.openBlocks hp.toIsIn span isInline x xs
    generalize SymbolTable.openBlocks span isInline (x :: xs) p.scope s.table = opened at *
    have hrest := hf .namespaceBlock opened.1 ⟨opened.2, s.access⟩ hin
    exact hopened.trans (hrest.of_kind nofun)

variable {n : Nat} (ih : ∀ {k : ScopeKind} {p : Place} (v : Visit), v.IsAmong text k →
  v.depth ≤ n → Levels text k v.tree.span.offsets p (visit n p v))

include ih

theorem part_levels (h : IsTreeOf text t) (hu : u ∈ t.parts)
    (hk : k = .classBody → ¬ u.BeginsSection) (hn : 2 * t.depth ≤ n + 2) (params : List String)
    (outer : Tree) : Levels text k t.span.offsets p (visit n p (.item u params outer)) := by
  have hlt := Tree.depth_lt hu
  refine (ih (.item u params outer) ⟨h.part hu, hk⟩ ?_).mono (h.part_within hu).offsets
  rw [Visit.depth]
  omega

theorem items_levels (h : IsTreeOf text t) (hk : k = .classBody → ∀ u ∈ t.items, ¬ u.BeginsSection)
    (hn : 2 * t.depth ≤ n + 2) :
    Levels text k t.span.offsets p (t.items.forM fun u => visit n p (.ofItem u)) := by
  refine .forM (fun u hu => ?_) fun hk' u hu => visit_steady p [] u n (hk hk' u hu)
  exact part_levels ih h (Tree.mem_items.mp hu).1 (fun hk' => hk hk' u hu) hn [] u

theorem statements_levels (h : IsTreeOf text t) (hk : k ≠ .classBody) (hn : 2 * t.depth ≤ n + 1) :
    Levels text k names p (t.children.forM fun u => visit n p (.statement u)) := by
  refine .forM (fun u hu => ?_) fun hk' => absurd hk' hk
  have hpart := (List.mem_filter.mp hu).1
  have hlt := Tree.depth_lt hpart
  refine fun s hp => (ih (.statement u) ⟨h.part hpart, hk⟩ ?_ s hp).of_kind hk
  rw [Visit.depth]
  omega

/-- The members of a class have the levels of their places: the walk is at each of them at the level
of the section behind those before. -/
theorem members_levels (hlist : IsTreeOf text list) (hn : 2 * list.depth ≤ n + 2)
    (hitems : list.items = front ++ back) (hp : s.table.IsOf p.file .classBody p.scope)
    (hbody : s.table.IsBody text p.scope c list)
    (haccess : s.access = some (Class.sectionBehind c front).access) :
    LevelStep text .block p.scope none ∅ s.table
      ((back.forM fun u => visit n p (.ofItem u)).run s).2.table := by
  induction back generalizing front s with
  | nil => exact .refl s.table
  | cons m back ihBack =>
    have hcons : ((m :: back).forM fun u => visit n p (.ofItem u)).run s =
        (back.forM fun u => visit n p (.ofItem u)).run ((visit n p (.ofItem m)).run s).2 := rfl
    have hm : m ∈ list.items := hitems ▸ List.mem_append_right front List.mem_cons_self
    obtain ⟨hpart, hitem⟩ := Tree.mem_items.mp hm
    have hnode := (Bool.and_eq_true_iff.mp hitem).1
    have hdepth := Tree.depth_lt hpart
    have hitems' : list.items = (front ++ [m]) ++ back := by rw [hitems, List.append_assoc]; rfl
    rw [hcons]
    cases hspec : m.specifies with
    | true =>
      rw [Visit.ofItem, visit_specifier (by omega) hnode hspec]
      refine ihBack (s := ⟨s.table, some (AccessSection.access m.withoutTemplates)⟩) hitems' hp
        hbody ?_
      rw [Class.sectionBehind_concat, Section.next_specifier hspec]
      rfl
    | false =>
      have hbegins : ¬ m.BeginsSection := fun hb =>
        Bool.false_ne_true (hspec.symm.trans ((hlist.part hpart).specifies_of_beginsSection hb))
      have hsteady := (visit_steady p [] m n hbegins).access s
      have hstep := ih (.item m [] m) ⟨hlist.part hpart, fun _ => hbegins⟩
        (by rw [Visit.depth]; omega) s hp
      rw [Visit.ofItem]
      generalize ((visit n p (.item m [] m)).run s).2 = s' at *
      have hleveled : LevelStep text .block p.scope none ∅ s.table s'.table :=
        hstep.of_body hp.lt hbody fun o ho => by
          rw [haccess, hlist.levelAt_item hitems hspec ho]
      refine hleveled.trans (ihBack hitems' (hp.mono hstep.toExtends) ?_ ?_)
      · exact hbody.mono hp.lt hstep.toExtends
      · rw [Class.sectionBehind_concat, Section.next_member hspec, hsteady, haccess]

theorem classBody_levels (h : IsTreeOf text t) (hk : t.isChild .classSpec = true)
    (hlist : Class.members? t = some list) (hn : 2 * list.depth ≤ n + 2) (i : SymbolId)
    (params : List String) (outer : Tree) : Levels text k names p (do
      let inner ← p.enter .classBody (some i) list.span
      withAccess (some (Class.defaultAccess t)) do
        declareTemplateParameters inner params outer
        list.items.forM fun u => visit n inner (.ofItem u)
      return some i) := by
  intro s hp
  rw [enter_run]
  have hself := s.table.scope_addScope_self .classBody p.scope (some i) list.span
  have hentered : LevelStep text k p.scope s.access names s.table
      (s.table.addScope .classBody p.scope (some i) list.span).2 :=
    .of_size (SymbolTable.extends_addScope ..) (SymbolTable.size_symbols_addScope ..)
  have hin := IsOf.addScope hp.toIsIn .classBody (some i) list.span
  rw [SymbolTable.addScope_fst] at hin ⊢
  generalize (s.table.addScope .classBody p.scope (some i) list.span).2 = u at *
  generalize s.table.scopes.size = b at *
  have hbody : u.IsBody text b t list :=
    ⟨h, (Tree.kind_of_isChild hk).2, hlist, by rw [hself]; rfl⟩
  have hparameters : LevelStep text k p.scope s.access names u
      (u.addAll (templateSymbols ⟨p.file, b⟩ params outer)) :=
    .addAll _ hin.lt fun _ => templateSymbols_level
  have hmembers := members_levels ih (p := ⟨p.file, b⟩)
    (s := ⟨u.addAll (templateSymbols ⟨p.file, b⟩ params outer), some (Class.defaultAccess t)⟩)
    (h.child hlist) hn (List.nil_append _).symm (hin.mono hparameters.toExtends)
    (hbody.mono hin.lt hparameters.toExtends) rfl
  change LevelStep text k p.scope s.access names s.table
    (((declareTemplateParameters ⟨p.file, b⟩ params outer >>= fun _ =>
      list.items.forM fun u => visit n ⟨p.file, b⟩ (.ofItem u)).run
        ⟨u, some (Class.defaultAccess t)⟩).2.table)
  rw [StateT.run_bind, declareTemplateParameters_run]
  exact (hentered.trans hparameters).trans (hmembers.of_kind nofun)

theorem declareClass_levels (h : IsTreeOf text t) (hk : t.isChild .classSpec = true)
    (hn : 2 * t.depth ≤ n + 2) (params : List String) (outer : Tree) :
    Levels text k t.span.offsets p (declareClass (visit n) p t params outer) := by
  have hstart := (typeName_start h hk rfl).1
  unfold declareClass
  refine fun s => .read .get .get (.bind (.add rfl fun _ _ => ⟨rfl, hstart⟩) (fun _ => .run _)
    fun i => ?_)
  split
  · exact .pure none
  · rename_i list hlist
    have hlt := Tree.depth_lt (Tree.mem_parts_of_child? hlist)
    exact classBody_levels ih h hk hlist (by omega) i params outer

theorem declareSimple_levels (h : IsTreeOf text t) (hn : 2 * t.depth ≤ n + 2)
    (params : List String) (outer : Tree) :
    Levels text k t.span.offsets p (declareSimple (visit n) p t params outer) := by
  unfold declareSimple
  split
  · exact .pure ()
  · rename_i specs hspecs
    have hpart := Tree.mem_parts_of_child? hspecs
    have hlt := Tree.depth_lt hpart
    have hin {u : Tree} {kind : Kind} (hu : specs.child? kind = some u) :
        IsTreeOf text u ∧ u.isChild kind = true ∧ u.depth < specs.depth ∧
          u.span.offsets ⊆ t.span.offsets := by
      have hpart' := Tree.mem_parts_of_child? hu
      exact ⟨(h.part hpart).part hpart', Tree.isChild_of_child? hu, Tree.depth_lt hpart',
        (((h.part hpart).part_within hpart').trans (h.part_within hpart)).offsets⟩
    have hdeclarators (target : Option SymbolId) : Levels text k t.span.offsets p
        (((t.childrenOf .initDeclarator).filterMap Tree.declarator?).forM
          (declareDeclarator p specs target params outer)) := by
      refine .forM (fun d hd => ?_) fun _ d _ => declareDeclarator_steady ..
      obtain ⟨u, hu, hd⟩ := List.mem_filterMap.mp hd
      have hu := (Tree.isChild_of_childrenOf hu).1
      have hd := Tree.mem_parts_of_child? hd
      refine (declareDeclarator_levels ((h.part hu).part hd) specs target params outer).mono ?_
      exact (((h.part hu).part_within hd).trans (h.part_within hu)).offsets
    dsimp only
    split
    · rename_i c _ _ hc
      obtain ⟨hc, hk, hdepth, hoffsets⟩ := hin hc
      refine .bind (.mono (declareClass_levels ih hc hk (by omega) params outer) hoffsets)
        (fun _ => declareClass_steady ..) hdeclarators
    · rename_i e _ he
      obtain ⟨he, hk, -, hoffsets⟩ := hin he
      exact .bind (.mono (declareEnum_levels he hk outer) hoffsets)
        (fun _ => declareEnum_steady ..) hdeclarators
    · rename_i e he
      obtain ⟨he, -, -, hoffsets⟩ := hin he
      have hnone := Levels.bind (.pure none) (fun _ => .pure none) hdeclarators
      exact .ite (.bind (.mono (declareForward_levels he params outer) hoffsets)
        (fun _ => declareForward_steady ..) fun _ => hnone) hnone
    · exact .bind (.pure none) (fun _ => .pure none) hdeclarators

theorem functionScope_levels (h : IsTreeOf text t) (hn : 2 * t.depth ≤ n + 1) (i : SymbolId)
    (span : Span) (list : List Tree) (params : List String) (outer : Tree) :
    Levels text k names p (do
      let inner ← p.enter .function (some i) span
      withAccess none do
        declareTemplateParameters inner params outer
        list.forM (declareParameter inner)
        (((t.child? .compoundStmt).map (·.children)).getD []).forM fun u =>
          visit n inner (.statement u)) := by
  have hk : ScopeKind.function ≠ .classBody := nofun
  refine .enter ∅ hk _ _ fun scope => .withAccess hk none ?_
  refine .bind (declareTemplateParameters_levels params outer) nofun fun _ => ?_
  refine .bind (.forM (fun param _ => declareParameter_levels param) nofun) nofun fun _ => ?_
  cases hb : t.child? .compoundStmt with
  | none => exact .pure ()
  | some body =>
    have hlt := Tree.depth_lt (Tree.mem_parts_of_child? hb)
    exact statements_levels ih (h.child hb) hk (by omega)

omit ih in
theorem functionSymbol_access (t d : Tree) (segment : Name.Segment) (qualified : Bool)
    (path : Option TypePath) (params : List String) (outer : Tree)
    (hp : s.table.IsOf p.file .classBody p.scope) :
    ((functionSymbol p t d segment qualified path params outer).run s).1.access = s.access := by
  have hrun : ((functionSymbol p t d segment qualified path params outer).run s).1.access =
      (p.memberAccess.run s).1 := by
    unfold functionSymbol
    cases t.specifiers? <;> rfl
  rw [hrun, memberAccess_run hp]

theorem declareFunction_levels (h : IsTreeOf text t) (hn : 2 * t.depth ≤ n + 1)
    (params : List String) (outer : Tree) :
    Levels text k t.span.offsets p (declareFunction (visit n) p t params outer) := by
  unfold declareFunction
  split
  · rename_i d name hdeclarator hname
    dsimp only
    split
    · exact .pure ()
    · rename_i segment hs
      have hpart := Tree.mem_parts_of_child? hdeclarator
      have hname' : Declarator.name? d = some name := by
        rwa [Tree.declaredName?, hdeclarator] at hname
      have hmem := (segment_start (h.part hpart) hname' (List.mem_of_getLast? hs)).1
      have hstart := (h.part_within hpart).offsets hmem
      refine fun s hp => LevelsFrom.read (functionSymbol_silent p t d segment _ _ params outer)
        (functionSymbol_steady p t params outer d segment _ _) ?_ hp
      obtain ⟨hfits, -, hspan⟩ : p.Fits ∅ _ ∧ _ := functionSymbol_fits t d segment
        (decide (1 < (Name.segments name).length)) (TypePath.ofName? name) params outer s
      have haccess (hk : k = .classBody) := functionSymbol_access t d segment
        (decide (1 < (Name.segments name).length)) (TypePath.ofName? name) params outer
        (s := s) (p := p) (hk ▸ hp)
      generalize ((functionSymbol p t d segment _ _ params outer).run s).1 = symbol at *
      have hsymbol (hk : k = .classBody) (_ : symbol.kind.hasLevel = true) :
          symbol.access = s.access ∧ symbol.nameSpan.start ∈ t.span.offsets :=
        ⟨haccess hk, hspan ▸ hstart⟩
      split
      · exact .addOutOfLine hfits.parent hsymbol fun i =>
          functionScope_levels ih h hn i _ _ params outer
      · exact .bind (.add hfits.parent hsymbol) (fun _ => .run _) fun i =>
          functionScope_levels ih h hn i _ _ params outer
  · exact .pure ()

theorem declareNamespace_levels (h : IsTreeOf text t) (hn : 2 * t.depth ≤ n + 2) :
    Levels text k t.span.offsets p (declareNamespace (visit n) p t) := by
  unfold declareNamespace
  split
  · exact .pure ()
  · rename_i body hbody
    have hpart := Tree.mem_parts_of_child? hbody
    have hlt := Tree.depth_lt hpart
    refine enterNamespaces_levels _ _ _ fun k scope => ?_
    refine .mono (items_levels ih (h.part hpart) (fun _ u hu hb => ?_) (by omega))
      (h.part_within hpart).offsets
    have hspec := ((h.part hpart).part (Tree.mem_items.mp hu).1).specifies_of_beginsSection hb
    have hkind := (Tree.kind_of_isChild (Tree.isChild_of_child? hbody)).2
    have hplain := (h.part hpart).item_specifies (by rw [hkind]; rfl) hu
    exact Bool.false_ne_true (hplain.symm.trans hspec)

theorem declareItem_levels (h : IsTreeOf text t) (hk : k = .classBody → ¬ t.BeginsSection)
    (hn : 2 * t.depth ≤ n + 1) (params : List String) (outer : Tree) :
    Levels text k t.span.offsets p (declareItem (visit n) p t params outer) := by
  have hitem {u : Tree} (ht : t.kind = .templateDecl ∨ t.kind = .linkageSpec)
      (hu : t.item? = some u) (params' : List String) :
      Levels text k t.span.offsets p (visit n p (.item u params' outer)) :=
    part_levels ih h (List.mem_of_find?_eq_some hu)
      (fun hbody hb => hk hbody (.inside (.item ht hu) hb)) (by omega) params' outer
  unfold declareItem
  split
  · exact declareNamespace_levels ih h (by omega)
  · exact declareNamespaceAlias_levels t outer
  · rename_i ht
    split
    · rename_i body hbody
      have hpart := Tree.mem_parts_of_child? hbody
      have hlt := Tree.depth_lt hpart
      refine .mono (items_levels ih (h.part hpart) (fun hk' u hu hb => ?_) (by omega))
        (h.part_within hpart).offsets
      exact hk hk' (.inside (.list (.inl ht) body hbody hu) hb)
    · rename_i item _ hi
      exact hitem (.inr ht) hi params
    · exact .pure ()
  · split
    · exact .modifyScope fun _ => rfl
    · exact .pure ()
  · split
    · exact .modifyScope fun _ => rfl
    · exact .pure ()
  · exact declareAlias_levels h params outer
  · rename_i ht
    split
    · rename_i item hi
      exact hitem (.inl ht) hi _
    · exact .pure ()
  · exact declareSimple_levels ih h (by omega) params outer
  · exact declareFunction_levels ih h hn params outer
  · exact .silent (.modify fun _ => rfl)
  · exact .pure ()

theorem declareStatement_levels (h : IsTreeOf text t) (hk : k ≠ .classBody)
    (hn : 2 * t.depth ≤ n) : Levels text k names p (declareStatement (visit n) p t) := by
  have hitem : Levels text k names p (visit n p (.ofItem t)) := fun s hp =>
    (ih (.item t [] t) ⟨h, fun hk' => absurd hk' hk⟩ hn s hp).of_kind hk
  have hblock : Levels text k names p (do
      let inner ← p.enter .block none t.span
      t.children.forM fun u => visit n inner (.statement u)) :=
    .enter ∅ (by decide) _ _ fun _ => statements_levels ih h (by decide) (by omega)
  unfold declareStatement
  split
  case h_16 => exact statements_levels ih h hk (by omega)
  case h_17 => exact declareParameter_levels t
  case h_18 => exact .pure ()
  all_goals first | exact hitem | exact hblock

omit ih

/-- The walk declares at the levels of places: one case for an item, one for a statement. -/
theorem visit_levels (n : Nat) {k : ScopeKind} {p : Place} (v : Visit) (hv : v.IsAmong text k)
    (hn : v.depth ≤ n) : Levels text k v.tree.span.offsets p (visit n p v) := by
  induction n generalizing k p v with
  | zero => exact .pure ()
  | succ n ih =>
    cases v with
    | item t params outer => exact declareItem_levels ih hv.1 hv.2 hn params outer
    | statement t =>
      exact declareStatement_levels ih hv.1 hv.2 (Nat.le_of_succ_le_succ hn)

end

end Declare

namespace SymbolTable

theorem declareFile_levels (t : SymbolTable) (file : FileId) (text : String) :
    LevelStep text .file t.scopes.size none (parse text).tree.span.offsets t
      (t.declareFile file (parse text).tree) := by
  have hroot : IsTreeOf text (parse text).tree := (parse text).tree.self_mem_preorder
  have hin : (t.addFile file (parse text).tree.span).2.IsOf file .file t.scopes.size := by
    refine ⟨t.isIn_addFile file _, ?_⟩
    rw [scope_addFile, if_pos rfl]
    rfl
  have hadd : LevelStep text .file t.scopes.size none (parse text).tree.span.offsets t
      (t.addFile file (parse text).tree.span).2 :=
    .of_size (t.extends_addFile file _) rfl
  have hwalk : Declare.Levels text .file (parse text).tree.span.offsets ⟨file, t.scopes.size⟩ _ :=
    Declare.items_levels (Declare.visit_levels (2 * (parse text).tree.depth)) hroot nofun (by omega)
  exact hadd.trans (hwalk ⟨_, none⟩ hin)

theorem leveled_lasting : Lasting fun root file t i =>
    (t.symbol i).file = file ∧ ∀ text, root = (parse text).tree → t.Leveled text (t.symbol i) where
  file h := h.1
  frame h hi hf := by
    have hcore := hf.symbol _ hi
    refine ⟨(Symbol.core_inj hcore).2.2.1.trans h.1, fun text hroot => ?_⟩
    exact (h.2 text hroot).mono hf.toExtends hcore
  declareFile {t} ht id root i hge hlt := by
    refine ⟨((declareFile_step ht id root).settled i hge hlt).file, fun text hroot => ?_⟩
    subst hroot
    refine ((t.declareFile_levels id text).symbol_new i hge hlt).resolve_right fun hs => ?_
    cases hs.kind

end SymbolTable

/-- What is declared directly in the body of a class, perhaps behind templates, has the access level
of the last specifier before it in that body, or the one that the key of the class gives. -/
theorem members_at_levels (searchPaths : List Path) (headers : List Header)
    (documents : PathMap Document) :
    let s := Snapshot.ofDocuments searchPaths headers documents
    ∀ i ∈ s.symbols.declared, (s.symbols.symbol i).kind.hasLevel = true →
      ∀ p, (s.symbols.symbol i).parent = some p → (s.symbols.scope p).kind = .classBody →
        ∃ f c list, s.file? (s.symbols.symbol i).file = some f ∧ c ∈ f.tree.preorder ∧
          c.kind = .classSpec ∧ Class.members? c = some list ∧
          (s.symbols.scope p).span = list.span ∧
          (s.symbols.symbol i).access =
            some (Class.levelAt c list (s.symbols.symbol i).nameSpan.start) := by
  intro s i hi hk p hp hbody
  obtain ⟨root, hroot, -, hleveled⟩ :=
    SymbolTable.leveled_lasting.symbols searchPaths headers documents i hi
  obtain ⟨f, hf, rfl⟩ := Option.map_eq_some_iff.mp hroot
  have hfile := hf
  rw [Snapshot.file?_ofDocuments] at hfile
  obtain ⟨⟨path, document⟩, -, rfl⟩ := List.mem_map.mp (List.mem_of_getElem? hfile)
  obtain ⟨c, list, hc, haccess⟩ := (hleveled document.text rfl).level hk p hp hbody
  exact ⟨_, c, list, hf, hc.tree, hc.kind, hc.members, hc.span, haccess⟩

/-- Neither a class in a class nor one in a function changes the level behind it. -/
theorem level_behind_classes :
    let text := "class A \x7b\npublic:\n    struct B \x7b private: int b; \x7d;\n" ++
      "    void f() \x7b class L \x7b int l; \x7d; \x7d\n    int x;\n\x7d;\n"
    let s := Snapshot.ofDocuments [] [] ⟨[(.ofString "/a.cpp", ⟨text, 0⟩)]⟩
    (s.symbols.symbol 7).name = "x" ∧
      ∃ f c list, s.file? (s.symbols.symbol 7).file = some f ∧ c ∈ f.tree.preorder ∧
        c.kind = .classSpec ∧ Class.members? c = some list ∧
        Class.levelAt c list (s.symbols.symbol 7).nameSpan.start = .pub := by
  intro text
  dsimp only
  have hx : let t := (Snapshot.ofDocuments [] [] ⟨[(.ofString "/a.cpp", ⟨text, 0⟩)]⟩).symbols
      (t.symbol 7).name = "x" ∧ 7 ∈ t.declared ∧ (t.symbol 7).kind.hasLevel = true ∧
        (t.symbol 7).parent = some 1 ∧ (t.scope 1).kind = .classBody ∧
        (t.symbol 7).access = some .pub := by
    decide +kernel
  obtain ⟨hname, hdeclared, hlevel, hparent, hbody, hx⟩ := hx
  obtain ⟨f, c, list, hf, hc, hk, hlist, -, haccess⟩ :=
    members_at_levels [] [] _ 7 hdeclared hlevel 1 hparent hbody
  exact ⟨hname, f, c, list, hf, hc, hk, hlist, Option.some.inj (haccess.symm.trans hx)⟩

end CppRefactor
