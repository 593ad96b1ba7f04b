import CppRefactor.Proofs.Symbols.Outside
import CppRefactor.Symbols.Typing

/-!
Lookups from inside blocks. The way of a lookup leads through the blocks to the scope around them,
and on from there: a name means in a block what it means around it, unless the block has a meaning
of its own for it. A reference that is just a name stands for one of the symbols that are found.
-/

namespace CppRefactor

namespace SymbolTable

variable (t : SymbolTable) {scope inner outer : ScopeId}

theorem mem_chainFrom (n : Nat) (passed : List ScopeId) (scope : ScopeId) :
    scope ∈ t.chainFrom (n + 1) passed scope := by
  cases h : passed.contains scope with
  | true =>
    rw [chainFrom_contains t (n + 1) h]
    exact List.contains_iff_mem.mp h
  | false =>
    rw [chainFrom_step t n h]
    exact (t.prefix_chainOn ..).subset (List.mem_append_right _ List.mem_cons_self)

theorem chainFrom_append {front : List ScopeId} (n : Nat) (passed : List ScopeId) (scope : ScopeId)
    (h : ∀ s ∈ front, s ∉ t.chainFrom n passed scope) :
    t.chainFrom n (front ++ passed) scope = front ++ t.chainFrom n passed scope := by
  induction n generalizing passed scope with
  | zero => rfl
  | succ n ih =>
    cases hpassed : passed.contains scope with
    | true =>
      have hfront : (front ++ passed).contains scope = true := by
        rw [List.contains_iff_mem] at hpassed ⊢
        exact List.mem_append_right _ hpassed
      rw [chainFrom_contains t (n + 1) hpassed, chainFrom_contains t (n + 1) hfront]
    | false =>
      have hfront : (front ++ passed).contains scope = false := by
        rw [List.contains_eq_mem, decide_eq_false_iff_not] at hpassed ⊢
        intro hmem
        rcases List.mem_append.mp hmem with hmem | hmem
        · exact h scope hmem (t.mem_chainFrom n passed scope)
        · exact hpassed hmem
      rw [chainFrom_step t n hpassed] at h ⊢
      rw [chainFrom_step t n hfront, List.append_assoc]
      cases hnext : (t.stepFrom scope).2 with
      | none => rfl
      | some outer =>
        rw [hnext] at h
        exact ih _ outer h

theorem chainFrom_succ (n : Nat) (passed : List ScopeId) (scope : ScopeId)
    (h : (t.chainFrom (n + 1) passed scope).length ≤ passed.length + n) :
    t.chainFrom (n + 1) passed scope = t.chainFrom n passed scope := by
  induction n generalizing passed scope with
  | zero =>
    cases hpassed : passed.contains scope with
    | true => exact chainFrom_contains t 1 hpassed
    | false =>
      rw [chainFrom_step t 0 hpassed] at h
      have hlength := (t.prefix_chainOn 0 (passed ++ scope :: (t.stepFrom scope).1)
        (t.stepFrom scope).2).length_le
      simp only [List.length_append, List.length_cons] at hlength
      omega
  | succ n ih =>
    cases hpassed : passed.contains scope with
    | true => rw [chainFrom_contains t (n + 2) hpassed, chainFrom_contains t (n + 1) hpassed]
    | false =>
      rw [chainFrom_step t (n + 1) hpassed] at h ⊢
      rw [chainFrom_step t n hpassed]
      cases hnext : (t.stepFrom scope).2 with
      | none => rfl
      | some outer =>
        rw [hnext] at h
        refine ih _ outer (Nat.le_trans h ?_)
        simp only [List.length_append, List.length_cons]
        omega

/-- The way from a scope leads through blocks, and then on as from another scope. -/
structure Inside (t : SymbolTable) (inner outer : ScopeId) (blocks : List ScopeId) : Prop where
  order : t.lookupOrder inner = blocks ++ t.lookupOrder outer
  plain : ∀ b ∈ blocks, (t.scope b).isNamespaceBody = false

namespace Inside

variable {t} {blocks : List ScopeId}

theorem refl (t : SymbolTable) (scope : ScopeId) : t.Inside scope scope [] where
  order := rfl
  plain _ h := nomatch h

theorem trans (h : t.Inside inner scope blocks) (h' : t.Inside scope outer blocks') :
    t.Inside inner outer (blocks ++ blocks') where
  order := by rw [h.order, h'.order, List.append_assoc]
  plain b hb := (List.mem_append.mp hb).elim (h.plain b) (h'.plain b)

/-- A block is inside the scope around it, if the way from there does not come back to it. -/
theorem of_parent (hparent : (t.scope inner).parent = some outer)
    (hkind : (t.scope inner).kind = .block) (hcontext : (t.scope inner).classContext = none)
    (hback : inner ∉ t.lookupOrder outer) (hends : (t.lookupOrder outer).length ≤ t.scopes.size) :
    t.Inside inner outer [inner] where
  order := by
    have hstop := t.chainFrom_succ t.scopes.size [] outer (by simpa [lookupOrder] using hends)
    have hway : ∀ s ∈ [inner], s ∉ t.chainFrom t.scopes.size [] outer := by
      intro s hs
      rw [List.mem_singleton.mp hs, ← hstop]
      exact hback
    rw [lookupOrder, chainFrom_plain t rfl hcontext, hparent, lookupOrder, hstop]
    exact t.chainFrom_append _ _ _ hway
  plain b hb := by
    rw [List.mem_singleton.mp hb, Scope.isNamespaceBody, hkind]
    rfl

end Inside

end SymbolTable

/-- The query from another scope at the same place. -/
def Query.inside (q : Query) (scope : ScopeId) : Query := { q with site := { q.site with scope } }

namespace SymbolTable

variable {t : SymbolTable} {q q' : Query} {blocks : List ScopeId}

/-- What blocks themselves have for a name. -/
def meaningIn (t : SymbolTable) (q : Query) (blocks : List ScopeId) (name : String) :
    List SymbolId :=
  t.alongChain (t.level (lookupDepth - 1)) q name [] blocks

theorem SeeSame.inside (t : SymbolTable) (q : Query) (scope : ScopeId) :
    t.SeeSame q (q.inside scope) where
  filter := rfl
  disabled := rfl
  file := rfl
  symbols _ := rfl
  declarations _ _ _ _ := Iff.rfl
  directives _ _ _ _ := Iff.rfl

/-- A name in a block has the block's own meaning, or else the one it has around the block. -/
theorem Inside.lookup (h : t.Inside q.site.scope outer blocks) (name : String) :
    t.lookup q name =
      if (t.meaningIn q blocks name).isEmpty then t.lookup (q.inside outer) name
        else t.meaningIn q blocks name := by
  change t.alongChain (t.level (lookupDepth - 1)) q name [] (t.lookupOrder q.site.scope) = _
  rw [h.order, t.alongChain_append h.plain, (SeeSame.inside t q outer).alongChain _ _ _
    (t.lookupOrder outer)]
  rfl

theorem Inside.lookup_free (h : t.Inside q.site.scope outer blocks)
    (hfree : t.meaningIn q blocks name = []) :
    t.lookup q name = t.lookup (q.inside outer) name := by
  rw [h.lookup, hfree]
  rfl

theorem Inside.lookup_hidden (h : t.Inside q.site.scope outer blocks)
    (hidden : t.meaningIn q blocks name ≠ []) : t.lookup q name = t.meaningIn q blocks name := by
  rw [h.lookup, if_neg]
  exact fun hempty => hidden (List.isEmpty_iff.mp hempty)

/-- A symbol of a function is declared before a place, and none before it there has its name. -/
structure FirstNamed (t : SymbolTable) (q : Query) (function : ScopeId) (name : String)
    (symbol : SymbolId) : Prop where
  kind : (t.scope function).kind = .function
  members : ∃ front behind, (t.scope function).members = front ++ symbol :: behind ∧
    ∀ m ∈ front, (t.symbol m).name ≠ name ∧ t.exposedEnumerators m = []
  matched : t.matchesQuery q name symbol = true
  before : isDeclaredBefore q (t.symbol symbol) = true

variable {function : ScopeId} {symbol : SymbolId}

namespace FirstNamed

theorem inScope (h : t.FirstNamed q function name symbol) (below : Level) :
    ∃ rest, t.inScope below true q function name = symbol :: rest := by
  obtain ⟨front, behind, hmembers, hfront⟩ := h.members
  have hskipped : ((front.filter fun m => isDeclaredBefore q (t.symbol m)).flatMap fun m =>
      m :: t.exposedEnumerators m).filter (t.matchesQuery q name) = [] := by
    refine List.filter_eq_nil_iff.mpr fun m hm => ?_
    obtain ⟨m', hm', hm⟩ := List.mem_flatMap.mp hm
    obtain ⟨hname, hnone⟩ := hfront m' (List.mem_filter.mp hm').1
    rw [hnone, List.mem_singleton] at hm
    simp [SymbolTable.matchesQuery, hm, hname]
  simp only [SymbolTable.inScope, hmembers, Bool.not_true, Bool.false_or, List.filter_append,
    List.flatMap_append, hskipped, List.filter_cons, h.before, ↓reduceIte, List.flatMap_cons,
    List.cons_append, h.matched, List.nil_append]
  exact ⟨_, rfl⟩

theorem lookup (h : t.FirstNamed q q.site.scope name symbol) :
    ∃ rest, t.lookup q name = symbol :: rest := by
  obtain ⟨found, hfound⟩ := h.inScope (t.level (lookupDepth - 1))
  obtain ⟨rest, hrest⟩ := distinct_cons symbol found
  obtain ⟨outer, houter⟩ := t.prefix_chainOn t.scopes.size
    (q.site.scope :: (t.stepFrom q.site.scope).1) (t.stepFrom q.site.scope).2
  refine ⟨rest, ?_⟩
  change t.alongChain (t.level (lookupDepth - 1)) q name [] (t.lookupOrder q.site.scope) = _
  rw [lookupOrder, t.chainFrom_step _ rfl, List.nil_append, ← houter, List.cons_append,
    alongChain, inChainScope, h.kind]
  simp only [hfound]
  exact hrest

end FirstNamed

/-- A reference without a qualifier that names no member, and where it stands. -/
structure IsBare (t : SymbolTable) (file : FileId) (reference : Cursor) (name : String)
    (site : Site) : Prop where
  plain : NameReference.isMember reference = false
  named : ∃ tree args, reference.focus.name? = some tree ∧
    TypePath.ofName? tree = some ⟨false, [⟨name, args⟩]⟩ ∧
    t.siteAt? file tree.span.start = some site

/-- The first object of some symbols, or else the first symbol. -/
def firstObject? (t : SymbolTable) (found : List SymbolId) : Option SymbolId :=
  (found.find? fun s => (t.symbol s).kind.isObject).or found.head?

theorem exists_firstObject? {found : List SymbolId} (h : found ≠ []) :
    ∃ chosen ∈ found, t.firstObject? found = some chosen := by
  cases hchosen : t.firstObject? found with
  | none => exact absurd (List.head?_eq_none_iff.mp (Option.or_eq_none_iff.mp hchosen).2) h
  | some chosen =>
    refine ⟨chosen, ?_, rfl⟩
    rcases Option.or_eq_some_iff.mp hchosen with hchosen | ⟨-, hchosen⟩
    · exact List.mem_of_find?_eq_some hchosen
    · exact List.mem_of_mem_head? hchosen

theorem IsBare.resolve (h : t.IsBare file reference name site) :
    t.resolveReference file reference = t.firstObject? (t.lookup ⟨site, .any, []⟩ name) := by
  obtain ⟨tree, args, htree, hpath, hsite⟩ := h.named
  rw [resolveReference, h.plain, htree, if_neg Bool.false_ne_true]
  change ((t.resolveName _ file tree).bind fun typed => some typed.symbol) = _
  rw [resolveName, hpath, hsite]
  change ((t.firstObject? (t.lookup ⟨site, .any, []⟩ name)).bind _).bind _ = _
  cases t.firstObject? (t.lookup ⟨site, .any, []⟩ name) with
  | none => rfl
  | some symbol => rfl

/-- In blocks of a function a name stands for the first object of that name in the function, if they
have no meaning of their own for it. -/
theorem IsBare.resolve_first (h : t.IsBare file reference name site)
    (hin : t.Inside site.scope function blocks)
    (hfree : t.meaningIn ⟨site, .any, []⟩ blocks name = [])
    (hfirst : t.FirstNamed (Query.inside ⟨site, .any, []⟩ function) function name symbol)
    (hobject : (t.symbol symbol).kind.isObject = true) :
    t.resolveReference file reference = some symbol := by
  obtain ⟨rest, hrest⟩ := hfirst.lookup
  rw [h.resolve, Inside.lookup_free hin hfree, hrest, firstObject?, List.find?_cons, hobject]
  rfl

theorem IsBare.resolve_hidden (h : t.IsBare file reference name site)
    (hin : t.Inside site.scope function blocks)
    (hidden : t.meaningIn ⟨site, .any, []⟩ blocks name ≠ []) :
    ∃ other ∈ t.meaningIn ⟨site, .any, []⟩ blocks name,
      t.resolveReference file reference = some other := by
  obtain ⟨other, hother, hchosen⟩ := t.exists_firstObject? hidden
  refine ⟨other, hother, ?_⟩
  rw [h.resolve, Inside.lookup_hidden hin hidden, hchosen]

end SymbolTable

end CppRefactor
