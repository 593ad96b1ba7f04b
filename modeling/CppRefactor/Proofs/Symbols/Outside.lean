import CppRefactor.Proofs.Symbols.Lookup
import Mathlib.Data.Option.Basic

/-!
Lookups from the body of a member that is defined outside its class. The way leads through the same
classes as from inside, and what is found in a class does not depend on the place of the lookup.
Behind the classes it does: there a name is found from where it is visible and declared before.
-/

namespace CppRefactor

namespace SymbolTable

variable (t : SymbolTable) {scope body : ScopeId}

theorem inScope_site (below : Level) (q : Query) (site : Site) (id : ScopeId) (name : String) :
    t.inScope below false { q with site } id name = t.inScope below false q id name := rfl

theorem inClass_site (n : Nat) (q : Query) (site : Site) (cls : SymbolId) (name : String) :
    (t.level n).inClass { q with site } cls name = (t.level n).inClass q cls name := by
  induction n generalizing cls with
  | zero => rfl
  | succ n ih =>
    simp only [level, levelAbove, inClass, inScope_site, ih]

theorem inChainScope_site (h : (t.scope scope).kind = .classBody) (n : Nat)
    (q : Query) (site : Site) (name : String) (passed : List SymbolId) :
    t.inChainScope (t.level n) { q with site } name passed scope =
      t.inChainScope (t.level n) q name passed scope := by
  simp only [inChainScope, h]
  split
  · exact t.inClass_site (n + 1) q site _ name
  · rfl

theorem isNamespaceBody_of_classBody (h : (t.scope scope).kind = .classBody) :
    (t.scope scope).isNamespaceBody = false := by
  simp [Scope.isNamespaceBody, h]

/-- What is found in the first classes on a way is found from everywhere. -/
theorem alongChain_site {classes : List ScopeId} (hc : ∀ s ∈ classes, (t.scope s).kind = .classBody)
    (hfound : t.alongChain (t.level n) q name passed classes ≠ []) (site : Site)
    (rest : List ScopeId) :
    t.alongChain (t.level n) { q with site } name passed (classes ++ rest) =
      t.alongChain (t.level n) q name passed classes := by
  induction classes with
  | nil => exact absurd rfl hfound
  | cons cls classes ih =>
    have hcls := hc cls List.mem_cons_self
    have hbody := t.isNamespaceBody_of_classBody hcls
    simp only [List.cons_append, alongChain, inChainScope_site t hcls, hbody] at hfound ⊢
    split
    · rename_i h
      rw [h] at hfound
      exact ih (fun s hs => hc s (List.mem_cons_of_mem _ hs)) hfound
    · rfl

/-- What scopes that are no namespaces do not have is looked for behind them. -/
theorem alongChain_append {scopes : List ScopeId}
    (hplain : ∀ s ∈ scopes, (t.scope s).isNamespaceBody = false) (rest : List ScopeId) :
    t.alongChain below q name passed (scopes ++ rest) =
      if (t.alongChain below q name passed scopes).isEmpty
        then t.alongChain below q name passed rest
        else t.alongChain below q name passed scopes := by
  induction scopes with
  | nil => rfl
  | cons scope scopes ih =>
    simp only [List.cons_append, alongChain, hplain scope List.mem_cons_self]
    cases t.inChainScope below q name passed scope with
    | nil => exact ih fun s hs => hplain s (List.mem_cons_of_mem _ hs)
    | cons found others =>
      have hmem : found ∈ distinct (found :: others) := mem_distinct.mpr List.mem_cons_self
      have hfound : (distinct (found :: others)).isEmpty = false :=
        List.isEmpty_eq_false_iff.mpr (List.ne_nil_of_mem hmem)
      simp only [hfound]
      rfl

/-- Where a search goes on behind scopes that have been passed. -/
def chainOn (n : Nat) (passed : List ScopeId) : Option ScopeId → List ScopeId
  | some outer => t.chainFrom n passed outer
  | none => passed

theorem chainFrom_contains (n : Nat) (h : passed.contains scope = true) :
    t.chainFrom n passed scope = passed := by
  cases n with
  | zero => rfl
  | succ n => rw [chainFrom, if_pos h]

/-- The scopes that are passed behind a scope, and where the way goes on. -/
def stepFrom (scope : ScopeId) : List ScopeId × Option ScopeId :=
  match (t.scope scope).classContext with
  | some body => t.classScopes t.scopes.size body
  | none => ([], (t.scope scope).parent)

theorem chainFrom_step (n : Nat) (h : passed.contains scope = false) :
    t.chainFrom (n + 1) passed scope =
      t.chainOn n (passed ++ scope :: (t.stepFrom scope).1) (t.stepFrom scope).2 := by
  rw [chainFrom, h, if_neg Bool.false_ne_true, stepFrom]
  cases (t.scope scope).classContext with
  | none => cases (t.scope scope).parent <;> rfl
  | some body =>
    dsimp only
    rcases t.classScopes t.scopes.size body with ⟨inner, _ | outer⟩
    · exact List.append_assoc passed [scope] inner
    · exact congrArg (t.chainFrom n · outer) (List.append_assoc passed [scope] inner)

theorem chainFrom_plain (h : passed.contains scope = false)
    (hc : (t.scope scope).classContext = none) :
    t.chainFrom (n + 1) passed scope = t.chainOn n (passed ++ [scope]) (t.scope scope).parent := by
  rw [chainFrom_step t n h, stepFrom, hc]

theorem prefix_chainFrom (n : Nat) (passed : List ScopeId) (id : ScopeId) :
    passed <+: t.chainFrom n passed id := by
  induction n generalizing passed id with
  | zero => exact List.prefix_rfl
  | succ n ih =>
    cases h : passed.contains id with
    | true => exact (chainFrom_contains t (n + 1) h).symm ▸ List.prefix_rfl
    | false =>
      rw [chainFrom_step t n h]
      refine (List.prefix_append passed (id :: (t.stepFrom id).1)).trans ?_
      cases (t.stepFrom id).2 with
      | none => exact List.prefix_rfl
      | some outer => exact ih _ outer

theorem prefix_chainOn (n : Nat) (passed : List ScopeId) (next : Option ScopeId) :
    passed <+: t.chainOn n passed next := by
  cases next with
  | none => exact List.prefix_rfl
  | some outer => exact t.prefix_chainFrom n passed outer

theorem classScopes_fst (n : Nat) (body : ScopeId) :
    (t.classScopes (n + 1) body).1 =
      if (t.scope body).isNamespaceBody then []
      else body :: ((t.scope body).parent.map fun p => (t.classScopes n p).1).getD [] := by
  rw [classScopes]
  split
  · rfl
  · cases (t.scope body).parent <;> rfl

theorem prefix_chainFrom_classes (passed : List ScopeId)
    (hplain : ∀ s ∈ (t.classScopes k body).1, (t.scope s).classContext = none)
    (hnodup : (passed ++ (t.classScopes k body).1).Nodup) (hn : k ≤ n) :
    passed ++ (t.classScopes k body).1 <+: t.chainFrom n passed body := by
  induction k generalizing body passed n with
  | zero =>
    rw [show (t.classScopes 0 body).1 = [] from rfl, List.append_nil]
    exact t.prefix_chainFrom ..
  | succ k ih =>
    rw [classScopes_fst] at hplain hnodup ⊢
    split at hplain
    · rename_i hb
      rw [if_pos hb, List.append_nil]
      exact t.prefix_chainFrom ..
    · rename_i hb
      rw [if_neg hb] at hnodup ⊢
      obtain ⟨m, rfl⟩ : ∃ m, n = m + 1 := ⟨n - 1, by omega⟩
      have hnot : passed.contains body = false := by
        rw [List.contains_eq_mem, decide_eq_false_iff_not]
        intro hmem
        exact (List.nodup_append.mp hnodup).2.2 body hmem body List.mem_cons_self rfl
      rw [t.chainFrom_plain hnot (hplain body List.mem_cons_self)]
      cases hp : (t.scope body).parent with
      | none => exact List.prefix_rfl
      | some outer =>
        rw [hp] at hplain hnodup
        rw [Option.map_some, Option.getD_some, List.append_cons] at hnodup ⊢
        exact ih _ (fun s hs => hplain s (List.mem_cons_of_mem _ hs)) hnodup (by omega)

/-- The bodies of the classes around a member, the innermost first. Only classes are among them, and
none is met twice. -/
structure ClassesFrom (body : ScopeId) (classes : List ScopeId) : Prop where
  scopes : (t.classScopes t.scopes.size body).1 = classes
  kind : ∀ s ∈ classes, (t.scope s).kind = .classBody
  plain : ∀ s ∈ classes, (t.scope s).classContext = none
  nodup : classes.Nodup

variable {t} {classes : List ScopeId}

theorem ClassesFrom.lookupOrder_inside (h : t.ClassesFrom body classes)
    (hs : (t.scope scope).parent = some body) (hplain : (t.scope scope).classContext = none)
    (hnot : scope ∉ classes) : ∃ rest, t.lookupOrder scope = scope :: (classes ++ rest) := by
  have hway := t.prefix_chainFrom_classes [scope] (h.scopes ▸ h.plain)
    (h.scopes ▸ List.nodup_cons.mpr ⟨hnot, h.nodup⟩) (Nat.le_refl t.scopes.size)
  rw [h.scopes] at hway
  obtain ⟨rest, hrest⟩ := hway
  refine ⟨rest, ?_⟩
  rw [lookupOrder, t.chainFrom_plain rfl hplain, hs]
  exact hrest.symm

theorem ClassesFrom.lookupOrder_outside (h : t.ClassesFrom body classes)
    (hs : (t.scope scope).classContext = some body) :
    ∃ rest, t.lookupOrder scope = scope :: (classes ++ rest) := by
  rw [lookupOrder, t.chainFrom_step _ rfl, stepFrom, hs]
  dsimp only
  rw [h.scopes]
  obtain ⟨rest, hrest⟩ := t.prefix_chainOn t.scopes.size (scope :: classes)
    (t.classScopes t.scopes.size body).2
  exact ⟨rest, hrest.symm⟩

/-- A name is looked up in the body of a function that declares nothing of that name itself. -/
structure PastBody (t : SymbolTable) (q : Query) (name : String) : Prop where
  kind : (t.scope q.site.scope).kind = .function
  found : t.inChainScope (t.level (lookupDepth - 1)) q name [] q.site.scope = []

theorem PastBody.lookup (h : t.PastBody q name)
    (horder : t.lookupOrder q.site.scope = q.site.scope :: rest) :
    t.lookup q name = t.alongChain (t.level (lookupDepth - 1)) q name [] rest := by
  have hbody : (t.scope q.site.scope).isNamespaceBody = false := by
    rw [Scope.isNamespaceBody, h.kind]
    rfl
  change t.alongChain (t.level (lookupDepth - 1)) q name [] (t.lookupOrder q.site.scope) = _
  rw [horder, alongChain, h.found]
  simp only [hbody]
  rfl

/-- What the body of a member finds in its class, in a class around it or in their bases, it finds
outside of the class as well, in whatever file that is. -/
theorem lookup_outside (h : t.ClassesFrom body classes) {q : Query} {site : Site}
    (hin : (t.scope q.site.scope).parent = some body)
    (hplain : (t.scope q.site.scope).classContext = none) (hnot : q.site.scope ∉ classes)
    (hout : (t.scope site.scope).classContext = some body)
    (hq : t.PastBody q name) (hq' : t.PastBody { q with site } name)
    (hfound : t.alongChain (t.level (lookupDepth - 1)) q name [] classes ≠ []) :
    t.lookup { q with site } name = t.lookup q name := by
  obtain ⟨rest, horder⟩ := h.lookupOrder_inside hin hplain hnot
  obtain ⟨rest', horder'⟩ := h.lookupOrder_outside hout
  rw [hq.lookup horder, hq'.lookup horder', t.alongChain_site h.kind hfound]
  exact (t.alongChain_site h.kind hfound q.site rest).symm

/-- Two lookups see the same: nothing is declared between their places. -/
structure SeeSame (t : SymbolTable) (q q' : Query) : Prop where
  filter : q.filter = q'.filter
  disabled : q.disabled = q'.disabled
  file : q.site.file = q'.site.file
  symbols : ∀ m, isDeclaredBefore q (t.symbol m) = isDeclaredBefore q' (t.symbol m)
  declarations : ∀ s, ∀ d ∈ (t.scope s).usingDeclarations,
    (t.scope s).file = q.site.file → (q.site.offset ≤ d.offset ↔ q'.site.offset ≤ d.offset)
  directives : ∀ s, ∀ d ∈ (t.scope s).usings,
    d.file = q.site.file → (q.site.offset ≤ d.span.start ↔ q'.site.offset ≤ d.span.start)

namespace SeeSame

variable {q q' : Query}

theorem moved (h : t.SeeSame q q') (site : Site) : { q with site } = { q' with site } := by
  rw [h.filter, h.disabled]

theorem matchesQuery (h : t.SeeSame q q') (name : String) :
    t.matchesQuery q name = t.matchesQuery q' name := by
  funext id
  rw [SymbolTable.matchesQuery, SymbolTable.matchesQuery, h.filter]

theorem inScope (h : t.SeeSame q q') (below : Level) (ordered : Bool) (scope : ScopeId)
    (name : String) :
    t.inScope below ordered q scope name = t.inScope below ordered q' scope name := by
  have hbefore : (fun m => !ordered || isDeclaredBefore q (t.symbol m)) =
      fun m => !ordered || isDeclaredBefore q' (t.symbol m) := by
    funext m
    rw [h.symbols]
  have hnamed : ((t.scope scope).usingDeclarations.filter fun d => d.name == name &&
        !(ordered && (t.scope scope).file == q.site.file && q.site.offset ≤ d.offset)) =
      (t.scope scope).usingDeclarations.filter fun d => d.name == name &&
        !(ordered && (t.scope scope).file == q'.site.file && q'.site.offset ≤ d.offset) := by
    apply List.filter_congr
    intro d hd
    rw [← h.file]
    cases hf : (t.scope scope).file == q.site.file with
    | false => simp
    | true => simp [h.declarations scope d hd (beq_iff_eq.mp hf)]
  simp only [SymbolTable.inScope, hbefore, hnamed, h.matchesQuery, h.moved]

theorem inDirectives (h : t.SeeSame q q') {below : Level}
    (hbelow : ∀ ns name s, below.inNamespace q ns name s = below.inNamespace q' ns name s)
    (scope : ScopeId) (name : String) (s : Search) :
    t.inDirectives below q scope name s = t.inDirectives below q' scope name s := by
  have hopen : ((t.scope scope).usings.filter fun d => !q.disabled.contains d.place &&
        !(d.file == q.site.file && q.site.offset ≤ d.span.start)) =
      (t.scope scope).usings.filter fun d => !q'.disabled.contains d.place &&
        !(d.file == q'.site.file && q'.site.offset ≤ d.span.start) := by
    apply List.filter_congr
    intro d hd
    rw [← h.file, ← h.disabled]
    cases hf : d.file == q.site.file with
    | false => simp
    | true => simp [h.directives scope d hd (beq_iff_eq.mp hf)]
  have htarget (d : UsingDirective) :
      t.directiveTarget? below q d = t.directiveTarget? below q' d := by
    rw [directiveTarget?, directiveTarget?, h.disabled]
  simp only [SymbolTable.inDirectives, hopen, htarget, hbelow]

theorem inBlock (h : t.SeeSame q q') {below : Level}
    (hbelow : ∀ ns name s, below.inNamespace q ns name s = below.inNamespace q' ns name s)
    (name : String) (s : Search) (block : ScopeId) :
    t.inBlock below q name s block = t.inBlock below q' name s block := by
  simp only [SymbolTable.inBlock, h.inScope, hbelow]

theorem inNamespace (h : t.SeeSame q q') (n : Nat) (ns : SymbolId) (name : String) (s : Search) :
    (t.level n).inNamespace q ns name s = (t.level n).inNamespace q' ns name s := by
  induction n generalizing ns name s with
  | zero => rfl
  | succ n ih =>
    have hblock : t.inBlock (t.level n) q name = t.inBlock (t.level n) q' name := by
      funext s block
      exact h.inBlock ih name s block
    simp only [level, levelAbove, SymbolTable.inNamespace, h.file, hblock, h.inDirectives ih]

theorem inChainScope (h : t.SeeSame q q') (n : Nat) (name : String) (passed : List SymbolId)
    (scope : ScopeId) :
    t.inChainScope (t.level n) q name passed scope =
      t.inChainScope (t.level n) q' name passed scope := by
  have hclass (cls : SymbolId) :
      t.inClass (t.level n) q cls name = t.inClass (t.level n) q' cls name := by
    have hsite := t.inClass_site (n + 1) q q'.site cls name
    rw [h.moved] at hsite
    exact hsite.symm
  have hnamespace (ns : SymbolId) (s : Search) :
      t.inNamespace (t.level n) q ns name s = t.inNamespace (t.level n) q' ns name s :=
    h.inNamespace (n + 1) ns name s
  simp only [SymbolTable.inChainScope, hclass, hnamespace, h.inScope,
    h.inDirectives (h.inNamespace n)]

theorem alongChain (h : t.SeeSame q q') (n : Nat) (name : String) (passed : List SymbolId)
    (scopes : List ScopeId) :
    t.alongChain (t.level n) q name passed scopes =
      t.alongChain (t.level n) q' name passed scopes := by
  induction scopes generalizing passed with
  | nil => rfl
  | cons scope rest ih => simp only [SymbolTable.alongChain, h.inChainScope, ih]

/-- What stands in the way of a name alone decides what becomes of it: the body of a member has the
classes on its way wherever it stands. -/
theorem lookup_body (h : t.SeeSame q q') (hq : t.PastBody q name) (hq' : t.PastBody q' name)
    (horder : t.lookupOrder q.site.scope = q.site.scope :: rest)
    (horder' : t.lookupOrder q'.site.scope = q'.site.scope :: rest) :
    t.lookup q' name = t.lookup q name := by
  rw [hq.lookup horder, hq'.lookup horder', h.alongChain]

/-- What stands before the qualifier of a member has not: a name there means what it meant in the
class if the class and the classes around it have nothing to do with it. -/
theorem lookup_before_qualifier (h : t.SeeSame q q')
    (hc : ∀ s ∈ classes, (t.scope s).kind = .classBody)
    (horder : t.lookupOrder q.site.scope = classes ++ rest)
    (horder' : t.lookupOrder q'.site.scope = rest)
    (hnone : t.alongChain (t.level (lookupDepth - 1)) q name [] classes = []) :
    t.lookup q' name = t.lookup q name := by
  change t.alongChain (t.level (lookupDepth - 1)) q' name [] (t.lookupOrder q'.site.scope) =
    t.alongChain (t.level (lookupDepth - 1)) q name [] (t.lookupOrder q.site.scope)
  rw [horder, horder', ← h.alongChain,
    t.alongChain_append fun s hs => t.isNamespaceBody_of_classBody (hc s hs), hnone]
  rfl

end SeeSame

end SymbolTable

end CppRefactor
