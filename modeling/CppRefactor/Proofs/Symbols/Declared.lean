import CppRefactor.Proofs.Symbols.Indexed
import CppRefactor.Proofs.Symbols.Lookup

/-!
What a block of a namespace declares is found behind its declaration: under a path that leads to the
namespace, and under its name alone from inside the block. There something nearer may be found
instead, but never nothing.
-/

namespace CppRefactor

/-- A search of a namespace only adds to what has been found. -/
def Level.Collects (below : Level) : Prop :=
  ∀ q ns name s, s.found ⊆ (below.inNamespace q ns name s).found

namespace SymbolTable

/-- Where the last segment of a path is looked up from a site: on the way outwards if it is alone,
else in the blocks of the namespace that the segments before it lead to. -/
inductive LooksIn (t : SymbolTable) (site : Site) : TypePath → ScopeId → Prop
  | around (howner : (t.scope block).owner = some ns)
    (hway : block ∈ t.lookupOrder site.scope) : LooksIn t site ⟨false, [last]⟩ block
  | outermost (howner : (t.scope block).owner = some global)
    (hns : (t.symbol global).isNamespace = true) : LooksIn t site ⟨true, [last]⟩ block
  | behind (hn : front ≠ [])
    (hfront : t.ownerOf? (t.lookupPath ⟨site, .scopes, []⟩ ⟨isGlobal, front⟩) = some ns)
    (howner : (t.scope block).owner = some ns) (hns : (t.symbol ns).isNamespace = true) :
    LooksIn t site ⟨isGlobal, front ++ [last]⟩ block

variable {t : SymbolTable} {q : Query} {name : String} {ns id : SymbolId} {block : ScopeId}
  {below : Level}

/-- A block that is seen from a place declares a symbol of a name before the place. -/
structure Exposes (t : SymbolTable) (q : Query) (name : String) (block : ScopeId)
    (id : SymbolId) : Prop where
  body : (t.scope block).isNamespaceBody = true
  seen : t.isSeenFrom q.site.file (t.scope block).file = true
  member : id ∈ (t.scope block).members
  before : isDeclaredBefore q (t.symbol id) = true
  found : t.matchesQuery q name id = true

theorem subset_foldl {step : Search → α → Search} (hstep : ∀ s a, s.found ⊆ (step s a).found)
    (as : List α) (s : Search) : s.found ⊆ (as.foldl step s).found := by
  induction as generalizing s with
  | nil => exact List.Subset.refl _
  | cons a as ih => exact List.Subset.trans (hstep s a) (ih _)

theorem mem_foldl_of_step {step : Search → α → Search} {a : α}
    (hsub : ∀ s a, s.found ⊆ (step s a).found) (hstep : ∀ s, id ∈ (step s a).found)
    {as : List α} (ha : a ∈ as) (s : Search) : id ∈ (as.foldl step s).found := by
  induction as generalizing s with
  | nil => cases ha
  | cons b as ih =>
    obtain rfl | ha := List.mem_cons.mp ha
    · exact subset_foldl hsub as _ (hstep s)
    · exact ih ha _

section collects

variable (hbelow : below.Collects)

include hbelow

theorem subset_inDirectives (q : Query) (name : String) (s : Search) (scope : ScopeId) :
    s.found ⊆ (t.inDirectives below q scope name s).found := by
  refine subset_foldl (fun s d => ?_) _ s
  split
  · exact hbelow q _ name s
  · exact List.Subset.refl _

theorem subset_inBlock (q : Query) (name : String) (s : Search) (block : ScopeId) :
    s.found ⊆ (t.inBlock below q name s block).found := by
  intro i hi
  exact subset_foldl (fun s ns => hbelow q ns name s) _ _ (List.mem_append_left _ hi)

theorem subset_inNamespace (q : Query) (ns : SymbolId) (name : String) (s : Search) :
    s.found ⊆ (t.inNamespace below q ns name s).found := by
  unfold inNamespace
  split
  · exact List.Subset.refl _
  · intro i hi
    dsimp only
    generalize (t.blocks ns).filter _ = blocks
    have hblocks : i ∈ (blocks.foldl (t.inBlock below q name)
        ⟨s.found, s.visited ++ [ns]⟩).found :=
      subset_foldl (subset_inBlock hbelow q name) _ _ hi
    split
    · exact subset_foldl (subset_inDirectives hbelow q name) _ _ hblocks
    · exact hblocks

theorem Exposes.inBlock (h : t.Exposes q name block id) (s : Search) :
    id ∈ (t.inBlock below q name s block).found := by
  refine subset_foldl (fun s ns => hbelow q ns name s) _ _ (List.mem_append_right _ ?_)
  refine List.mem_append_left _ (List.mem_filter.mpr ⟨List.mem_flatMap.mpr ⟨id, ?_⟩, h.found⟩)
  exact ⟨List.mem_filter.mpr ⟨h.member, by simp [h.before]⟩, List.mem_cons_self⟩

theorem Exposes.inNamespace (ht : t.Indexed) (h : t.Exposes q name block id)
    (howner : (t.scope block).owner = some ns) :
    id ∈ (t.inNamespace below q ns name .start).found := by
  have hblock : block ∈ t.blocks ns := ht.mem_blocks.mpr ⟨h.body, howner⟩
  have hseen : block ∈ (t.blocks ns).filter fun b => t.isSeenFrom q.site.file (t.scope b).file :=
    List.mem_filter.mpr ⟨hblock, h.seen⟩
  have hfound (s : Search) := mem_foldl_of_step (subset_inBlock hbelow q name)
    (h.inBlock hbelow) hseen s
  unfold SymbolTable.inNamespace
  rw [if_neg (by simp [Search.start])]
  dsimp only
  rw [if_neg fun hempty => ?_]
  · exact hfound _
  · exact List.ne_nil_of_mem (hfound _) (List.isEmpty_iff.mp hempty)

end collects

theorem level_collects (t : SymbolTable) (n : Nat) : (t.level n).Collects := by
  induction n with
  | zero => exact fun _ _ _ _ => List.Subset.refl _
  | succ n ih => exact subset_inNamespace ih

theorem memberAt_namespace (h : (t.symbol ns).isNamespace = true) :
    t.memberAt below q ns name = distinct (t.inNamespace below q ns name .start).found := by
  have hkind : (t.symbol ns).kind = .namespaceKind := beq_iff_eq.mp h
  have htarget : t.targetAt below ns = some ns := by
    simp [targetAt, hkind, SymbolKind.isClass]
  rw [memberAt, htarget]
  simp [h]

theorem Exposes.member_level (ht : t.Indexed) (h : t.Exposes q name block id)
    (howner : (t.scope block).owner = some ns) (hns : (t.symbol ns).isNamespace = true) (n : Nat) :
    id ∈ (t.level (n + 1)).member q ns name := by
  change id ∈ t.memberAt (t.level n) q ns name
  rw [memberAt_namespace hns]
  exact mem_distinct.mpr (h.inNamespace (level_collects t n) ht howner)

theorem inChainScope_body {scope : ScopeId} (h : (t.scope scope).isNamespaceBody = true)
    (howner : (t.scope scope).owner = some ns) (passed : List SymbolId) :
    t.inChainScope below q name passed scope =
      if passed.contains ns then [] else (t.inNamespace below q ns name .start).found := by
  rw [Scope.isNamespaceBody, Bool.or_eq_true, beq_iff_eq, beq_iff_eq] at h
  obtain h | h := h <;> simp only [inChainScope, h, howner]

/-- A namespace that was searched on the way, or that has been before, has nothing of the name if
the way goes on. -/
theorem inNamespace_of_inChainScope {scope : ScopeId} {passed : List SymbolId}
    (h : (t.scope scope).isNamespaceBody = true) (howner : (t.scope scope).owner = some ns)
    (hpassed : ∀ m ∈ passed, (t.inNamespace below q m name .start).found = [])
    (hnone : t.inChainScope below q name passed scope = []) :
    (t.inNamespace below q ns name .start).found = [] := by
  rw [inChainScope_body h howner] at hnone
  split at hnone
  · rename_i hmem
    exact hpassed ns (List.contains_iff_mem.mp hmem)
  · exact hnone

theorem Exposes.alongChain (ht : t.Indexed) (h : t.Exposes q name block id)
    (howner : (t.scope block).owner = some ns) (hbelow : below.Collects) {way : List ScopeId}
    (hway : block ∈ way) {passed : List SymbolId}
    (hpassed : ∀ m ∈ passed, (t.inNamespace below q m name .start).found = []) :
    t.alongChain below q name passed way ≠ [] := by
  induction way generalizing passed with
  | nil => cases hway
  | cons scope way ih =>
    unfold SymbolTable.alongChain
    split
    · rename_i hnone
      have hblock : block ≠ scope := by
        rintro rfl
        have hempty := inNamespace_of_inChainScope h.body howner hpassed hnone
        exact List.ne_nil_of_mem (h.inNamespace hbelow ht howner) hempty
      refine ih ((List.mem_cons.mp hway).resolve_left hblock) fun m hm => ?_
      split at hm
      · rename_i hbody
        obtain hm | hm := List.mem_append.mp hm
        · exact hpassed m hm
        · exact inNamespace_of_inChainScope hbody (Option.mem_toList.mp hm) hpassed hnone
      · exact hpassed m hm
    · rename_i hsome
      generalize t.inChainScope below q name passed scope = found at hsome
      cases found with
      | nil => exact absurd rfl hsome
      | cons i found =>
        obtain ⟨rest, hrest⟩ := distinct_cons i found
        rw [hrest]
        exact List.cons_ne_nil _ _

theorem Exposes.mem_lookupPath (ht : t.Indexed) {site : Site} {isGlobal : Bool}
    {front : List PathSegment} {last : PathSegment}
    (h : t.Exposes ⟨site, .any, []⟩ last.name block id) (hn : front ≠ [])
    (hfront : t.ownerOf? (t.lookupPath ⟨site, .scopes, []⟩ ⟨isGlobal, front⟩) = some ns)
    (howner : (t.scope block).owner = some ns) (hns : (t.symbol ns).isNamespace = true) :
    id ∈ t.lookupPath ⟨site, .any, []⟩ ⟨isGlobal, front ++ [last]⟩ := by
  rw [lookupPath_append t _ isGlobal hn, hfront]
  exact h.member_level ht howner hns _

theorem Exposes.lookupPath_ne_nil (ht : t.Indexed) {site : Site} {path : TypePath}
    (h : t.Exposes ⟨site, .any, []⟩ path.last.name block id) (hpath : t.LooksIn site path block) :
    t.lookupPath ⟨site, .any, []⟩ path ≠ [] := by
  cases hpath with
  | around howner hway => exact h.alongChain ht howner (t.level_collects _) hway nofun
  | outermost howner hns => exact List.ne_nil_of_mem (h.member_level ht howner hns _)
  | behind hn hfront howner hns =>
    rw [TypePath.last, List.getLastD_concat] at h
    exact List.ne_nil_of_mem (h.mem_lookupPath ht hn hfront howner hns)

end SymbolTable

end CppRefactor
