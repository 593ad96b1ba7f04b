import CppRefactor.Fix.RemoveUsing
import CppRefactor.Project.Workspace
import CppRefactor.Proofs.Symbols.Lookup

/-!
What removing using-directives does to names: each keeps what its first segment stands for, or gets
the qualifier. The qualifier itself is looked up from where it is put, and may be found nearer.
-/

namespace CppRefactor

/-- A changeset has an edit of a file. -/
def Changeset.Contains (c : Changeset) (path : Path) (e : Edit) : Prop :=
  ∃ f ∈ c.files, f.path = path ∧ e ∈ f.change.edits

namespace Changeset

theorem Contains.edit {c : Changeset} (h : c.Contains path e)
    (hf : ∀ change : Change, e ∈ change.edits → e ∈ (f change).edits) :
    (c.edit name state f).Contains path e := by
  obtain ⟨d, hd, hpath, he⟩ := h
  simp only [Changeset.edit]
  split
  · refine ⟨editAt (.ofString name) f d, List.mem_map_of_mem hd, by rw [editAt_path, hpath], ?_⟩
    unfold editAt
    split
    · exact hf d.change he
    · exact he
  · exact ⟨d, List.mem_append_left _ hd, hpath, he⟩

theorem edit_contains {c : Changeset} (hf : ∀ change : Change, e ∈ (f change).edits) :
    (c.edit name state f).Contains (.ofString name) e := by
  simp only [edit]
  split
  · rename_i h
    obtain ⟨d, hd, hpath⟩ := List.any_eq_true.mp h
    refine ⟨editAt (.ofString name) f d, List.mem_map_of_mem hd, ?_, ?_⟩
    · rw [editAt_path]
      exact beq_iff_eq.mp hpath
    · unfold editAt
      rw [if_pos hpath]
      exact hf d.change
  · exact ⟨_, List.mem_append_right _ List.mem_cons_self, rfl, hf .empty⟩

end Changeset

namespace RemoveUsing

theorem edits_foldl_add (g : α → Edit) (as : List α) (change : Change) :
    (as.foldl (fun c a => c.add (g a)) change).edits = change.edits ++ as.map g := by
  induction as generalizing change with
  | nil => exact (List.append_nil _).symm
  | cons a as ih => rw [List.foldl_cons, ih, Change.add, List.append_assoc]; rfl

/-- The path that the edits of a file of a snapshot stand under. -/
def pathOf (s : Snapshot) (file : FileId) : Path := .ofString (s.file file).path.text

/-- The edits of an affected file come behind those there are: the lines of directives, then the
qualifiers. -/
theorem editsIn_edits (s : Snapshot) (names : List String) (a : Affected) (lost : List Nat)
    (change : Change) :
    (lost.foldl (fun c offset => c.insert offset (qualifier names))
      (a.removed.foldl (fun c span => c.remove (lineOf (s.file a.file) span)) change)).edits =
    change.edits ++ a.removed.map (fun span => ⟨lineOf (s.file a.file) span, ""⟩) ++
      lost.map fun o => ⟨.point o, qualifier names⟩ := by
  refine (edits_foldl_add (fun o => ⟨.point o, qualifier names⟩) lost _).trans ?_
  exact congrArg (· ++ _) (edits_foldl_add (fun span => ⟨lineOf (s.file a.file) span, ""⟩) _ _)

theorem editsIn_contains (ho : o ∈ lost) :
    (editsIn s names c a lost).Contains (pathOf s a.file) ⟨.point o, qualifier names⟩ := by
  have hl : lost.isEmpty = false := by
    cases lost with
    | nil => cases ho
    | cons => rfl
  rw [editsIn, hl, Bool.and_false, if_neg Bool.false_ne_true]
  apply Changeset.edit_contains
  intro change
  rw [editsIn_edits]
  exact List.mem_append_right _ (List.mem_map_of_mem ho)

theorem editsIn_keeps {c : Changeset} (h : c.Contains path e) :
    (editsIn s names c a lost).Contains path e := by
  unfold editsIn
  split
  · exact h
  · apply h.edit
    intro change he
    rw [editsIn_edits]
    exact List.mem_append_left _ (List.mem_append_left _ he)

theorem foldl_editsIn_keeps {lost : Affected → List Nat} {c : Changeset}
    (h : c.Contains path e) (files : List Affected) :
    (files.foldl (fun c a => editsIn s names c a (lost a)) c).Contains path e := by
  induction files generalizing c with
  | nil => exact h
  | cons a files ih => exact ih (editsIn_keeps h)

theorem foldl_editsIn_contains {lost : Affected → List Nat} {files : List Affected}
    (ha : a ∈ files) (ho : o ∈ lost a) (c : Changeset) :
    (files.foldl (fun c a => editsIn s names c a (lost a)) c).Contains (pathOf s a.file)
      ⟨.point o, qualifier names⟩ := by
  induction files generalizing c with
  | nil => cases ha
  | cons b files ih =>
    cases ha with
    | head => exact foldl_editsIn_keeps (editsIn_contains ho) files
    | tail _ ha => exact ih ha _

/-- The first segment of a name is found, as a symbol of the namespace. -/
structure FindsIn (t : SymbolTable) (file : FileId) (names : List String) (name : Tree)
    (first : Name.Segment) (site : Site) (symbol : SymbolId) : Prop where
  head : (Name.segments name).head? = some first
  stands : t.siteAt? file first.span.start = some site
  found : (t.lookup ⟨site, firstFilter name, []⟩ first.text).head? = some symbol
  inside : (t.qualifyingNames symbol).dropLast = names

/-- The first segment of a name is found without some directives, as what it was found with them. -/
def StillFinds (t : SymbolTable) (disabled : List DirectivePlace) (name : Tree)
    (first : Name.Segment) (site : Site) (symbol : SymbolId) : Prop :=
  ∃ other ∈ t.lookup ⟨site, firstFilter name, disabled⟩ first.text, t.denoteSame other symbol = true

theorem still_or_lost {name : Tree} (h : FindsIn t file names name first site symbol)
    (disabled : List DirectivePlace) :
    StillFinds t disabled name first site symbol ∨
      lostAt? t file names disabled name = some first.span.start := by
  by_cases hk : (t.lookup ⟨site, firstFilter name, disabled⟩ first.text).any
      (fun other => t.denoteSame other symbol) = true
  · exact .inl (List.any_eq_true.mp hk)
  · refine .inr ?_
    rw [Bool.not_eq_true] at hk
    refine Option.bind_eq_some_iff.mpr ⟨first, h.head, ?_⟩
    refine Option.bind_eq_some_iff.mpr ⟨site, h.stands, ?_⟩
    refine Option.bind_eq_some_iff.mpr ⟨symbol, h.found, ?_⟩
    rw [h.inside, hk, beq_self_eq_true]
    rfl

/-- A name whose first segment was found in the namespace of the removed directives is found to be
the same without them, or is qualified. -/
theorem changes_keep_or_qualify (r : Request) (f : RemoveUsing) {name : Cursor}
    (hn : r.symbols.nominee f.directive = .known ns) (ha : a ∈ (f.removal r.snapshot).files)
    (hname : name ∈ referencesIn r.snapshot a)
    (h : FindsIn r.symbols a.file (r.symbols.qualifyingNames ns) name.focus first site symbol) :
    StillFinds r.symbols (f.removal r.snapshot).disabled name.focus first site symbol ∨
      (f.changes r).Contains (pathOf r.snapshot a.file)
        ⟨.point first.span.start, qualifier (r.symbols.qualifyingNames ns)⟩ := by
  rcases still_or_lost h (f.removal r.snapshot).disabled with hk | hl
  · exact .inl hk
  · refine .inr ?_
    have ho : first.span.start ∈ lostNames r.snapshot (f.removal r.snapshot).disabled
        (r.symbols.qualifyingNames ns) a := List.mem_filterMap.mpr ⟨name, hname, hl⟩
    simp only [changes, show r.snapshot.symbols.nominee f.directive = .known ns from hn]
    exact foldl_editsIn_contains ha ho .empty

/-- The qualified name is found without some directives, as what its first segment was found with
them. -/
def QualifiedFinds (t : SymbolTable) (disabled : List DirectivePlace) (names : List String)
    (name : Tree) (first : Name.Segment) (site : Site) (symbol : SymbolId) : Prop :=
  ∃ other ∈ t.lookupPath ⟨site, firstFilter name, disabled⟩ (.ofNames (names ++ [first.text])),
    t.denoteSame other symbol = true

/-- All depends on what the qualifier leads to from the place of the name, be it the namespace or
another one of that name. -/
theorem qualified_finds_iff {name : Tree} {first : Name.Segment} :
    QualifiedFinds t disabled (t.qualifyingNames ns) name first site symbol ↔
      ∃ owner, t.ownerOf? (t.lookupPath ⟨site, .scopes, disabled⟩
          (.ofNames (t.qualifyingNames ns))) = some owner ∧
        ∃ other ∈ (t.level (SymbolTable.lookupDepth - 1)).member
            ⟨site, firstFilter name, disabled⟩ owner first.text,
          t.denoteSame other symbol = true := by
  have hnames : t.qualifyingNames ns ≠ [] := by
    intro h
    exact List.concat_ne_nil _ _ (List.map_eq_nil_iff.mp h)
  rw [QualifiedFinds, t.lookupPath_concat _ hnames]
  cases t.ownerOf? (t.lookupPath ⟨site, .scopes, disabled⟩ (.ofNames (t.qualifyingNames ns))) with
  | none =>
    constructor
    · rintro ⟨_, h, -⟩
      cases h
    · rintro ⟨_, h, -⟩
      cases h
  | some owner =>
    constructor
    · intro h
      exact ⟨owner, rfl, h⟩
    · rintro ⟨_, howner, h⟩
      cases howner
      exact h

/-- A document by itself. -/
def snapshotOf (text : String) : Snapshot :=
  ((Workspace.ofSearchPaths none []).set (.ofString "/a.cpp") text).2.snapshot

/-- The texts that the fixes offered at an offset make of a document. -/
def textsAfter (text : String) (offset : Nat) : List (Option (List (String × String))) :=
  match Request.atOffset (snapshotOf text) {} 0 offset with
  | none => []
  | some r =>
    ((offers r).toOption.getD []).map fun f =>
      ((f.changes r).preview fun _ => some ⟨text, 1⟩).toOption

/-- What the name at a span of a document stands for. -/
def meaningOf? (text : String) (span : Span) : Option String := do
  let s := snapshotOf text
  let name ← (s.file 0).root.nodes.find? fun n => n.kind == .qualifiedName && n.span == span
  return s.symbols.qualifiedName (← s.symbols.symbolOf? 0 name)

/-- The directive is the only reason that `S` is found. Both fixes write `N::S` in its place, where
`N` is the namespace `M::N`, and `S` is lost. -/
theorem qualifier_captured :
    let before := "namespace N \x7b struct S \x7b\x7d; \x7d\nusing namespace N;\n" ++
      "namespace M \x7b namespace N \x7b\x7d S s; \x7d\n"
    let after := "namespace N \x7b struct S \x7b\x7d; \x7d\n" ++
      "namespace M \x7b namespace N \x7b\x7d N::S s; \x7d\n"
    textsAfter before 31 = [some [("/a.cpp", after)], some [("/a.cpp", after)]] ∧
      meaningOf? before ⟨77, 78⟩ = some "N::S" ∧ meaningOf? after ⟨58, 62⟩ = none := by
  decide +kernel

end RemoveUsing

end CppRefactor
