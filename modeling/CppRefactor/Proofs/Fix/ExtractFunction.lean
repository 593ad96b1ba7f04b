import CppRefactor.Fix.Catalog
import CppRefactor.Proofs.Fix.Request
import CppRefactor.Proofs.Text.Lines

/-!
When an extracted function can be put in place: unless its declaration goes to the middle of the
statements that it replaces. Where its definition stands: at the start of a line, which is among the
same declarations as the function around the statements if that begins the line.
-/

namespace CppRefactor

open RemoveUsing (pathOf snapshotOf)

namespace ExtractFunction

theorem editsAt_foldl (s : Snapshot) (path : Path) (edits : List (FileId × Edit)) (c : Changeset) :
    (edits.foldl (fun c (file, e) => c.editFile s file (·.add e)) c).editsAt path =
      c.editsAt path ++ (edits.filter fun x => pathOf s x.1 = path).map (·.2) := by
  induction edits generalizing c with
  | nil => exact (List.append_nil _).symm
  | cons x edits ih =>
    rw [List.foldl_cons, ih, Changeset.editsAt_editFile_add, List.append_assoc]
    by_cases hp : pathOf s x.1 = path
    · rw [if_pos hp, List.filter_cons_of_pos (by simpa using hp)]
      rfl
    · rw [if_neg hp, List.filter_cons_of_neg (by simpa using hp)]
      rfl

theorem changes_editsAt (r : Request) (f : ExtractFunction) (path : Path) :
    (f.changes r).editsAt path =
      (f.edits.filter fun x => pathOf r.snapshot x.1 = path).map (·.2) :=
  editsAt_foldl r.snapshot path f.edits .empty

theorem changes_finish_iff (r : Request) {f : ExtractFunction}
    (h : ∀ x ∈ f.edits, x.2.Forward) :
    (∃ c, (f.changes r).finish = .ok c) ↔ f.edits.Pairwise fun x y =>
      pathOf r.snapshot x.1 = pathOf r.snapshot y.1 → x.2.Apart y.2 := by
  have hforward : ∀ path, ∀ e ∈ (f.changes r).editsAt path, e.Forward := by
    intro path e he
    rw [changes_editsAt] at he
    obtain ⟨x, hx, rfl⟩ := List.mem_map.mp he
    exact h x (List.mem_filter.mp hx).1
  rw [Changeset.finishes_iff hforward]
  simp only [changes_editsAt, List.pairwise_map, List.pairwise_filter, decide_eq_true_eq]
  constructor
  · intro hp
    rw [List.pairwise_iff_getElem]
    intro i j hi hj hij hpath
    exact List.pairwise_iff_getElem.mp (hp _) i j hi hj hij hpath rfl
  · intro hp path
    exact hp.imp fun hxy hx hy => hxy (hx.trans hy.symm)

theorem declareIn_isInsertion (h : declareIn snapshot settings cls access text = .ok x) :
    x.2.isInsertion = true := by
  obtain ⟨spec, -, h⟩ := of_bind_eq_ok h
  obtain ⟨insertion, -, h⟩ := of_bind_eq_ok h
  cases h
  exact beq_self_eq_true insertion.offset

/-- Something is inserted, a definition and perhaps a declaration, and the call replaces the
statements. -/
theorem build_edits (hf : build r s surroundings flow = .ok f) :
    ∃ inserted, (∀ x ∈ inserted, x.2.isInsertion = true) ∧
      f.edits = inserted ++ [(r.file, ⟨s.extent, flow.call r.settings.functionName⟩)] := by
  have hpoint (o : Nat) (text : String) : Edit.isInsertion ⟨.point o, text⟩ = true :=
    beq_self_eq_true o
  simp only [build] at hf
  split at hf
  · obtain ⟨x, hx, hf⟩ := of_bind_eq_ok hf
    cases hf
    refine ⟨[x, (r.file, ⟨.point _, _⟩)], ?_, rfl⟩
    simp [declareIn_isInsertion hx, hpoint]
  · cases hf
    refine ⟨[(r.file, ⟨.point _, _⟩)], ?_, rfl⟩
    simp [hpoint]

/-- What is built can be put in place unless something of it is inserted strictly inside the
statements that the call replaces. -/
theorem build_finish_iff (hf : build r s surroundings flow = .ok f)
    (hextent : s.extent.start ≤ s.extent.stop) :
    (∃ c, (f.changes r).finish = .ok c) ↔
      ∀ x ∈ f.edits, pathOf r.snapshot x.1 = pathOf r.snapshot r.file → ¬ x.2.Splits s.extent := by
  obtain ⟨inserted, hinserted, hedits⟩ := build_edits hf
  have hforward : ∀ x ∈ f.edits, x.2.Forward := by
    intro x hx
    rw [hedits, List.mem_append, List.mem_singleton] at hx
    rcases hx with hx | rfl
    · exact Edit.forward_of_isInsertion (hinserted x hx)
    · exact hextent
  have hcall (text : String) : ¬ Edit.Splits ⟨s.extent, text⟩ s.extent :=
    fun h => Nat.lt_irrefl _ h.1
  rw [changes_finish_iff r hforward, hedits, List.pairwise_append]
  constructor
  · rintro ⟨-, -, hp⟩ x hx hpath
    rcases List.mem_append.mp hx with hx | hx
    · exact (Edit.apart_iff_not_splits (hinserted x hx)).mp (hp x hx _ List.mem_cons_self hpath)
    · rw [List.mem_singleton.mp hx]
      exact hcall _
  · intro hp
    refine ⟨?_, List.pairwise_singleton _ _, ?_⟩
    · rw [List.pairwise_iff_getElem]
      intro i j hi hj _ _
      exact Edit.apart_of_isInsertion (hinserted _ (List.getElem_mem hi))
        (hinserted _ (List.getElem_mem hj))
    · intro x hx y hy hpath
      rw [List.mem_singleton.mp hy] at hpath ⊢
      exact (Edit.apart_iff_not_splits (hinserted x hx)).mpr
        (hp x (List.mem_append_left _ hx) hpath)

/-- The fixes that are offered for a selection of a document, with the error where one cannot be
finished. -/
def offered (text : String) (selection : Span) : List (FixKind × Option FixError) :=
  match Request.ofSelection (snapshotOf text) {} 0 selection with
  | none => []
  | some r => r.candidates.map fun c =>
    (c.kind, match c.fix.finished r with
      | .ok _ => none
      | .error e => some e)

/-- A member that is defined in its class under its qualified name is declared again, at the end of
the section. If the last line of the statements goes on with a new section, that is a place inside
the statements. -/
theorem declared_in_selection :
    offered ("class A \x7b\n    void A::f() \x7b a();\n        b(); \x7d public: int x;\n\x7d;\n")
        ⟨28, 45⟩ = [(.extractFunction, some (.edit (.overlap ⟨28, 45⟩ ⟨33, 33⟩)))] := by
  decide +kernel

theorem selected?_definition (h : selected? r c body selection = some s) : s.definition = c := by
  obtain ⟨_, -, h⟩ := Option.bind_eq_some_iff.mp h
  obtain ⟨_, -, h⟩ := Option.bind_eq_some_iff.mp h
  obtain ⟨_, -, h⟩ := Option.bind_eq_some_iff.mp h
  obtain ⟨_, -, h⟩ := Option.bind_eq_some_iff.mp h
  cases h
  rfl

/-- What is offered is built for the innermost function definition around the selection. -/
theorem offers_build {r : Request} (h : offers r = .ok fs) (hf : f ∈ fs) :
    ∃ s around flow, r.find? .functionDef = some s.definition ∧
      Surroundings.of r s.definition.focus = .ok around ∧
      DataFlow.of? r.symbols r.file s = some flow ∧ build r s around flow = .ok f := by
  unfold offers at h
  split at h
  · rename_i selection c _ hc
    obtain ⟨body, -, h⟩ := of_bind_eq_ok h
    split at h
    · cases h
      cases hf
    · rename_i s hs
      obtain rfl := selected?_definition hs
      split at h
      · cases h
        cases hf
      · rename_i flow hflow
        obtain ⟨around, haround, h⟩ := of_bind_eq_ok h
        obtain ⟨g, hg, h⟩ := of_bind_eq_ok h
        cases h
        rw [List.mem_singleton.mp hf]
        exact ⟨s, around, flow, hc, haround, hflow, hg⟩
  · cases h
    cases hf

/-- Only members of a class have something to stand before their names. -/
theorem Surroundings.cls_of_qualifier (h : Surroundings.of r definition = .ok around)
    (hq : around.qualifier.isSome = true) : around.cls.isSome = true := by
  obtain ⟨name, -, h⟩ := of_bind_eq_ok h
  obtain ⟨last, -, h⟩ := of_bind_eq_ok h
  obtain ⟨function, -, h⟩ := of_bind_eq_ok h
  cases h
  dsimp only at hq ⊢
  split at hq
  · rename_i hcls
    exact (Bool.and_eq_true_iff.mp hcls).1
  · cases hq

/-- The definition goes to the start of the line on which the declaration around the statements
begins. Members that are defined outside of their class are declared in it too. -/
theorem build_places {r : Request} (hf : build r s around flow = .ok f)
    (haround : Surroundings.of r definition = .ok around) : ∃ members text call,
      f.edits = members ++
        [(r.file, ⟨.point (r.lines.lineStart s.definition.outermostTemplate.span.start), text⟩),
          (r.file, ⟨s.extent, call⟩)] ∧
      (members = [] ↔ around.qualifier = none) := by
  simp only [build] at hf
  split at hf
  · rename_i hq
    obtain ⟨x, -, hf⟩ := of_bind_eq_ok hf
    cases hf
    exact ⟨[x], _, _, rfl, by simp [hq]⟩
  · rename_i hnone
    cases hf
    refine ⟨[], _, _, rfl, iff_of_true rfl ?_⟩
    by_contra hq
    have hq := Option.isSome_iff_ne_none.mpr hq
    obtain ⟨qualifier, hqualifier⟩ := Option.isSome_iff_exists.mp hq
    obtain ⟨cls, hcls⟩ := Option.isSome_iff_exists.mp (Surroundings.cls_of_qualifier haround hq)
    exact hnone cls qualifier hcls hqualifier

/-- The definition goes to the start of the line on which the declaration around the statements
begins. If only blanks stand before that on its line, both are inside of the same classes,
namespaces and blocks: of the same nodes that begin and end with code. -/
theorem offers_places (searchPaths : List Path) (headers : List Header)
    (documents : PathMap Document)
    (hr : Request.ofSelection (.ofDocuments searchPaths headers documents) settings file selection =
      some r)
    (h : offers r = .ok fs) (hf : f ∈ fs) :
    ∃ (c : Cursor) (around : Surroundings),
      let declared := c.outermostTemplate.span.start
      let place := r.lines.lineStart declared
      c.Within r.source.tree ∧ c.kind = .functionDef ∧ Surroundings.of r c.focus = .ok around ∧
      (∃ members text extent call,
        f.edits = members ++ [(r.file, ⟨.point place, text⟩), (r.file, ⟨extent, call⟩)] ∧
        (members = [] ↔ around.qualifier = none)) ∧
      (Text.hasCodeBefore r.text r.lines declared = false →
        ∀ t, IsTreeOf r.text t → Text.trim t.text = t.text →
          (t.span.IsAround place ↔ t.span.IsAround declared)) := by
  obtain ⟨s, around, flow, hc, haround, -, hbuild⟩ := offers_build h hf
  have hsound := Request.ofSelection_sound
    (Snapshot.ofDocuments_parsed searchPaths headers documents) hr
  have hwithin := hsound.find hc
  have hlines : r.lines = .ofText r.text :=
    Snapshot.ofDocuments_lines (Request.ofSelection_snapshot hr ▸ hsound.source_mem)
  obtain ⟨members, text, call, hedits, hmembers⟩ := build_places hbuild haround
  refine ⟨s.definition, around, hwithin, beq_iff_eq.mp (Request.kind_of_find? hc), haround,
    ⟨members, text, s.extent, call, hedits, hmembers⟩, fun hcode t ht htrim => ?_⟩
  rw [hlines] at hcode ⊢
  rw [← ht.slice] at htrim
  exact Text.lineStart_isAround_iff (hsound.isTreeOf hwithin.outermostTemplate).isBoundary_start
    hcode ht.isBoundary_start ht.isBoundary_stop htrim

/-- The texts that the fixes offered for a selection make of a document. -/
def textsAfter (text : String) (selection : Span) : List (Option (List (String × String))) :=
  match Request.ofSelection (snapshotOf text) {} 0 selection with
  | none => []
  | some r => ((offers r).toOption.getD []).map fun f => r.textsAfter? (changes r f)

/-- The functions that a document defines, under their qualified names. -/
def definedFunctions (text : String) : List String :=
  let t := (snapshotOf text).symbols
  ((List.range t.symbols.size).filter fun id =>
    (t.symbol id).kind.isFunction && (t.symbol id).flags.isDefinition).map t.qualifiedName

/-- A class on one line stands behind the start of the line that its member begins on, so that the
new function is no member of it. -/
theorem member_left_class :
    let after := "void extracted()\n\x7b\n    g();\n\x7d\n\n" ++
      "class A \x7b void f() \x7b extracted(); \x7d \x7d;\n"
    textsAfter "class A \x7b void f() \x7b g(); \x7d \x7d;\n" ⟨21, 25⟩ =
        [some [("/a.cpp", after)]] ∧
      definedFunctions after = ["extracted", "A::f"] := by
  decide +kernel

end ExtractFunction

end CppRefactor
