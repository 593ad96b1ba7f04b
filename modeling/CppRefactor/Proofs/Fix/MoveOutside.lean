import CppRefactor.Fix.MoveOutside
import CppRefactor.Proofs.Fix.InlineDefinition

/-!
What becomes of the code of functions that are moved out of their class. All that is deleted up to
the end of the body is inserted elsewhere, and nothing of what stands behind the body. Behind the
name it is inserted as it was, with what only a declaration may have.
-/

namespace CppRefactor

namespace MoveOutside

/-- The move takes definitions of the request's text elsewhere, where blank lines set them apart. -/
structure Carries (r : Request) (m : MoveOutside) (ds : List InlineDefinition) : Prop where
  stands : ∀ d ∈ ds, d.Stands r.text
  replaced : m.replaced = ds.map (·.replaced)
  text : ∃ (qualifier : String) (asInline : InlineDefinition → Bool), m.text =
    Text.setApart (r.snapshot.file m.target).text m.offset ("\n\n".intercalate
      (ds.map fun d => d.render r.text qualifier (asInline d) r.settings.indentWidth))

theorem behindClass_carries {r : Request} (h : ∀ d ∈ ds, d.Stands r.text) :
    (behindClass r cls ds label).Carries r ds := by
  refine ⟨h, rfl, cls.qualifier r.symbols r.file (cls.behind r),
    fun d => r.source.isHeader && !d.isTemplate, ?_⟩
  simp only [behindClass, Request.text, Request.source]

theorem toFile_carries {r : Request} (h : d.Stands r.text) (file : FileId) (offset : Nat)
    (qualifier : String) : (toFile r d file offset qualifier).Carries r [d] := by
  refine ⟨List.forall_mem_singleton.mpr h, rfl, qualifier, fun _ => false, ?_⟩
  rw [List.map_singleton, String.intercalate_singleton]
  rfl

theorem render_qualifying (s : Snapshot) (file : FileId) (owner : SymbolId) (text : String) :
    (DefinitionPlace.qualifying s file owner).render s text =
      Text.setApart (s.file file).text (DefinitionPlace.qualifying s file owner).offset text := by
  unfold DefinitionPlace.qualifying
  generalize DefinitionPlace.placeInChain s file _ = place
  rfl

theorem allToFile_carries {r : Request} (h : ∀ d ∈ ds, d.Stands r.text) (file : FileId) :
    (allToFile r cls ds file).Carries r ds :=
  ⟨h, rfl, (DefinitionPlace.qualifying r.snapshot file cls.symbol).qualifier, fun _ => false,
    render_qualifying ..⟩

theorem ofMember_carries {r : Request} (h : d.Stands r.text) (hm : m ∈ ofMember r d symbol cls) :
    m.Carries r [d] := by
  rcases List.mem_append.mp hm with hm | hm
  · split at hm
    · cases hm
    · split at hm
      · rw [List.mem_singleton.mp hm]
        exact toFile_carries h ..
      · rw [List.mem_singleton.mp hm]
        exact toFile_carries h ..
  · rw [List.mem_singleton.mp hm]
    exact behindClass_carries (List.forall_mem_singleton.mpr h)

theorem ofFreeFunction_carries {r : Request} (hr : r.Sound) (hc : c.Within r.source.tree)
    (hk : (c.kind == .functionDef) = true) (h : ofFreeFunction r c symbol = .ok moves)
    (hm : m ∈ moves) : ∃ ds, m.Carries r ds := by
  unfold ofFreeFunction at h
  split at h
  · cases h
    cases hm
  · obtain ⟨d, hd, h⟩ := of_bind_eq_ok h
    have hd := InlineDefinition.of?_stands (hr.isTreeOf hc) hk (of_orError hd)
    split at h
    · cases h
      cases hm
    · cases h
      rw [List.mem_singleton.mp hm]
      exact ⟨_, toFile_carries hd ..⟩

theorem offers_carries {r : Request} (hr : r.Sound) (h : offers r = .ok moves) (hm : m ∈ moves) :
    ∃ ds, m.Carries r ds := by
  unfold offers at h
  split at h
  · cases h
    cases hm
  · rename_i c hc
    have hk := Request.kind_of_find? hc
    have hc := hr.find hc
    split at h
    · cases h
      cases hm
    · obtain ⟨symbol, -, h⟩ := of_bind_eq_ok h
      split at h
      · exact ofFreeFunction_carries hr hc hk h hm
      · obtain ⟨d, hd, h⟩ := of_bind_eq_ok h
        cases h
        exact ⟨_, ofMember_carries
          (InlineDefinition.of?_stands (hr.isTreeOf hc) hk (of_orError hd)) hm⟩

/-- A move of the functions of a class carries all that are defined in its body. -/
theorem offersAll_carries {r : Request} (hr : r.Sound) (h : offersAll r = .ok moves)
    (hm : m ∈ moves) : ∃ ds, m.Carries r ds := by
  unfold offersAll at h
  split at h
  · cases h
    cases hm
  · rename_i spec hspec
    obtain ⟨cls, hcls, h⟩ := of_bind_eq_ok h
    have hwithin : cls.spec.Within r.source.tree :=
      DeclaredClass.of?_spec (of_orError hcls) ▸ hr.find (Option.filter_eq_some_iff.mp hspec).1
    have hds : ∀ d ∈ cls.definitionsInBody, d.Stands r.text :=
      fun d hd => DeclaredClass.definitionsInBody_stand hr hwithin hd
    dsimp only at h
    split at h
    · cases h
      cases hm
    · cases h
      rcases List.mem_append.mp hm with hm | hm
      · obtain ⟨file, -, rfl⟩ := Option.map_eq_some_iff.mp (Option.mem_toList.mp hm)
        exact ⟨_, allToFile_carries hds file⟩
      · rw [List.mem_singleton.mp hm]
        exact ⟨_, behindClass_carries hds⟩

theorem squash_definitions (texts : List String) :
    squash ("\n\n".intercalate texts) = texts.flatMap squash :=
  squash_intercalate (by decide) texts

/-- All deleted code is inserted, behind the declarations, unless a function has handlers. -/
theorem Carries.keeps_code {r : Request} {m : MoveOutside} {ds : List InlineDefinition}
    (h : m.Carries r ds) (hds : ∀ d ∈ ds, d.hasHandlers = false) :
    ∃ (qualifier : String) (asInline : InlineDefinition → Bool), squash m.text =
      ds.flatMap fun d => squash (d.heading r.text qualifier (asInline d)) ++
        squash (Text.slice r.text d.replaced) := by
  obtain ⟨qualifier, asInline, htext⟩ := h.text
  refine ⟨qualifier, asInline, ?_⟩
  rw [htext, squash_setApart, squash_definitions, List.flatMap_map]
  refine congrArg List.flatten (List.map_congr_left fun d hd => ?_)
  exact (h.stands d hd).render_keeps (hds d hd) qualifier (asInline d) r.settings.indentWidth

/-- Every definition that is carried stands in the text that is inserted. -/
theorem Carries.infix_render {r : Request} {m : MoveOutside} {ds : List InlineDefinition}
    (h : m.Carries r ds) (hd : d ∈ ds) : ∃ (qualifier : String) (asInline : Bool),
      (d.render r.text qualifier asInline r.settings.indentWidth).toList <:+: m.text.toList := by
  obtain ⟨qualifier, asInline, htext⟩ := h.text
  refine ⟨qualifier, asInline d, ?_⟩
  have hrendered := List.mem_map_of_mem
    (f := fun d => d.render r.text qualifier (asInline d) r.settings.indentWidth) hd
  rw [htext]
  exact (infix_intercalate "\n\n" hrendered).trans (Text.infix_setApart ..)

/-- Semicolons replace what is deleted, and the definitions are inserted; nothing else is edited. -/
theorem changes_editsAt (r : Request) (m : MoveOutside) (path : Path) :
    (m.changes r).editsAt path =
      (if RemoveUsing.pathOf r.snapshot r.file = path then m.replaced.map (⟨·, ";"⟩) else []) ++
        if RemoveUsing.pathOf r.snapshot m.target = path then [⟨.point m.offset, m.text⟩]
        else [] := by
  have hsource (change : Change) := RemoveUsing.edits_foldl_add (⟨·, ";"⟩) m.replaced change
  refine (Changeset.editsAt_editFile_add _ r.snapshot m.target _ path).trans ?_
  exact congrArg (· ++ _) (Changeset.editsAt_edit hsource .empty _ _ path)

/-- The body of a function that is tried has its handlers behind it. -/
theorem handlers_lost :
    Request.textsOffered offers changes (RemoveUsing.snapshotOf
        "class A \x7b\n    void f() try \x7b g(); \x7d catch (...) \x7b h(); \x7d\n\x7d;\n") 0 19 =
      [some [("/a.cpp",
        "class A \x7b\n    void f();\n\x7d;\n\nvoid A::f() try \x7b g(); \x7d\n")]] := by
  decide +kernel

/-- What stands between the name of a function and its body follows the name elsewhere too, and all
parts of the definition that are written there with it. -/
theorem signature_kept {r : Request} (hr : r.Sound)
    (h : offers r = .ok moves ∨ offersAll r = .ok moves) (hm : m ∈ moves) :
    ∃ ds : List InlineDefinition, m.Carries r ds ∧ ∀ d ∈ ds,
      ∃ name, Declarator.name? d.declarator = some name ∧
        (name.text ++ Text.trim (Text.slice r.text ⟨name.span.stop, d.body.span.start⟩)).toList <:+:
          m.text.toList ∧
        ∀ p ∈ d.definition.preorder, name.span.stop ≤ p.span.start →
          p.span.stop ≤ d.body.span.start → (Text.trim p.text).toList <:+:
            (Text.trim (Text.slice r.text ⟨name.span.stop, d.body.span.start⟩)).toList := by
  obtain ⟨ds, hcarries⟩ : ∃ ds, m.Carries r ds :=
    h.elim (offers_carries hr · hm) (offersAll_carries hr · hm)
  refine ⟨ds, hcarries, fun d hd => ?_⟩
  obtain ⟨qualifier, asInline, hrender⟩ := hcarries.infix_render hd
  obtain ⟨name, hmem, hname, hbehind⟩ :=
    (hcarries.stands d hd).render_behindName qualifier asInline r.settings.indentWidth
  exact ⟨name, hname, hbehind.trans hrender,
    fun p hp => (hcarries.stands d hd).infix_behindName hmem hp⟩

/-- The default arguments of the functions that are defined in a text, and what stands behind their
parameters. -/
def defaultsAndQualifiers (text : String) : List (List String × String) :=
  ((parse text).tree.preorder.filter (·.kind == .functionDef)).filterMap fun t => do
    let declarator ← t.declarator?
    let parameters ← Declarator.parameters? declarator
    return ((Parameters.list parameters).filterMap fun p => (p.child? .initializer).map Tree.text,
      Declarator.qualifiers declarator)

/-- So `virtual` is left out behind the class, but the default argument and `override` are not. -/
theorem default_argument_repeated :
    let after := "class A \x7b\n    virtual void f(int n = 1) override;\n\x7d;\n\n" ++
      "void A::f(int n = 1) override \x7b g(n); \x7d\n"
    Request.textsOffered offers changes (RemoveUsing.snapshotOf
        "class A \x7b\n    virtual void f(int n = 1) override \x7b g(n); \x7d\n\x7d;\n") 0 27 =
        [some [("/a.cpp", after)]] ∧
      defaultsAndQualifiers after = [(["= 1"], "override")] := by
  decide +kernel

/-- Documents by their paths. -/
def snapshotOfAll (documents : List (String × String)) : Snapshot :=
  (documents.foldl (fun w (path, text) => (w.set (.ofString path) text).2)
    (Workspace.ofSearchPaths none [])).snapshot

/-- What the name at a span of a file of documents stands for. -/
def meaningAmong? (documents : List (String × String)) (file : FileId) (span : Span) :
    Option String := do
  let s := snapshotOfAll documents
  let name ← (s.file file).root.nodes.find? fun n => n.kind == .qualifiedName && n.span == span
  return s.symbols.qualifiedName (← s.symbols.symbolOf? file name)

/-- The result type stands before the qualifier. At the end of the implementation file, outside of
the namespace, it names nothing, while the body finds the same type behind the class. -/
theorem result_type_lost :
    let header (member : String) :=
      "namespace N \x7b\nstruct S \x7b\x7d;\nclass A \x7b\n    " ++ member ++ "\n\x7d;\n\x7d\n"
    let before := [("/a.cpp", "#include \"a.h\"\n"), ("/a.h", header "S f() \x7b return S(); \x7d")]
    let after := [("/a.cpp", "#include \"a.h\"\n\nS N::A::f() \x7b return S(); \x7d\n"),
      ("/a.h", header "S f();")]
    (Request.textsOffered offers changes (snapshotOfAll before) 1 43).head? =
        some (some after.reverse) ∧
      meaningAmong? before 1 ⟨41, 42⟩ = some "N::S" ∧
      meaningAmong? before 1 ⟨56, 57⟩ = some "N::S" ∧
      meaningAmong? after 0 ⟨16, 17⟩ = none ∧ meaningAmong? after 0 ⟨37, 38⟩ = some "N::S" := by
  decide +kernel

end MoveOutside

end CppRefactor
