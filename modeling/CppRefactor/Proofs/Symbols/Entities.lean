import CppRefactor.Proofs.Symbols.Links

/-!
When two symbols denote the same. Classes, namespaces and objects do so by their qualified names,
functions only by their links: a definition and its declaration, but not two definitions of one
declaration.
-/

namespace CppRefactor

namespace SymbolTable

/-- Both declare a class, or both something else that is no function, under one qualified name. -/
structure Redeclares (t : SymbolTable) (a b : SymbolId) : Prop where
  kind : ((t.symbol a).kind.isClass = true ∧ (t.symbol b).kind.isClass = true) ∨
    ((t.symbol a).kind = (t.symbol b).kind ∧ (t.symbol a).kind.isFunction = false)
  name : (t.symbol a).name = (t.symbol b).name
  qualifiedName : t.qualifiedName a = t.qualifiedName b

inductive SameEntity (t : SymbolTable) : SymbolId → SymbolId → Prop
  | refl (a : SymbolId) : t.SameEntity a a
  | declaration (h : t.declaration? a = some b) : t.SameEntity a b
  | definition (h : t.declaration? b = some a) : t.SameEntity a b
  | again (h : t.Redeclares a b) : t.SameEntity a b

/-- Two definitions that are linked to one declaration. -/
structure DefinedTwice (t : SymbolTable) (d a b : SymbolId) : Prop where
  ne : a ≠ b
  left : t.declaration? a = some d
  right : t.declaration? b = some d

/-- Only functions are linked, from one that has a body to one that has none. -/
def LinksFunctions (t : SymbolTable) : Prop :=
  ∀ d f, t.declaration? f = some d → (t.symbol f).kind.isFunction = true ∧
    (t.symbol f).flags.isDefinition = true ∧ t.Declares d f

variable {t : SymbolTable} {a b c d : SymbolId}

theorem denoteSame_iff : t.denoteSame a b = true ↔ t.SameEntity a b := by
  constructor
  · intro h
    simp only [denoteSame, Bool.or_eq_true, Bool.and_eq_true, beq_iff_eq, Bool.not_eq_true'] at h
    obtain ((rfl | hd) | hd) | ⟨⟨hkind, hname⟩, hqualified⟩ := h
    · exact .refl a
    · exact .declaration hd
    · exact .definition hd
    · exact .again ⟨hkind, hname, hqualified⟩
  · intro h
    simp only [denoteSame, Bool.or_eq_true, Bool.and_eq_true, beq_iff_eq, Bool.not_eq_true']
    cases h with
    | refl => exact .inl (.inl (.inl rfl))
    | declaration hd => exact .inl (.inl (.inr hd))
    | definition hd => exact .inl (.inr hd)
    | again h => exact .inr ⟨⟨h.kind, h.name⟩, h.qualifiedName⟩

namespace Redeclares

theorem symm (h : t.Redeclares a b) : t.Redeclares b a where
  kind := by
    rcases h.kind with ⟨ha, hb⟩ | ⟨he, ha⟩
    · exact .inl ⟨hb, ha⟩
    · exact .inr ⟨he.symm, he ▸ ha⟩
  name := h.name.symm
  qualifiedName := h.qualifiedName.symm

theorem trans (hab : t.Redeclares a b) (hbc : t.Redeclares b c) : t.Redeclares a c where
  kind := by
    rcases hab.kind with ⟨ha, hb⟩ | ⟨he, ha⟩
    · rcases hbc.kind with ⟨-, hc⟩ | ⟨he, -⟩
      · exact .inl ⟨ha, hc⟩
      · exact .inl ⟨ha, he ▸ hb⟩
    · rw [he] at ha ⊢
      exact hbc.kind.imp_right fun ⟨he', _⟩ => ⟨he', ha⟩
  name := hab.name.trans hbc.name
  qualifiedName := hab.qualifiedName.trans hbc.qualifiedName

theorem not_function (h : t.Redeclares a b) : (t.symbol a).kind.isFunction = false := by
  rcases h.kind with ⟨ha, -⟩ | ⟨-, ha⟩
  · refine Bool.eq_false_iff.mpr fun hf => ?_
    exact Bool.false_ne_true ((SymbolKind.isFunction_apart hf).1.symm.trans ha)
  · exact ha

end Redeclares

theorem SameEntity.symm (h : t.SameEntity a b) : t.SameEntity b a := by
  cases h with
  | refl => exact .refl a
  | declaration h => exact .definition h
  | definition h => exact .declaration h
  | again h => exact .again h.symm

namespace LinksFunctions

variable (h : t.LinksFunctions)

include h

theorem not_again (hd : t.declaration? a = some d) : ¬ t.Redeclares a b ∧ ¬ t.Redeclares d b := by
  obtain ⟨ha, -, hdeclares⟩ := h d a hd
  constructor
  · exact fun hab => Bool.false_ne_true (hab.not_function.symm.trans ha)
  · exact fun hdb => Bool.false_ne_true (hdb.not_function.symm.trans hdeclares.isFunction)

theorem declaration?_eq_none (hd : t.declaration? a = some d) : t.declaration? d = none := by
  refine Option.eq_none_iff_forall_ne_some.mpr fun d' hd' => ?_
  exact Bool.false_ne_true ((h d a hd).2.2.noBody.symm.trans (h d' d hd').2.1)

theorem not_same (hab : t.DefinedTwice d a b) : ¬ t.SameEntity a b := by
  intro hsame
  cases hsame with
  | refl => exact hab.ne rfl
  | declaration hb =>
    obtain rfl := Option.some.inj (hab.left.symm.trans hb)
    exact nomatch (h.declaration?_eq_none hab.left).symm.trans hab.right
  | definition ha =>
    obtain rfl := Option.some.inj (hab.right.symm.trans ha)
    exact nomatch (h.declaration?_eq_none hab.right).symm.trans hab.left
  | again hre => exact (h.not_again hab.left).1 hre

/-- From one symbol to the next and on, a link meets a link only, and ends where it began unless it
goes from one definition to another. -/
theorem trans (hab : t.SameEntity a b) (hbc : t.SameEntity b c) :
    t.SameEntity a c ∨ t.DefinedTwice b a c := by
  cases hab with
  | refl => exact .inl hbc
  | declaration hb =>
    cases hbc with
    | refl => exact .inl (.declaration hb)
    | declaration hc => exact nomatch (h.declaration?_eq_none hb).symm.trans hc
    | definition hc =>
      by_cases hne : a = c
      · exact .inl (hne ▸ .refl a)
      · exact .inr ⟨hne, hb, hc⟩
    | again hre => exact absurd hre (h.not_again hb).2
  | definition ha =>
    cases hbc with
    | refl => exact .inl (.definition ha)
    | declaration hc =>
      obtain rfl := Option.some.inj (ha.symm.trans hc)
      exact .inl (.refl a)
    | definition hc => exact nomatch (h.declaration?_eq_none hc).symm.trans ha
    | again hre => exact absurd hre (h.not_again ha).1
  | again hre =>
    cases hbc with
    | refl => exact .inl (.again hre)
    | declaration hc => exact absurd hre.symm (h.not_again hc).1
    | definition hc => exact absurd hre.symm (h.not_again hc).2
    | again hre' => exact .inl (.again (hre.trans hre'))

end LinksFunctions

end SymbolTable

/-- Every symbol denotes the same as itself, and if one does as another, then so does the other as
the one. What denotes the same as a third does so as well, but for two definitions that are linked
to the third. -/
theorem entities_same (searchPaths : List Path) (headers : List Header)
    (documents : PathMap Document) :
    let t := (Snapshot.ofDocuments searchPaths headers documents).symbols
    (∀ a, t.denoteSame a a = true) ∧
    (∀ a b, t.denoteSame a b = true → t.denoteSame b a = true) ∧
    ∀ a b c, t.denoteSame a b = true → t.denoteSame b c = true →
      (t.denoteSame a c = true ↔ ¬ t.DefinedTwice b a c) := by
  intro t
  have h : t.LinksFunctions := symbols_linked_functions searchPaths headers documents
  simp only [SymbolTable.denoteSame_iff]
  refine ⟨.refl, fun a b hab => hab.symm, fun a b c hab hbc => ⟨fun hac htwice => ?_, ?_⟩⟩
  · exact h.not_same htwice hac
  · exact (h.trans hab hbc).resolve_right

/-- Two definitions of one function, for two settings of the preprocessor, denote the same as its
declaration, but not as one another. So the short name, which finds all three, names the declaration
alone, and the first definition is named by the qualified one. -/
theorem definitions_apart :
    let text := "namespace N \x7b\n#ifdef A\nvoid f() \x7b\x7d\n#endif\nvoid f();\n" ++
      "#ifndef A\nvoid f() \x7b\x7d\n#endif\nint n;\n\x7d\n"
    let t := (Snapshot.ofDocuments [] [] ⟨[(.ofString "/a.cpp", ⟨text, 0⟩)]⟩).symbols
    (t.denoteSame 2 3 = true ∧ t.denoteSame 3 4 = true ∧ t.denoteSame 2 4 = false) ∧
      t.shortestName ⟨0, 1, 81⟩ [] 2 = "N::f" ∧ t.shortestName ⟨0, 1, 81⟩ [] 3 = "f" := by
  decide +kernel

end CppRefactor
