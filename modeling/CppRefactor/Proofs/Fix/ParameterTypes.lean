import CppRefactor.Proofs.Fix.FlowBack
import CppRefactor.Proofs.Symbols.Origins
import CppRefactor.Proofs.Text.Blanks

/-!
The types of the parameters of an extracted function. Each is put together from the declaration of
the variable it stands for: its specifiers without modifiers and its pointer operators. What stands
behind the name or in parentheses around it is not in it.
-/

namespace CppRefactor

/-- The type that is written for a variable: `const`, the type that is specified, and the pointer
operators. -/
def declaredType (specs d : Tree) : String :=
  let specs := (Declarator.trailingSpecifiers? d).getD specs
  let pointers := Declarator.pointerText d
  (if specs.hasToken .constKw then "const " else "") ++ Specifiers.typeText specs ++
    (if pointers.isEmpty then "" else " " ++ pointers)

theorem display_typeRef (p : Declare.Place) (specs d : Tree) (target : Option SymbolId) :
    (Declare.typeRef p specs (some d) target).display = declaredType specs d := rfl

theorem declaredType_congr {d d' : Tree} (specs : Tree)
    (hpointers : d.childrenOf .ptrOp = d'.childrenOf .ptrOp)
    (htrailing : d.child? .trailingReturn = d'.child? .trailingReturn) :
    declaredType specs d = declaredType specs d' := by
  have hp : Declarator.pointerText d = Declarator.pointerText d' := by
    simp only [Declarator.pointerText, Declarator.pointerOperators, hpointers]
  have ht : Declarator.trailingSpecifiers? d = Declarator.trailingSpecifiers? d' :=
    congrArg (·.bind (·.child? .declSpecifiers)) htrailing
  rw [declaredType, declaredType, hp, ht]

theorem squash_spellAfter (last : Kind) (ts : List Token) :
    squash (spellAfter last ts) = ts.flatMap fun t => squash t.text := by
  induction ts generalizing last with
  | nil => rfl
  | cons t ts ih =>
    rw [spellAfter, squash_append, squash_append, ih, List.flatMap_cons]
    split
    · rw [squash_space, List.nil_append]
    · rw [squash_empty, List.nil_append]

theorem squash_spell (ts : List Token) :
    squash (spell ts) = ts.flatMap fun t => squash t.text := by
  cases ts with
  | nil => rfl
  | cons t ts => rw [spell, squash_append, squash_spellAfter, List.flatMap_cons]

/-- The code of tokens, one behind the other. -/
def codeOf (ts : List Token) : List Char := ts.flatMap fun t => squash t.text

theorem codeOf_append (ts us : List Token) : codeOf (ts ++ us) = codeOf ts ++ codeOf us :=
  List.flatMap_append

theorem squash_spelling (t : Tree) : squash t.spelling = codeOf t.significant :=
  squash_spell t.significant

/-- The tokens of a part of specifiers; modifiers are left out. -/
def partTokens : Tree → List Token
  | .token t => if t.isTrivia || t.kind.isDeclModifier then [] else [t]
  | .node k s ts => (Tree.node k s ts).significant

/-- The tokens of specifiers but the modifiers. -/
def typeTokens (specs : Tree) : List Token := specs.parts.flatMap partTokens

/-- Specifiers without macros and without a class or an enumeration defined in them. -/
def SpellsType (specs : Tree) : Prop :=
  ∀ u ∈ specs.parts, u.kind ≠ .ident ∧ u.kind ≠ .classSpec ∧ u.kind ≠ .enumSpec

theorem squash_typePart? {u : Tree}
    (h : u.kind ≠ .ident ∧ u.kind ≠ .classSpec ∧ u.kind ≠ .enumSpec) :
    (Specifiers.typePart? u).elim [] squash = codeOf (partTokens u) := by
  cases u with
  | token t =>
    have hident : (t.kind == .ident) = false := beq_false_of_ne h.1
    rw [Specifiers.typePart?, partTokens, hident, Bool.or_false]
    split
    · rfl
    · exact (List.append_nil _).symm
  | node k s ts =>
    have hclass : (k == .classSpec) = false := beq_false_of_ne h.2.1
    have henum : (k == .enumSpec) = false := beq_false_of_ne h.2.2
    rw [Specifiers.typePart?, hclass, henum]
    exact squash_spelling _

theorem squash_typeText {specs : Tree} (h : SpellsType specs) :
    squash (Specifiers.typeText specs) = codeOf (typeTokens specs) := by
  have hparts (us : List Tree) (hus : ∀ u ∈ us, u ∈ specs.parts) :
      (us.filterMap Specifiers.typePart?).flatMap squash = codeOf (us.flatMap partTokens) := by
    induction us with
    | nil => rfl
    | cons u us ih =>
      obtain ⟨hu, hus⟩ := List.forall_mem_cons.mp hus
      rw [List.flatMap_cons, codeOf_append, ← squash_typePart? (h u hu), ← ih hus,
        List.filterMap_cons]
      cases Specifiers.typePart? u with
      | none => rfl
      | some part => exact List.flatMap_cons
  rw [Specifiers.typeText, squash_intercalate squash_space]
  exact hparts specs.parts fun _ hu => hu

theorem squash_pointerText (d : Tree) : squash (Declarator.pointerText d) =
    codeOf ((Declarator.pointerOperators d).flatMap (·.significant)) := by
  rw [Declarator.pointerText]
  induction Declarator.pointerOperators d with
  | nil => rfl
  | cons op ops ih =>
    rw [List.map_cons, String.join_cons, squash_append, squash_spelling, ih, List.flatMap_cons,
      codeOf_append]

/-- Without a trailing return type, a type says what the tokens of the declaration say: those of the
specifiers but the modifiers, `const` in front, and those of the pointer operators. -/
theorem squash_declaredType {specs d : Tree} (hspecs : SpellsType specs)
    (hd : Declarator.trailingSpecifiers? d = none) :
    squash (declaredType specs d) =
      (if specs.hasToken .constKw then squash "const" else []) ++ codeOf (typeTokens specs) ++
        codeOf ((Declarator.pointerOperators d).flatMap (·.significant)) := by
  have hconst : squash (if specs.hasToken .constKw then "const " else "") =
      if specs.hasToken .constKw then squash "const" else [] := by
    split
    · decide
    · rfl
  have hpointers : squash (if (Declarator.pointerText d).isEmpty then ""
      else " " ++ Declarator.pointerText d) = squash (Declarator.pointerText d) := by
    split
    · rename_i hempty
      rw [String.isEmpty_iff.mp hempty]
    · rw [squash_append, squash_space, List.nil_append]
  rw [declaredType, hd, Option.getD_none, squash_append, squash_append, hconst, hpointers,
    squash_typeText hspecs, squash_pointerText]

namespace DataFlow

variable {t : SymbolTable} {file : FileId} {s : SelectedStatements} {flow : DataFlow}
  {id : SymbolId} {v : Variable}

theorem kind_of_localOf? {definition : Span} {c : Cursor}
    (h : t.localOf? file definition c = some id) :
    (t.symbol id).kind.IsVariable ∧ (t.symbol id).file = file := by
  obtain ⟨_, -, h⟩ := Option.bind_eq_some_iff.mp h
  obtain ⟨_, -, h⟩ := Option.bind_eq_some_iff.mp h
  obtain ⟨_, -, h⟩ := Option.bind_eq_some_iff.mp h
  obtain ⟨_, -, h⟩ := Option.bind_eq_some_iff.mp h
  obtain ⟨_, hkind, h⟩ := Option.bind_eq_some_iff.mp h
  obtain ⟨_, hfile, h⟩ := Option.bind_eq_some_iff.mp h
  cases h
  simp only [Option.guard_eq_some', Bool.or_eq_true, Bool.and_eq_true, beq_iff_eq] at hkind hfile
  exact ⟨hkind, hfile.1⟩

theorem kind_of_mem_passed (h : id ∈ passed t file s) :
    (t.symbol id).kind.IsVariable ∧ (t.symbol id).file = file := by
  obtain ⟨⟨c, _⟩, hc, rfl⟩ := List.mem_map.mp (SymbolTable.mem_distinct.mp h)
  exact kind_of_localOf? (mem_entering.mp hc).2.1

/-- The parameter is made a reference so that a new value flows back. -/
def MadeReference (t : SymbolTable) (file : FileId) (s : SelectedStatements) (id : SymbolId) :
    Prop :=
  id ∈ written t file s ∧ id ∈ namedBehind t file s ∧ ¬ HasReferenceType t id

theorem of?_type (h : of? t file s = some flow) (hv : v ∈ flow.inputs) :
    ∃ id ∈ passed t file s, ∃ type, (t.symbol id).type = some type ∧
      v.name = (t.symbol id).name ∧ (MadeReference t file s id → v.type = type.display ++ " &") ∧
      (¬ MadeReference t file s id → v.type = type.display) := by
  obtain ⟨id, hid, hinput⟩ := mem_zip_of_forall₂ (of?_inputs h).flip hv
  obtain ⟨type, htype, hinput⟩ := Option.bind_eq_some_iff.mp hinput
  cases hinput
  have hreference : HasReferenceType t id ↔ type.isReference = true := by
    simp [HasReferenceType, htype]
  refine ⟨id, (List.of_mem_zip hid).2, type, htype, rfl, fun hmade => ?_, fun hnot => ?_⟩
  · obtain ⟨hw, hb, hr⟩ := hmade
    simp [hw, hb, Bool.eq_false_iff.mpr (hreference.not.mp hr)]
  · dsimp only
    rw [if_neg, String.append_empty]
    intro hback
    simp only [Bool.and_eq_true, List.contains_iff_mem, Bool.not_eq_true'] at hback
    exact hnot ⟨hback.1.1, hback.1.2, fun hr => by simp [hreference.mp hr] at hback⟩

end DataFlow

open DataFlow (passed MadeReference)

/-- Every parameter of a function that is offered stands for a variable declared in the document. It
has its name and the type that is written for it, with `&` if it is made a reference. -/
theorem ExtractFunction.offers_parameters (searchPaths : List Path) (headers : List Header)
    (documents : PathMap Document)
    (hr : Request.ofSelection (.ofDocuments searchPaths headers documents) settings file selection =
      some r)
    (h : offers r = .ok fs) (hf : f ∈ fs) :
    ∃ s around flow, DataFlow.of? r.symbols r.file s = some flow ∧ build r s around flow = .ok f ∧
      ∀ v ∈ flow.inputs, ∃ id ∈ passed r.symbols r.file s, ∃ source t specs d,
        r.snapshot.file? r.file = some source ∧ t ∈ source.tree.preorder ∧ t.Declares specs d ∧
        (r.symbols.symbol id).DeclaredBy specs d ∧ v.name = (r.symbols.symbol id).name ∧
        (MadeReference r.symbols r.file s id → v.type = declaredType specs d ++ " &") ∧
        (¬ MadeReference r.symbols r.file s id → v.type = declaredType specs d) := by
  obtain ⟨s, around, flow, -, -, hflow, hbuild⟩ := offers_build h hf
  refine ⟨s, around, flow, hflow, hbuild, fun v hv => ?_⟩
  obtain ⟨id, hid, type, htype, hname, hmade, hnot⟩ := DataFlow.of?_type hflow hv
  obtain ⟨hkind, hfile⟩ := DataFlow.kind_of_mem_passed hid
  have horigin : (r.symbols.symbol id).Originates fun i =>
      (r.snapshot.file? i).map (·.tree) := by
    have hsnapshot := Request.ofSelection_snapshot hr
    rw [Request.symbols, hsnapshot]
    exact variables_originate searchPaths headers documents id
  obtain ⟨root, t, specs, d, hroot, ht, hdeclares, hdeclared⟩ :=
    horigin hkind (by rw [htype]; rfl)
  obtain ⟨source, hsource, rfl⟩ := Option.map_eq_some_iff.mp hroot
  obtain ⟨p, target, htype'⟩ := hdeclared.2
  have hdisplay : type.display = declaredType specs d := by
    rw [Option.some.inj (htype.symm.trans htype'), display_typeRef]
  rw [hfile] at hsource
  rw [hdisplay] at hmade hnot
  exact ⟨id, hid, source, t, specs, d, hsource, ht, hdeclares, hdeclared, hname, hmade, hnot⟩

/-- An array is passed on as one of its elements: its bounds are behind the name. -/
theorem ExtractFunction.array_parameter :
    textsAfter "void f()\n\x7b\n    int a[3];\n    g(a[0]);\n\x7d\n" ⟨29, 37⟩ =
      [some [("/a.cpp", "void extracted(int a)\n\x7b\n    g(a[0]);\n\x7d\n\n" ++
        "void f()\n\x7b\n    int a[3];\n    extracted(a);\n\x7d\n")]] := by
  decide +kernel

end CppRefactor
