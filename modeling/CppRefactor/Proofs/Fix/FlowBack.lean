import CppRefactor.Proofs.Fix.DataFlow
import Mathlib.Data.List.Forall2

/-!
Which writes of extracted statements reach the function around them. A parameter is made a reference
if the statements write to the variable and a reference further down in the text names it. That is
enough unless a loop around the statements leads back to a reference before them.
-/

namespace CppRefactor

theorem forall₂_of_mapM {f : α → Option β} {as : List α} {bs : List β}
    (h : as.mapM f = some bs) : List.Forall₂ (fun a b => f a = some b) as bs := by
  induction as generalizing bs with
  | nil =>
    cases h
    exact .nil
  | cons a as ih =>
    rw [List.mapM_cons] at h
    obtain ⟨b, hb, h⟩ := Option.bind_eq_some_iff.mp h
    obtain ⟨rest, hrest, h⟩ := Option.bind_eq_some_iff.mp h
    cases h
    exact .cons hb (ih hrest)

theorem mem_zip_of_forall₂ {R : α → β → Prop} {as : List α} {bs : List β}
    (h : List.Forall₂ R as bs) (ha : a ∈ as) : ∃ b, (a, b) ∈ as.zip bs ∧ R a b := by
  induction h with
  | nil => cases ha
  | cons hab _ ih =>
    cases ha with
    | head => exact ⟨_, List.mem_cons_self, hab⟩
    | tail _ ha =>
      obtain ⟨b, hb, hR⟩ := ih ha
      exact ⟨b, List.mem_cons_of_mem _ hb, hR⟩

namespace DataFlow

/-- The variables that become parameters, in the order of the parameters. -/
def passed (t : SymbolTable) (file : FileId) (s : SelectedStatements) : List SymbolId :=
  SymbolTable.distinct ((entering t file s).map (·.2))

/-- The variables from outside that the statements write to. -/
def written (t : SymbolTable) (file : FileId) (s : SelectedStatements) : List SymbolId :=
  ((entering t file s).filter fun (c, _) => isWritten c).map (·.2)

/-- The variables that are named behind the statements. -/
def namedBehind (t : SymbolTable) (file : FileId) (s : SelectedStatements) : List SymbolId :=
  (uses t file s ((s.body.nodesOf .nameRef).filter fun c => s.extent.stop ≤ c.span.start)).map (·.2)

/-- The loops of the function that the statements stand in. -/
def loops (s : SelectedStatements) : List Cursor :=
  (s.statements.flatMap (·.enclosing)).filter fun c =>
    c.kind.isLoop && s.body.span.encloses c.span

/-- The variables that are named in the loops around the statements. -/
def namedInLoops (t : SymbolTable) (file : FileId) (s : SelectedStatements) : List SymbolId :=
  (uses t file s ((loops s).flatMap (·.nodesOf .nameRef))).map (·.2)

/-- The parameter for a variable is a reference: the variable is one, or `&` has been added. -/
def IsReference (t : SymbolTable) (id : SymbolId) (v : Variable) : Prop :=
  ∃ type, (t.symbol id).type = some type ∧
    (type.isReference = true ∨ v.type = type.display ++ " &")

def HasReferenceType (t : SymbolTable) (id : SymbolId) : Prop :=
  ∃ type, (t.symbol id).type = some type ∧ type.isReference = true

theorem mem_written {id : SymbolId} : id ∈ written t file s ↔
    ∃ c, (c, id) ∈ entering t file s ∧ isWritten c = true := by
  simp [written]

theorem mem_passed_of_mem_written {id : SymbolId} (h : id ∈ written t file s) :
    id ∈ passed t file s := by
  obtain ⟨c, hc, -⟩ := mem_written.mp h
  exact SymbolTable.mem_distinct.mpr (List.mem_map.mpr ⟨(c, id), hc, rfl⟩)

theorem of?_inputs (h : of? t file s = some flow) :
    List.Forall₂ (fun id v => input? t (fun id =>
      (written t file s).contains id && (namedBehind t file s).contains id) id = some v)
      (passed t file s) flow.inputs := by
  obtain ⟨_, -, h⟩ := Option.bind_eq_some_iff.mp h
  obtain ⟨inputs, hinputs, h⟩ := Option.bind_eq_some_iff.mp h
  have he : flow.inputs = inputs := by
    split at h
    · cases h
      rfl
    · obtain ⟨type, -, h⟩ := Option.bind_eq_some_iff.mp h
      cases h
      rfl
  rw [he]
  exact forall₂_of_mapM hinputs

theorem input?_isReference {id : SymbolId} (h : input? t flowsBack id = some v) :
    IsReference t id v ↔ flowsBack id = true ∨ HasReferenceType t id := by
  obtain ⟨type, htype, h⟩ := Option.bind_eq_some_iff.mp h
  cases h
  have hne : type.display ≠ type.display ++ " &" := by
    intro h
    have := congrArg String.length h
    simp at this
  simp only [IsReference, HasReferenceType, htype, Option.some.injEq, exists_eq_left']
  cases flowsBack id <;> cases type.isReference <;> simp [hne]

/-- A parameter is a reference if the variable is one, or if it is written to and named behind the
statements. -/
theorem of?_isReference_iff {id : SymbolId} (h : of? t file s = some flow)
    (hv : (id, v) ∈ (passed t file s).zip flow.inputs) :
    IsReference t id v ↔
      id ∈ written t file s ∧ id ∈ namedBehind t file s ∨ HasReferenceType t id := by
  rw [input?_isReference ((List.forall₂_iff_zip.mp (of?_inputs h)).2 hv)]
  simp

/-- No write is lost: the caller sees the new value of each variable that is named behind the
statements or in a loop around them. -/
def KeepsWrites (t : SymbolTable) (file : FileId) (s : SelectedStatements) (flow : DataFlow) :
    Prop :=
  ∀ id ∈ written t file s, id ∈ namedBehind t file s ∨ id ∈ namedInLoops t file s →
    ∃ v, (id, v) ∈ (passed t file s).zip flow.inputs ∧ IsReference t id v

/-- Writes are lost just to loops that name a variable nowhere behind the statements. -/
theorem of?_keepsWrites_iff (h : of? t file s = some flow) :
    KeepsWrites t file s flow ↔
      ∀ id ∈ written t file s, id ∈ namedInLoops t file s →
        id ∈ namedBehind t file s ∨ HasReferenceType t id := by
  constructor
  · intro hkeeps id hw hl
    obtain ⟨v, hv, hr⟩ := hkeeps id hw (.inr hl)
    exact ((of?_isReference_iff h hv).mp hr).imp_left And.right
  · intro hloops id hw hagain
    obtain ⟨v, hv, -⟩ := mem_zip_of_forall₂ (of?_inputs h) (mem_passed_of_mem_written hw)
    refine ⟨v, hv, (of?_isReference_iff h hv).mpr ?_⟩
    have hb : id ∈ namedBehind t file s ∨ HasReferenceType t id :=
      hagain.elim .inl (hloops id hw)
    exact hb.imp_left fun hb => ⟨hw, hb⟩

theorem of?_keepsWrites (h : of? t file s = some flow) (hloops : loops s = []) :
    KeepsWrites t file s flow := by
  rw [of?_keepsWrites_iff h]
  intro id _ hl
  simp [namedInLoops, uses, hloops] at hl

/-- For a selection of a document: what the text becomes, the names of the variables that are
written to and named in loops around, and the parameters. -/
def extractedFrom? (text : String) (selection : Span) :
    Option (List (Option (List (String × String))) × List String × String) := do
  let r ← Request.ofSelection (RemoveUsing.snapshotOf text) {} 0 selection
  let fixes := (ExtractFunction.offers r).toOption.getD []
  let definition ← r.find? .functionDef
  let body ← definition.child? .compoundStmt
  let s ← ExtractFunction.selected? r definition body selection
  let flow ← of? r.symbols r.file s
  let again := (written r.symbols r.file s).filter (namedInLoops r.symbols r.file s).contains
  return (fixes.map fun f => ((f.changes r).preview fun _ => some ⟨text, 1⟩).toOption,
    again.map fun id => (r.symbols.symbol id).name, flow.parameters)

/-- The loop counts down in its body alone. Once that is a function of its own, the condition never
sees the new value. -/
theorem countdown_lost :
    extractedFrom?
        "void f(int n)\n\x7b\n    while (n > 0) \x7b\n        n = n - 1;\n    \x7d\n\x7d\n"
        ⟨44, 54⟩ = some (
      [some [("/a.cpp", "void extracted(int n)\n\x7b\n    n = n - 1;\n\x7d\n\n" ++
        "void f(int n)\n\x7b\n    while (n > 0) \x7b\n        extracted(n);\n    \x7d\n\x7d\n")]],
      ["n"], "int n") := by
  decide +kernel

end DataFlow

end CppRefactor
