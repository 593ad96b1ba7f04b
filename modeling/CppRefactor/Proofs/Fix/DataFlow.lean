import CppRefactor.Proofs.Fix.ExtractFunction

/-!
Which variables selected statements get as parameters: those outside of them that their references
name. An identifier without a reference around it is not looked at.
-/

namespace CppRefactor

namespace DataFlow

/-- The references in the selected statements that name variables of the function from outside the
statements. -/
def entering (t : SymbolTable) (file : FileId) (s : SelectedStatements) :
    List (Cursor × SymbolId) :=
  (uses t file s (s.statements.flatMap (·.nodesOf .nameRef))).filter fun (_, id) =>
    !s.extent.encloses (t.symbol id).nameSpan

theorem mem_entering {id : SymbolId} : (c, id) ∈ entering t file s ↔
    (∃ statement ∈ s.statements, c ∈ statement.nodesOf .nameRef) ∧
      t.localOf? file s.definition.span c = some id ∧
        ¬ s.extent.encloses (t.symbol id).nameSpan = true := by
  simp [entering, uses, and_assoc]

theorem input?_name {id : SymbolId} (h : input? t flowsBack id = some v) :
    v.name = (t.symbol id).name := by
  obtain ⟨type, -, h⟩ := Option.bind_eq_some_iff.mp h
  cases h
  rfl

theorem mapM_input?_names {ids : List SymbolId} (h : ids.mapM (input? t flowsBack) = some vs) :
    vs.map (·.name) = ids.map fun id => (t.symbol id).name := by
  induction ids generalizing vs with
  | nil =>
    cases h
    rfl
  | cons id ids ih =>
    rw [List.mapM_cons] at h
    obtain ⟨v, hv, h⟩ := Option.bind_eq_some_iff.mp h
    obtain ⟨rest, hrest, h⟩ := Option.bind_eq_some_iff.mp h
    cases h
    rw [List.map_cons, List.map_cons, input?_name hv, ih hrest]

theorem of?_names (h : of? t file s = some flow) :
    flow.inputs.map (·.name) =
      (SymbolTable.distinct ((entering t file s).map (·.2))).map fun id => (t.symbol id).name := by
  obtain ⟨_, -, h⟩ := Option.bind_eq_some_iff.mp h
  obtain ⟨inputs, hinputs, h⟩ := Option.bind_eq_some_iff.mp h
  have he : flow.inputs = inputs := by
    split at h
    · cases h
      rfl
    · obtain ⟨type, -, h⟩ := Option.bind_eq_some_iff.mp h
      cases h
      rfl
  rw [he]
  exact mapM_input?_names hinputs

/-- A name is that of a parameter if a reference in the statements names a variable so called that
is declared outside of them. -/
theorem of?_parameter_iff (h : of? t file s = some flow) (name : String) :
    (∃ v ∈ flow.inputs, v.name = name) ↔
      ∃ c id, (∃ statement ∈ s.statements, c ∈ statement.nodesOf .nameRef) ∧
        t.localOf? file s.definition.span c = some id ∧
          ¬ s.extent.encloses (t.symbol id).nameSpan = true ∧ (t.symbol id).name = name := by
  have hnames : (∃ v ∈ flow.inputs, v.name = name) ↔ name ∈ flow.inputs.map (·.name) :=
    List.mem_map.symm
  rw [hnames, of?_names h]
  constructor
  · intro hname
    obtain ⟨id, hid, hname⟩ := List.mem_map.mp hname
    obtain ⟨⟨c, _⟩, hc, rfl⟩ := List.mem_map.mp (SymbolTable.mem_distinct.mp hid)
    obtain ⟨hin, hlocal, hout⟩ := mem_entering.mp hc
    exact ⟨c, _, hin, hlocal, hout, hname⟩
  · rintro ⟨c, id, hin, hlocal, hout, hname⟩
    refine List.mem_map.mpr ⟨id, SymbolTable.mem_distinct.mpr ?_, hname⟩
    exact List.mem_map.mpr ⟨(c, id), mem_entering.mpr ⟨hin, hlocal, hout⟩, rfl⟩

/-- An identifier, looked up where it stands, is a variable of the function from outside the
statements. -/
def isFree (t : SymbolTable) (file : FileId) (s : SelectedStatements) (token : Token) : Bool :=
  (t.siteAt? file token.offset).any fun site =>
    (t.lookup ⟨site, .objects, []⟩ token.text).head?.any fun id =>
      let found := t.symbol id
      (found.kind == .variableKind || found.kind == .parameter) && found.file == file &&
        s.definition.span.encloses found.nameSpan && !s.extent.encloses found.nameSpan

/-- The identifiers that are not looked up in what stands before them; `behind` says that the token
before asks for that. -/
def unqualified (behind : Bool) : List Token → List Token
  | [] => []
  | t :: ts =>
    if t.isTrivia then unqualified behind ts
    else
      let rest := unqualified ([.dot, .arrow, .colonColon].contains t.kind) ts
      if t.kind == .ident && !behind then t :: rest else rest

/-- The identifiers of the statements that are free. -/
def free (t : SymbolTable) (file : FileId) (s : SelectedStatements) : List String :=
  let identifiers := s.statements.flatMap fun c => unqualified false c.focus.leaves
  (identifiers.filter (isFree t file s)).map (·.text)

/-- For a selection of a document: what the text becomes, the free identifiers, and the names of
the parameters. -/
def extracted? (text : String) (selection : Span) :
    Option (List (Option (List (String × String))) × List String × List String) := do
  let r ← Request.ofSelection (RemoveUsing.snapshotOf text) {} 0 selection
  let fixes := (ExtractFunction.offers r).toOption.getD []
  let definition ← r.find? .functionDef
  let body ← definition.child? .compoundStmt
  let s ← ExtractFunction.selected? r definition body selection
  let flow ← of? r.symbols r.file s
  return (fixes.map fun f => ((f.changes r).preview fun _ => some ⟨text, 1⟩).toOption,
    free r.symbols r.file s, flow.inputs.map (·.name))

/-- The bound of an array is no expression, so that the parameter in it is not passed on. -/
theorem array_bound_free :
    extracted? "void f(int n)\n\x7b\n    int a[n];\n\x7d\n" ⟨20, 29⟩ = some (
      [some [("/a.cpp", "void extracted()\n\x7b\n    int a[n];\n\x7d\n\n" ++
        "void f(int n)\n\x7b\n    extracted();\n\x7d\n")]], ["n"], []) := by
  decide +kernel

end DataFlow

end CppRefactor
