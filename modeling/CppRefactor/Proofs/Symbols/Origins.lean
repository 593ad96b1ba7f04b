import CppRefactor.Proofs.Symbols.Every

/-!
Where the variables of a symbol table come from: each has its name and its type from specifiers and
a declarator in the tree of its file.
-/

namespace CppRefactor

/-- If the symbol is a variable that has a type, it is declared in the tree of its file. -/
def Symbol.Originates (trees : FileId → Option Tree) (s : Symbol) : Prop :=
  s.kind.IsVariable → s.type.isSome → ∃ root t specs d, trees s.file = some root ∧
    t ∈ root.preorder ∧ t.Declares specs d ∧ s.DeclaredBy specs d

theorem Symbol.DeclaredIn.originates {s : Symbol} {id : FileId} (h : s.DeclaredIn id root)
    (hroot : trees id = some root) : s.Originates trees := by
  intro hk htype
  obtain ⟨t, specs, d, ht, hdeclares, hdeclared⟩ := h.declared hk htype
  exact ⟨root, t, specs, d, h.inFile ▸ hroot, ht, hdeclares, hdeclared⟩

theorem Symbol.originates_lasting (trees : FileId → Option Tree) :
    Lasting (Originates trees) where
  space hs := by
    intro hk
    rw [SymbolKind.IsVariable, eq_of_beq hs] at hk
    exact hk.elim nofun nofun
  setScope _ hs := hs
  setInline hs := hs
  setFunction _ := nofun

def SymbolTable.Originate (trees : FileId → Option Tree) (t : SymbolTable) : Prop :=
  ∀ i, (t.symbol i).Originates trees

/-- In a table of documents every variable that has a type is declared in its document. -/
theorem symbolsOf_originate (files : List SourceFile) (graph : IncludeGraph) :
    (Snapshot.symbolsOf files graph).Originate fun id => (files[id]?).map (·.tree) :=
  SymbolTable.EverySymbol.symbolsOf (Symbol.originates_lasting _) graph fun _ _ hf _ _ hs =>
    hs.originates (congrArg (Option.map (·.tree)) hf)

theorem variables_originate (searchPaths : List Path) (headers : List Header)
    (documents : PathMap Document) :
    let s := Snapshot.ofDocuments searchPaths headers documents
    s.symbols.Originate fun id => (s.file? id).map (·.tree) := by
  simp only [Snapshot.file?_ofDocuments]
  exact symbolsOf_originate _ _

end CppRefactor
