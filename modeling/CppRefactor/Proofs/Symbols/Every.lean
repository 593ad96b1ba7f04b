import CppRefactor.Proofs.Symbols.Placement

/-!
What holds of every symbol of a table. A property of symbols that does not depend on what is set
later holds of all of them if it holds of each as it is declared.
-/

namespace CppRefactor

/-- A property that namespaces have, and that a symbol keeps when its scope is entered, when it is
found to be inline and when it is found to be no member of a class. -/
structure Symbol.Lasting (p : Symbol → Prop) : Prop where
  space {s : Symbol} : s.isNamespace = true → p s
  setScope {s : Symbol} (scope : Option ScopeId) : p s → p { s with scope }
  setInline {s : Symbol} : p s → p { s with flags := { s.flags with isInline := true } }
  setFunction {s : Symbol} : p s → p { s with kind := .function }

namespace SymbolTable

/-- The symbols of a table all have a property. -/
def EverySymbol (p : Symbol → Prop) (t : SymbolTable) : Prop := ∀ i, p (t.symbol i)

namespace EverySymbol

variable {p : Symbol → Prop} {t : SymbolTable} {file : FileId} {root : Tree}
  (hp : Symbol.Lasting p)

theorem modifySymbol (h : EverySymbol p t) (id : SymbolId) {f : Symbol → Symbol}
    (hf : ∀ {s}, p s → p (f s)) : EverySymbol p (t.modifySymbol id f) := by
  intro i
  rw [symbol_modifySymbol]
  split
  · exact hf (h i)
  · exact h i

theorem addDetached (h : EverySymbol p t) {s : Symbol} (hs : p s) :
    EverySymbol p (t.addDetached s).2 := by
  intro i
  rw [symbol_addDetached]
  split
  · exact hs
  · exact h i

theorem add (h : EverySymbol p t) {s : Symbol} (hs : p s) : EverySymbol p (t.add s).2 := by
  intro i
  rw [symbol_add]
  split
  · exact hs
  · exact h i

include hp

theorem empty : EverySymbol p .empty := by
  intro i
  cases i with
  | zero => exact hp.space rfl
  | succ i => exact hp.space rfl

theorem addScope (h : EverySymbol p t) (kind : ScopeKind) (parent : ScopeId)
    (owner : Option SymbolId) (span : Span) :
    EverySymbol p (t.addScope kind parent owner span).2 := by
  intro i
  rw [symbol_addScope]
  split
  · exact hp.setScope _ (h i)
  · exact h i

theorem openBlock (h : EverySymbol p t) (parent : ScopeId) (name : String × Span)
    (isInline : Bool) (span : Span) :
    EverySymbol p (t.openBlock parent name isInline span).2 := by
  have hdeclared : EverySymbol p (t.declareNamespace name.1 parent name.2).2 := by
    rcases t.declareNamespace_cases name.1 parent name.2 with ⟨ns, -, heq⟩ | ⟨-, heq⟩
    · rw [heq]
      exact h
    · rw [heq, addNamespace_eq]
      exact h.add (s := t.newNamespace name.1 parent name.2) (hp.space rfl)
  unfold SymbolTable.openBlock
  dsimp only
  split
  · exact addScope hp (hdeclared.modifySymbol _ hp.setInline) _ _ _ _
  · exact addScope hp hdeclared _ _ _ _

theorem inFile (hnew : ∀ {s scope}, s.DeclaredAt ⟨file, scope⟩ root → p s) :
    FileInvariant file root (EverySymbol p) where
  addScope _ _ _ _ owner span h := addScope hp h _ _ owner span
  add _ _ hs h := h.add (hnew hs)
  addOutOfLine _ _ hs h := h.addDetached (hnew hs.toDeclaredAt)
  openBlocks hin _ _ _ _ _ := openBlocks_induction (P := EverySymbol p)
    (fun _ parent name isInline _ h => openBlock hp h parent name isInline _) _ hin
  addUsing _ _ h := h
  addUsingDeclaration _ _ _ h := h

theorem withLinks (h : EverySymbol p t) : EverySymbol p t.withLinks := by
  refine withLinks_induction h (fun t' b _ _ h' => ?_) fun _ _ _ h' => h'
  unfold attach
  dsimp only
  split
  · split
    · exact h'
    · exact h'
  · exact h'.modifySymbol _ hp.setFunction

/-- A property of all symbols that files declare is one of all symbols of their table. -/
theorem symbolsOf {files : List SourceFile} (graph : IncludeGraph)
    (hnew : ∀ id f, files[id]? = some f →
      ∀ s scope, s.DeclaredAt ⟨id, scope⟩ f.tree → p s) :
    EverySymbol p (Snapshot.symbolsOf files graph) := by
  refine withLinks hp <| Snapshot.unlinked_induction graph (empty hp) (fun _ _ _ h => h)
    (fun id f hf => inFile hp fun {s scope} hs => hnew id f hf s scope hs) fun _ _ _ h => h

end EverySymbol

end SymbolTable

end CppRefactor
