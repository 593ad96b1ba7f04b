import CppRefactor.Fix.CompleteSwitch
import CppRefactor.Proofs.Fix.Request
import CppRefactor.Proofs.Symbols.Inside

/-!
When a `switch` counts as complete: every enumerator has a case. A case is read where it stands. A
label that is chosen where the switch begins means the same inside it, unless a block in between has
a meaning of its own for the name.
-/

namespace CppRefactor

theorem mem_of_mapM_eq_ok {f : α → Except ε β} {as : List α} {bs : List β}
    (h : as.mapM f = .ok bs) (ha : a ∈ as) (hb : f a = .ok b) : b ∈ bs := by
  induction as generalizing bs with
  | nil => cases ha
  | cons a' as ih =>
    rw [List.mapM_cons] at h
    obtain ⟨b', hb', h⟩ := of_bind_eq_ok h
    obtain ⟨rest, hrest, h⟩ := of_bind_eq_ok h
    cases h
    cases ha with
    | head =>
      obtain rfl := Except.ok.inj (hb.symm.trans hb')
      exact List.mem_cons_self
    | tail _ ha => exact List.mem_cons_of_mem _ (ih hrest ha)

namespace SymbolTable

variable {t : SymbolTable} {enumerator : SymbolId} {blocks : List ScopeId}

/-- All that a name finds stands for a symbol, and it finds something. -/
structure FindsOnly (t : SymbolTable) (q : Query) (name : String) (enumerator : SymbolId) :
    Prop where
  found : t.lookup q name ≠ []
  only : ∀ other ∈ t.lookup q name, t.denoteSame other enumerator = true

/-- What a name finds alone around blocks, it finds alone in them, unless they have something else
for it. -/
theorem FindsOnly.inside {q : Query} (h : t.FindsOnly (q.inside outer) name enumerator)
    (hin : t.Inside q.site.scope outer blocks) (hfree : t.meaningIn q blocks name = []) :
    t.FindsOnly q name enumerator := by
  have hlookup := hin.lookup_free hfree
  exact ⟨hlookup ▸ h.found, hlookup ▸ h.only⟩

end SymbolTable

namespace CompleteSwitch

variable {r : Request} {switch body : Cursor} {type enumerator : SymbolId} {cases : List Case}

/-- A switch over an enumeration, with its body and the cases it has. -/
structure Examined (r : Request) (switch body : Cursor) (type : SymbolId) (cases : List Case) :
    Prop where
  hasBody : switch.child? .compoundStmt = some body
  clean : r.hasErrorsIn body.span = false
  typed : ∃ e, (switch.focus.child? .condition).bind (·.child? .expr) = some e ∧
    r.symbols.typeOfExpression? r.file e = some type
  isEnum : (r.symbols.symbol type).kind = .enumKind
  hasCases : present r switch body = .ok cases

/-- The enumerators without a case. -/
def missing (t : SymbolTable) (type : SymbolId) (cases : List Case) : List SymbolId :=
  (t.members type).filter fun e =>
    (t.symbol e).kind == .enumerator && !cases.any (covers t e)

/-- What is offered in such a switch: labels for the enumerators that are missing, if there are
any. -/
theorem Examined.offersFor (h : Examined r switch body type cases) :
    offersFor r switch =
      if (missing r.symbols type cases).isEmpty then .ok []
      else do
        let site ← orError (.unresolved .switchScope) (r.siteAt? switch.span.start)
        let names := (missing r.symbols type cases).map (r.symbols.shortestName site [])
        return [insertion r switch (← place body.focus) names] := by
  obtain ⟨e, he, htype⟩ := h.typed
  have henum : ((r.symbols.symbol type).kind == .enumKind) = true := beq_iff_eq.mpr h.isEnum
  unfold CompleteSwitch.offersFor
  rw [h.hasBody]
  simp only [orError, bind, Except.bind, h.clean, he, htype, henum, h.hasCases, ↓reduceIte,
    Bool.false_eq_true]
  rfl

theorem offersFor_eq_nil_iff (h : Examined r switch body type cases) :
    CompleteSwitch.offersFor r switch = .ok [] ↔
      ∀ e ∈ r.symbols.members type, (r.symbols.symbol e).kind = .enumerator →
        ∃ c ∈ cases, covers r.symbols e c = true := by
  have hcovered : (missing r.symbols type cases).isEmpty = true ↔
      ∀ e ∈ r.symbols.members type, (r.symbols.symbol e).kind = .enumerator →
        ∃ c ∈ cases, covers r.symbols e c = true := by
    simp [missing]
  rw [h.offersFor, ← hcovered]
  constructor
  · intro hok
    split at hok
    · assumption
    · obtain ⟨site, -, hok⟩ := of_bind_eq_ok hok
      obtain ⟨offset, -, hok⟩ := of_bind_eq_ok hok
      cases hok
  · intro hmissing
    rw [if_pos hmissing]

/-- A switch that something is offered in, or in which nothing is missing, has been examined. -/
theorem examined_of_ok (h : CompleteSwitch.offersFor r switch = .ok fixes) :
    ∃ body type cases, Examined r switch body type cases := by
  obtain ⟨body, hbody, h⟩ := of_bind_eq_ok h
  split at h
  · cases h
  · rename_i hclean
    obtain ⟨e, he, h⟩ := of_bind_eq_ok h
    obtain ⟨type, htype, h⟩ := of_bind_eq_ok h
    split at h
    · rename_i hkind
      obtain ⟨cases, hcases, -⟩ := of_bind_eq_ok h
      exact ⟨body, type, cases, of_orError hbody, by simpa using hclean,
        ⟨e, of_orError he, of_orError htype⟩, beq_iff_eq.mp hkind, hcases⟩
    · cases h

/-- The label of a case that is just a name, and where the name stands. -/
structure HasLabel (r : Request) (switch body : Cursor) (name : String) (site : Site) : Prop where
  label : ∃ label ∈ labels switch body, ∃ value, labelValue label = .ok value ∧
    ∃ reference ∈ value.nodesOf .nameRef, r.symbols.IsBare r.file reference name site

/-- The case is read for one of the symbols that the label finds where it stands. -/
theorem HasLabel.read (h : HasLabel r switch body name site)
    (hcases : present r switch body = .ok cases)
    (hfound : r.symbols.lookup ⟨site, .any, []⟩ name ≠ []) :
    ∃ other ∈ r.symbols.lookup ⟨site, .any, []⟩ name, Case.symbol other ∈ cases := by
  obtain ⟨label, hlabel, value, hvalue, reference, hreference, hbare⟩ := h.label
  obtain ⟨other, hother, hchosen⟩ := r.symbols.exists_firstObject? hfound
  obtain ⟨values, hvalues, hcases⟩ := of_bind_eq_ok hcases
  cases hcases
  refine ⟨other, hother, List.mem_filterMap.mpr ⟨reference, ?_, ?_⟩⟩
  · exact List.mem_flatMap.mpr ⟨value, mem_of_mapM_eq_ok hvalues hlabel hvalue, hreference⟩
  · rw [caseOf?, hbare.resolve, hchosen]

theorem HasLabel.covers (h : HasLabel r switch body name site)
    (hcases : present r switch body = .ok cases)
    (hfinds : r.symbols.FindsOnly ⟨site, .any, []⟩ name enumerator) :
    ∃ c ∈ cases, covers r.symbols enumerator c = true := by
  obtain ⟨other, hother, hcase⟩ := h.read hcases hfinds.found
  exact ⟨.symbol other, hcase, hfinds.only other hother⟩

/-- A case whose label finds an enumerator alone around the blocks it stands in, and these have
nothing else for the name. -/
structure Labelled (r : Request) (switch body : Cursor) (enumerator : SymbolId) (name : String)
    (site : Site) (outer : ScopeId) (blocks : List ScopeId) : Prop where
  label : HasLabel r switch body name site
  inside : r.symbols.Inside site.scope outer blocks
  free : r.symbols.meaningIn ⟨site, .any, []⟩ blocks name = []
  finds : r.symbols.FindsOnly (Query.inside ⟨site, .any, []⟩ outer) name enumerator

/-- In a switch whose labels find the enumerators from around it, and in which no other meaning is
given to their names, nothing is offered. -/
theorem Examined.complete (h : Examined r switch body type cases)
    (hlabels : ∀ e ∈ r.symbols.members type, (r.symbols.symbol e).kind = .enumerator →
      ∃ name site outer blocks, Labelled r switch body e name site outer blocks) :
    CompleteSwitch.offersFor r switch = .ok [] := by
  refine (offersFor_eq_nil_iff h).mpr fun e he hkind => ?_
  obtain ⟨name, site, outer, blocks, hl⟩ := hlabels e he hkind
  exact hl.label.covers h.hasCases (hl.finds.inside hl.inside hl.free)

/-- A label for whose name a block in between has a meaning of its own is read as a case for that,
whatever the name finds around the switch. -/
theorem HasLabel.hidden (h : HasLabel r switch body name site)
    (hcases : present r switch body = .ok cases)
    (hinside : r.symbols.Inside site.scope outer blocks)
    (hidden : r.symbols.meaningIn ⟨site, .any, []⟩ blocks name ≠ []) :
    ∃ other ∈ r.symbols.meaningIn ⟨site, .any, []⟩ blocks name, Case.symbol other ∈ cases := by
  have hlookup := SymbolTable.Inside.lookup_hidden hinside hidden
  rw [← hlookup] at hidden ⊢
  exact h.read hcases hidden

/-- The label is chosen where the switch begins, and a variable in its body hides the enumerator.
The switch is offered the same case again, and is complete with the whole name. -/
theorem label_hidden :
    let before := "namespace N \x7b\nenum E \x7b A \x7d;\nvoid f(E e)\n\x7b\nswitch (e) \x7b\n" ++
      "int A;\n"
    let after := "\x7d\n\x7d\n\x7d\n"
    let offered := fun text =>
      Request.textsOffered offers changes (RemoveUsing.snapshotOf text) 0 42
    let case := fun label => "case " ++ label ++ ":\n    break;\n"
    offered (before ++ after) = [some [("/a.cpp", before ++ case "A" ++ after)]] ∧
      offered (before ++ case "A" ++ after) =
        [some [("/a.cpp", before ++ case "A" ++ case "A" ++ after)]] ∧
      offered (before ++ case "N::A" ++ after) = [] := by
  decide +kernel

end CompleteSwitch

end CppRefactor
