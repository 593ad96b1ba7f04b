import CppRefactor.Proofs.Grammar.Declarations
import CppRefactor.Proofs.Grammar.Leads
import CppRefactor.Proofs.Grammar.Rules

/-!
What nodes of some kinds are made of. A declaration becomes a function definition if its declarator
names a function and a body begins behind it. Hence a definition has its declarator before its body,
and behind the body it has handlers or nothing. Classes and enumerations with a body and namespaces
begin with a word; what stands in a namespace or a linkage specification is plain.
-/

namespace CppRefactor

namespace Outline

def IsNode (k : Kind) : Outline → Prop
  | word | gap => False
  | node k' _ => k' = k

def StandsBeforeBody (p : Outline) : Prop := p = .word ∨ p.IsNode .ctorInit

/-- Specifiers, a declarator with a name, and the body with what may stand around it. -/
inductive FunctionParts : List Outline → Prop
  | intro {specifiers declared before body handlers : List Outline} :
      (∃ p ∈ declared, p.IsNode .qualifiedName) →
      (∀ p ∈ before, p.StandsBeforeBody) →
      (body = [] ∨ ∃ ps, body = [.node .compoundStmt ps]) →
      (∀ p ∈ handlers, p.IsNode .catchClause) →
      FunctionParts (.node .declSpecifiers specifiers :: .node .declarator declared ::
        (before ++ body ++ handlers))

/-- The form of the parts of a node, if nodes of its kind have one. -/
def HasForm : Kind → List Outline → Prop
  | .functionDef, ps => FunctionParts ps
  | .classSpec, ps | .enumSpec, ps | .namespaceDef, ps => ∃ rest, ps = .word :: rest
  | .declList, ps | .linkageSpec, ps => ∀ p ∈ ps, p.Plain
  | _, _ => True

theorem HasForm.of_not_isFormed (h : k.isFormed = false) (ps : List Outline) : HasForm k ps := by
  unfold HasForm
  split <;> simp_all [Kind.isFormed, Kind.isHeaded, Kind.isPlain]

theorem HasForm.of_word (h : k.isHeaded = true ∨ k.isFormed = false) (rest : List Outline) :
    HasForm k (.word :: rest) := by
  rcases h with h | h
  · unfold HasForm
    split <;> simp_all [Kind.isHeaded]
  · exact .of_not_isFormed h _

theorem HasForm.of_plain (h : k.isPlain = true) (hps : ∀ p ∈ ps, p.Plain) : HasForm k ps := by
  unfold HasForm
  split <;> simp_all [Kind.isPlain]

theorem HasForm.of_closer (h : k.closer? = some closer) (ps : List Outline) : HasForm k ps := by
  unfold HasForm
  split <;> simp_all [Kind.closer?]

/-- Every node in the outline has the form of its kind. -/
inductive Shaped : Outline → Prop
  | word : Shaped .word
  | gap : Shaped .gap
  | node {k : Kind} {ps : List Outline} : HasForm k ps → (∀ p ∈ ps, Shaped p) → Shaped (.node k ps)

end Outline

namespace Grammar

open Outline (IsNode StandsBeforeBody FunctionParts HasForm)

def State.Shaped (s : State) : Prop := ∀ p ∈ s.built, p.Shaped

/-- The parser builds nodes in their form only. -/
def Shapes (p : Parser α) : Prop := ∀ s, s.Shaped → Leads p s fun _ => State.Shaped

namespace Shapes

theorem bind {p : Parser α} {f : α → Parser β} (hp : Shapes p) (hf : ∀ a, Shapes (f a)) :
    Shapes (p >>= f) :=
  fun s hs => (hp s hs).bind fun a s₁ => hf a s₁

theorem look {f : List Word → Parser α} (hf : ∀ ws, Shapes (f ws)) : Shapes (upcoming >>= f) :=
  fun s hs => .read (upcoming_run s) (hf _ s hs)

theorem advance : Shapes advance := by
  intro s hs
  refine (advance_leads s).imp ?_
  rintro _ s' (h | h) <;> rw [State.Shaped, h]
  · exact List.forall_mem_cons.mpr ⟨.gap, hs⟩
  · exact List.forall_mem_cons.mpr ⟨.word, hs⟩

theorem nodeOfForm {k : Kind} {body : Parser α} (hk : ∀ ps, HasForm k ps) (hb : Shapes body) :
    Shapes (Grammar.node k body) := by
  intro s hs
  have henter : s.enter.Shaped := nofun
  refine (Leads.node (hb _ henter)).imp ?_
  rintro _ s' ⟨s₁, h₁, h⟩
  rw [State.Shaped, h]
  refine List.forall_mem_cons.mpr ⟨.node (hk _) fun p hp => ?_, hs⟩
  exact h₁ p (List.mem_reverse.mp hp)

theorem node {k : Kind} {body : Parser α} (hk : k.isFormed = false) (hb : Shapes body) :
    Shapes (node k body) :=
  .nodeOfForm (.of_not_isFormed hk) hb

theorem ifAhead {p : Parser α}
    (h : ∀ s, s.ahead ≠ [] → s.Shaped → Leads p s fun _ => State.Shaped) :
    Shapes (ifAhead p) := by
  intro s hs a s' hrun
  rw [ifAhead_run] at hrun
  split at hrun
  · cases hrun
  · rename_i hahead
    exact h s (fun he => hahead (List.isEmpty_iff.mpr he)) hs a s' hrun

theorem headed {k : Kind} {rest : Unit → Parser Unit} (hk : k.isHeaded = true)
    (hr : ∀ u, Shapes (rest u)) (ha : ∀ u, Adds (fun _ => True) (rest u)) :
    Shapes (Grammar.ifAhead (Grammar.node k (Grammar.advance >>= rest))) := by
  refine ifAhead fun s hahead hs => ?_
  have hbody : Leads (Grammar.advance >>= rest) s.enter fun _ s₁ =>
      s₁.Shaped ∧ ∃ more, s₁.built = more ++ [.word] := by
    refine (advance_ahead (s := s.enter) hahead).bind fun u s₁ h₁ => ?_
    have hs₁ : s₁.Shaped := by
      rw [State.Shaped, h₁]
      exact List.forall_mem_singleton.mpr .word
    refine ((hr u s₁ hs₁).and (ha u s₁)).imp fun _ s₂ ⟨hs₂, more, h₂, _⟩ => ⟨hs₂, more, ?_⟩
    rw [h₂, h₁]
    rfl
  refine hbody.node.imp ?_
  rintro _ s' ⟨s₁, ⟨hs₁, more, h₁⟩, h⟩
  rw [State.Shaped, h]
  refine List.forall_mem_cons.mpr ⟨.node ?_ fun p hp => hs₁ p (List.mem_reverse.mp hp), hs⟩
  rw [h₁, List.reverse_append]
  exact .of_word (.inl hk) _

theorem plain {k : Kind} {body : Parser Unit} (hk : k.isPlain = true) (hb : Shapes body)
    (hp : KeepsPlain body) : Shapes (Grammar.node k body) := by
  intro s hs
  have henter : s.enter.Shaped := nofun
  have hplain : s.enter.Plain := nofun
  refine (Leads.node ((hb _ henter).and (hp _ hplain))).imp ?_
  rintro _ s' ⟨s₁, ⟨hs₁, hp₁⟩, h⟩
  rw [State.Shaped, h]
  refine List.forall_mem_cons.mpr ⟨.node (.of_plain hk fun p hp => ?_) fun p hp => ?_, hs⟩
  · exact hp₁ p (List.mem_reverse.mp hp)
  · exact hs₁ p (List.mem_reverse.mp hp)

theorem wrap {k : Kind} (since : Nat) (hk : k.isFormed = false) : Shapes (wrap k since) := by
  intro s hs _ s' hrun
  cases hrun
  refine List.forall_mem_cons.mpr ⟨.node (.of_not_isFormed hk _) fun p hp => ?_, fun p hp => ?_⟩
  · exact hs p (List.mem_of_mem_take (List.mem_reverse.mp hp))
  · exact hs p (List.mem_of_mem_drop hp)

theorem advanceBy (n : Nat) : Shapes (advanceBy n) := by
  induction n with
  | zero => exact fun s hs => .pure hs
  | succ n ih => exact .bind .advance fun _ => ih

theorem report (c : Complaint) : Shapes (report c) := by
  intro s hs
  refine (report_leads c s).imp fun _ s' h => ?_
  rwa [State.Shaped, h]

theorem recover (c : Complaint) (stops : List Kind) : Shapes (recover c stops) :=
  .bind (.report c) fun _ => .nodeOfForm (fun _ => trivial) (.look fun _ => .advanceBy _)

theorem mark : Shapes mark := by
  intro s hs
  refine (mark_leads s).imp fun _ s' h => ?_
  rwa [State.Shaped, h.2]

end Shapes

def shapes : Judgement where
  Holds := Shapes
  pure _ _ hs := .pure hs
  bind := .bind
  look _ := .look
  cutOff _ _ := nofun
  advance := .advance
  report := .report
  node := .node
  headed := .headed
  plain := .plain
  enclosed hk _ _ := .nodeOfForm (.of_closer hk)
  mark := .mark
  wrap := .wrap
  recover := .recover

variable {go : Rule → Parser Unit}

theorem progress_shapes : Shapes progress := by
  intro s hs _ s' hrun
  cases (progress_run s).symm.trans hrun
  exact hs

theorem functionQualifiers_adds : Adds (fun _ => True) (functionQualifiers go) := by
  have hword : Adds (fun _ => True) advance := .advance trivial trivial
  have hgroup {rest : Unit → Parser Bool} (hr : ∀ u, Adds (fun _ => True) (rest u)) :
      Adds (fun _ => True) (do
        advance
        if ← isAt .lParen then
          takeParentheses
          rest ()
        else rest ()) :=
    .bind hword fun _ => .read (isAt_run _) fun _ =>
      .ite (.bind (.read upcoming_run fun _ => .advanceBy trivial trivial _) hr) (hr ())
  apply Adds.loop
  apply Adds.read atEnd_run
  intro _
  apply Adds.ite (.pure _)
  apply Adds.read peek_run
  intro k
  split
  · exact .bind hword fun _ => .pure _
  · exact .bind hword fun _ => .pure _
  · exact .bind hword fun _ => .pure _
  · exact .bind hword fun _ => .pure _
  · exact hgroup fun _ => .pure _
  · exact hgroup fun _ => .pure _
  · apply Adds.read (textAt_run 0)
    intro _
    apply Adds.ite (.bind hword fun _ => .pure _)
    exact .ite (hgroup fun _ => .pure _) (.pure _)
  · exact .bind (.node (fun _ => trivial) _) fun _ => .pure _
  · exact .pure _

/-- A name is among the parts of the open node. -/
def State.Named (s : State) : Prop := ∃ p ∈ s.built, p.IsNode .qualifiedName

theorem State.Named.mono {s s' : State} (h : s.Named) (hs : s.Gains such s') : s'.Named := by
  obtain ⟨p, hp, hk⟩ := h
  obtain ⟨new, hs, -⟩ := hs
  exact ⟨p, hs ▸ List.mem_append_right new hp, hk⟩

theorem typeName_leads (s : State) : Leads (typeName go) s fun _ => State.Named := by
  refine .discard ((Leads.node_built _ _ s).imp ?_)
  rintro _ s' ⟨ps, h⟩
  exact ⟨.node .qualifiedName ps, h ▸ List.mem_cons_self, rfl⟩

theorem declaratorSuffix_leads (place : Place) (named isFunction : Bool) (s : State) :
    Leads (declaratorSuffix go place named isFunction) s fun r s' =>
      s.Gains (fun _ => True) s' ∧ (r.2 = true → isFunction = true ∨ named = true) := by
  have hnode (k : Kind) (body : Parser Unit) : Adds (fun _ => True) (node k body) :=
    .node (fun _ => trivial) body
  refine .read (peek_run s) ?_
  split
  · exact (hnode _ _ s).bind fun _ _ h => .pure ⟨h, .inl⟩
  · refine .read (upcoming_run s) (.ite (.pure ⟨.refl _ s, .inl⟩) ?_)
    refine (hnode _ _ s).bind fun _ s₁ h₁ => ?_
    refine (functionQualifiers_adds s₁).bind fun _ s₂ h₂ => ?_
    exact .pure ⟨h₁.trans h₂, Bool.or_eq_true_iff.mp⟩
  · exact .pure ⟨.refl _ s, .inl⟩

/-- Parameters make a function of what has been named, and the name stays. -/
theorem declaratorSuffixes_leads (place : Place) (named : Bool) (hs : named = true → s.Named) :
    Leads (loopFrom false fun isFunction => declaratorSuffix go place named isFunction) s
      fun isFunction s' => isFunction = true → s'.Named := by
  have hstep (isFunction : Bool) (s₁ : State)
      (h : (named = true → s₁.Named) ∧ (isFunction = true → named = true)) :
      Leads (declaratorSuffix go place named isFunction) s₁ fun r s' =>
        (named = true → s'.Named) ∧ (r.2 = true → named = true) := by
    refine (declaratorSuffix_leads place named isFunction s₁).imp fun r s' ⟨hgains, hr⟩ => ?_
    exact ⟨fun hn => (h.1 hn).mono hgains, fun hr' => (hr hr').elim h.2 id⟩
  have hstart : (named = true → s.Named) ∧ (false = true → named = true) := ⟨hs, nofun⟩
  exact (Leads.loopFrom _ hstep hstart).imp fun _ _ h hf => h.1 (h.2 hf)

theorem declarator_leads (place : Place) (s : State) :
    Leads (declarator go place) s fun isFunction s' => ∃ ps,
      s'.built = .node .declarator ps :: s.built ∧
        (isFunction = true → ∃ p ∈ ps, p.IsNode .qualifiedName) := by
  have hbody : Leads (declarator go place) s fun isFunction s' => ∃ s₁ : State,
      (isFunction = true → s₁.Named) ∧
        s'.built = .node .declarator s₁.built.reverse :: s.built := by
    apply Leads.node
    refine .after fun _ s₁ => .read (isAt_run _ s₁) (.read (kindAt_run _ s₁) ?_)
    apply Leads.ite
    · exact .after fun _ s₂ => declaratorSuffixes_leads place false nofun
    · refine .after fun _ s₂ => .read (isAtAny_run _ s₂) ?_
      split
      · exact (typeName_leads s₂).bind fun _ s₃ h₃ => declaratorSuffixes_leads place _ fun _ => h₃
      · rename_i hnot
        exact declaratorSuffixes_leads place _ fun h => absurd h hnot
  refine hbody.imp ?_
  rintro isFunction s' ⟨s₁, hnamed, hs'⟩
  refine ⟨_, hs', fun hf => ?_⟩
  obtain ⟨p, hp, hk⟩ := hnamed hf
  exact ⟨p, List.mem_reverse.mpr hp, hk⟩

theorem catchClauses_adds : Adds (IsNode .catchClause) (catchClauses go) := by
  apply Adds.loop
  apply Adds.read (isAt_run _)
  intro _
  exact .ite (.bind (.node (fun _ => rfl) _) fun _ => .pure _) (.pure _)

theorem functionBody_leads (s : State) :
    Leads (functionBody go) s fun _ s' => ∃ before body handlers : List Outline,
      s'.built = handlers ++ (body ++ (before ++ s.built)) ∧
        (∀ p ∈ before, p.StandsBeforeBody) ∧
        (body = [] ∨ ∃ ps, body = [.node .compoundStmt ps]) ∧
        ∀ p ∈ handlers, p.IsNode .catchClause := by
  have htry : Adds StandsBeforeBody (accept .tryKw) := .accept (.inl rfl) _
  have hinit : Adds StandsBeforeBody (constructorInitializers go) := .node (fun _ => .inr rfl) _
  refine (htry s).discard.bind fun _ s₁ h₁ => ?_
  refine .read (isAt_run _ s₁) (.optBind ((hinit s₁).imp fun _ _ h => h₁.trans h) h₁ ?_)
  rintro s₂ ⟨before, h₂, hbefore⟩
  have hblock : Leads (block go) s₂ fun _ s₃ => ∃ body, s₃.built = body ++ s₂.built ∧
      (body = [] ∨ ∃ ps, body = [.node .compoundStmt ps]) :=
    (Leads.node_built _ _ s₂).imp fun _ s₃ ⟨ps, h₃⟩ => ⟨[_], h₃, .inr ⟨ps, rfl⟩⟩
  refine .read (isAt_run _ s₂) (.iteBind hblock
    ((report_leads _ s₂).imp fun _ s₃ h₃ => ⟨[], h₃, .inl rfl⟩) ?_)
  rintro s₃ ⟨body, h₃, hbody⟩
  refine (catchClauses_adds s₃).imp fun _ s' ⟨handlers, h', hhandlers⟩ => ?_
  exact ⟨before, body, handlers, by rw [h', h₃, h₂], hbefore, hbody, hhandlers⟩

theorem functionDefinition_shapes (hg : shapes.Covers go) {s s₁ : State}
    {specs declared : List Outline} (hs : s.Shaped) (hs₁ : s₁.Shaped)
    (hnamed : ∃ p ∈ declared, p.IsNode .qualifiedName)
    (h₁ : s₁.built = .node .declarator declared :: .node .declSpecifiers specs :: s.built) :
    Leads (functionBody go >>= fun _ => wrap .functionDef s.built.length) s₁
      fun _ => State.Shaped := by
  refine ((functionBody_leads s₁).and (functionBody_holds hg s₁ hs₁)).bind ?_
  rintro _ s₂ ⟨⟨before, body, handlers, h₂, hbefore, hbody, hhandlers⟩, hs₂⟩
  have hnew : s₂.built = (handlers ++ (body ++ (before ++
      [Outline.node .declarator declared, .node .declSpecifiers specs]))) ++ s.built := by
    simp [h₂, h₁]
  refine (wrap_leads _ hnew).imp fun _ s' h' => ?_
  have hparts : FunctionParts (handlers ++ (body ++ (before ++
      [Outline.node .declarator declared, .node .declSpecifiers specs]))).reverse := by
    have hbody' : body.reverse = body := by
      rcases hbody with rfl | ⟨ps, rfl⟩ <;> rfl
    have h : FunctionParts (.node .declSpecifiers specs :: .node .declarator declared ::
        (before.reverse ++ body ++ handlers.reverse)) :=
      .intro hnamed (fun p hp => hbefore p (List.mem_reverse.mp hp)) hbody
        fun p hp => hhandlers p (List.mem_reverse.mp hp)
    simpa [hbody'] using h
  rw [State.Shaped, h']
  refine List.forall_mem_cons.mpr ⟨.node hparts fun p hp => ?_, hs⟩
  exact hs₂ p (hnew ▸ List.mem_append_left _ (List.mem_reverse.mp hp))

theorem simpleDeclaration_shapes (hg : shapes.Covers go) (place : Place) :
    Shapes (simpleDeclaration go place) := by
  intro s hs
  refine (mark_leads s).bind fun start s₁ ⟨hstart, h₁⟩ => ?_
  have hs₁ : s₁.Shaped := by rwa [State.Shaped, h₁]
  have hspecifiers := (Leads.node_built _ _ s₁).and (specifiers_holds hg place s₁ hs₁)
  refine hspecifiers.bind fun _ s₂ ⟨⟨specifiers, h₂⟩, hs₂⟩ => ?_
  have haccept := (accept_stays .semicolon s₂).and (shapes.accept .semicolon s₂ hs₂)
  refine haccept.bind fun taken s₃ ⟨hstays, hs₃⟩ => ?_
  cases taken with
  | true => exact Shapes.wrap start (by decide) s₃ hs₃
  | false =>
    obtain rfl := hstays rfl
    refine (mark_leads s₃).bind fun declaredFrom s₄ ⟨_, h₄⟩ => ?_
    have hs₄ : s₄.Shaped := by rwa [State.Shaped, h₄]
    have hdeclarator := (declarator_leads place s₄).and (declarator_holds hg place s₄ hs₄)
    refine hdeclarator.bind fun isFunction s₅ ⟨⟨declared, h₅, hnamed⟩, hs₅⟩ => ?_
    refine .read (atFunctionBody_run place s₅) ?_
    split
    · rename_i h
      have hbuilt : s₅.built =
          .node .declarator declared :: .node .declSpecifiers specifiers :: s.built := by
        rw [h₅, h₄, h₂, h₁]
      rw [hstart]
      exact functionDefinition_shapes hg hs hs₅ (hnamed (Bool.and_eq_true_iff.mp h).1) hbuilt
    · exact declarators_holds hg place isFunction start declaredFrom s₅ hs₅

/-- Behind some parts of the open node a word has been taken, and more has been added to it. -/
structure State.Begun (old : List Outline) (s : State) : Prop where
  shaped : s.Shaped
  built : ∃ more, s.built = more ++ .word :: old

namespace State.Begun

variable {s : State} {old : List Outline}

theorem leads {p : Parser α} (h : s.Begun old) (hp : Shapes p) (ha : Adds (fun _ => True) p) :
    Leads p s fun _ s' => s'.Begun old := by
  refine ((hp s h.shaped).and (ha s)).imp fun _ s' ⟨hs', new, hnew, _⟩ => ⟨hs', ?_⟩
  obtain ⟨more, hmore⟩ := h.built
  exact ⟨new ++ more, by rw [hnew, hmore, List.append_assoc]⟩

theorem wrap (h : s.Begun old) (hk : k.isHeaded = true ∨ k.isFormed = false) :
    Leads (wrap k old.length) s fun _ => State.Shaped := by
  obtain ⟨more, hmore⟩ := h.built
  have hnew : s.built = (more ++ [.word]) ++ old := by rw [hmore, List.append_assoc]; rfl
  refine (wrap_leads k hnew).imp fun _ s' hs' => ?_
  rw [State.Shaped, hs', List.reverse_append]
  refine List.forall_mem_cons.mpr ⟨.node (.of_word hk _) fun p hp => h.shaped p ?_, fun p hp => ?_⟩
  · exact hnew ▸ List.mem_append_left old (List.mem_reverse.mp (by simpa using hp))
  · exact h.shaped p (hnew ▸ List.mem_append_right _ hp)

end State.Begun

theorem namespaceDeclaration_shapes (hg : shapes.Covers go) :
    Shapes (ifAhead (namespaceDeclaration go)) := by
  refine .ifAhead fun s hahead hs => ?_
  have hnode (k : Kind) (body : Parser Unit) : Adds (fun _ => True) (node k body) :=
    .node (fun _ => trivial) body
  have hname : Adds (fun _ => True) (typeName go) := .discard (.node (fun _ => trivial) _)
  refine .mark ?_
  have hs₁ : s.settle.Shaped := hs
  -- Either `inline` is taken first, or `namespace`.
  have hfirst : Leads (discard (accept .inlineKw)) s.settle fun _ s₂ =>
      s₂.Begun s.built ∨ s₂ = s.settle := by
    refine .discard (((accept_leads _ _).and (shapes.accept _ _ hs₁)).imp fun _ s₂ ⟨h₂, hs₂⟩ => ?_)
    exact h₂.imp_left fun h₂ => ⟨hs₂, [], h₂⟩
  refine hfirst.bind fun _ s₂ h₂ => ?_
  have hsecond : Leads advance s₂ fun _ s₃ => s₃.Begun s.built := by
    rcases h₂ with h₂ | rfl
    · exact h₂.leads .advance (.advance trivial trivial)
    · refine ((advance_ahead (s := s.settle) hahead).and (Shapes.advance _ hs₁)).imp ?_
      exact fun _ s₃ ⟨h₃, hs₃⟩ => ⟨hs₃, [], h₃⟩
  refine hsecond.bind fun _ s₃ h₃ => .read (isAtAny_run _ s₃) ?_
  refine .optBind (h₃.leads (typeName_holds hg) hname) h₃ fun s₄ h₄ => ?_
  refine (h₄.leads (shapes.accept _) (.accept trivial _)).bind fun _ s₅ h₅ => ?_
  split
  · refine (h₅.leads (typeName_holds hg) hname).bind fun _ s₆ h₆ => ?_
    refine (h₆.leads (shapes.discard (shapes.expect _)) ?_).bind fun _ s₇ h₇ => h₇.wrap (by decide)
    exact .discard (.expect trivial _)
  · refine .read (isAt_run _ s₅) ?_
    refine .iteBind (h₅.leads (declarationList_holds hg) (hnode _ _)) ?_ fun s₆ h₆ =>
      h₆.wrap (by decide)
    exact h₅.leads (shapes.report _) (.report _)

theorem runRule_shapes (depth : Nat) (rule : Rule) : Shapes (runRule depth rule) := by
  induction depth generalizing rule with
  | zero => exact shapes.cutOff
  | succ depth ih =>
    have hg : shapes.Covers (runRule depth) :=
      ⟨ih, bracedInitializer_holds progress_shapes ih, fun _ => runRule_adds depth,
        runRule_declaration_plain depth⟩
    exact ruleBody_holds hg (namespaceDeclaration_shapes hg) (simpleDeclaration_shapes hg) rule

theorem sourceFile_shapes : Shapes sourceFile := sourceFile_holds (J := shapes) runRule_shapes

end Grammar

end CppRefactor
