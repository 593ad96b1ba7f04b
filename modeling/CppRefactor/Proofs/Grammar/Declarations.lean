import CppRefactor.Grammar.Declarations
import CppRefactor.Proofs.Grammar.Statements

/-!
What declarations take: a word at least, unless a closing brace is ahead.
-/

namespace CppRefactor.Grammar

variable {go : Rule → Parser Unit}

theorem declarationList_opens : Opens go (declarationList go) := by
  apply Opens.node
  apply Opens.behind
  apply Total.bind (rulesUntil_total fun _ => rfl)
  intro _
  exact .discard (.expect _)

theorem templateParameters_opens : Opens go templateParameters := by
  apply Opens.node
  apply Opens.behind
  refine Total.bind (commasUntil_total ?_) fun _ => .discard (.expect _)
  exact .node (.bind .upcoming fun _ => .advanceBy _)

theorem templateDeclaration_opens (place : Place) : Opens go (templateDeclaration go place) := by
  apply Opens.node
  apply Opens.behind
  apply Total.bind (.isAt _)
  intro _
  apply Total.optBind templateParameters_opens.total
  intro _
  exact .bind .atEnd fun _ => .ite (.pure ()) (.rule _)

theorem linkageSpecification_opens : Opens go (linkageSpecification go) := by
  apply Opens.node
  have hword : Opens go (advanceBy 2) := .behind (.advanceBy 1)
  apply hword.bind
  intro _
  apply Total.bind (.isAt _)
  intro _
  apply Total.ite declarationList_opens.total
  exact .bind .atEnd fun _ => .ite (.pure ()) (.rule _)

theorem staticAssertion_opens : Opens go staticAssertion := by
  apply Opens.node
  apply Opens.behind
  apply Total.bind (.isAt _)
  intro _
  exact .optBind .takeParentheses fun _ => .discard (.expect _)

theorem accessSpecifier_opens : Opens go accessSpecifier := by
  apply Opens.node
  apply Opens.behind
  apply Total.bind (.isAt _)
  intro _
  apply Total.bind (.kindAt _)
  intro _
  exact .optBind .advance fun _ => .discard (.expect _)

theorem macroCall_opens : Opens go macroCall := by
  apply Opens.node
  apply Opens.behind
  apply Total.bind (.isAt _)
  intro _
  apply Total.optBind .takeParentheses
  intro _
  apply Total.bind (.isAt _)
  intro _
  exact .bind (.word? _) fun _ => .opt .advance

theorem constructorInitializers_opens : Opens go (constructorInitializers go) := by
  apply Opens.node
  apply Opens.behind
  apply commas_total
  apply Total.node
  apply Total.bind .atName
  intro _
  extract_lets rest value
  have hr : ∀ u, Total go (rest u) := fun _ => .discard (.accept _)
  have hv : ∀ u, Total go (value u) := by
    intro _
    apply Total.bind (.isAt _)
    intro _
    apply Total.ite (.bind arguments_opens.total hr)
    exact .bind (.isAt _) fun _ => .iteBind bracedInitializer_opens.total (.report _) hr
  exact .iteBind typeName_total (.report _) hv

theorem functionBody_takes (hg : RunsBehind go s) (h : s.isAtAny [.lBrace, .tryKw, .colon] = true) :
    Ends (functionBody go) s fun _ => Takes 1 s := by
  have hbody : Total go (do
      if ← isAt .lBrace then block go else report .noFunctionBody
      catchClauses go) :=
    .bind (.isAt _) fun _ => .iteBind block_opens.total (.report _) fun _ => catchClauses_total
  apply (skip_ends .tryKw s).bind
  rintro _ s₁ (h₁ | ⟨rfl, ht⟩)
  · have hrest : Total go (do
        if ← isAt .colon then constructorInitializers go
        if ← isAt .lBrace then block go else report .noFunctionBody
        catchClauses go) :=
      .bind (.isAt _) fun _ => .optBind constructorInitializers_opens.total fun _ => hbody
    exact (hrest s₁ (hg.after h₁)).imp fun _ _ h₂ => h₁.andThen h₂
  · have hl := State.length_pos_of_isAtAny h
    apply Ends.read (isAt_run _ s₁)
    apply Ends.ite
    · intro _
      exact (constructorInitializers_opens.bind fun _ => hbody).takes s₁ hg hl
    · intro hc
      apply Ends.read (isAt_run _ s₁)
      apply Ends.ite
      · intro _
        exact (block_opens.bind fun _ => catchClauses_total).takes s₁ hg hl
      · intro hb
        cases ha : s₁.ahead <;> simp_all [State.isAt, State.isAtAny]

theorem namespaceDeclaration_takes (hg : RunsBehind go s) (h : 0 < s.ahead.length) :
    Ends (namespaceDeclaration go) s fun _ => Takes 1 s := by
  apply Ends.mark
  have hs := Takes.settle s
  apply (skip_ends .inlineKw s.settle).bind
  intro _ s₁ h₁
  have hword : Ends advance s₁ fun _ => Takes 1 s := by
    rcases h₁ with h₁ | ⟨rfl, _⟩
    · exact (advance_ends s₁).imp fun _ _ h₂ => (hs.then h₁).andThen h₂
    · exact (advance_takes (s := s.settle) h).imp fun _ _ h₂ => hs.then h₂
  apply hword.bind
  intro _ s₂ h₂
  suffices hc : Continues go 1 s _ from hc s₂ (hg.after h₂) h₂
  apply Continues.bind .atName
  intro _
  extract_lets close rest
  have hr : ∀ u, Continues go 1 s (rest u) := by
    intro _
    apply Continues.bind (.accept _)
    intro _
    apply Continues.ite
    · apply Continues.bind typeName_total
      intro _
      exact .bind (.discard (.expect _)) fun _ => .wrap _
    · apply Continues.bind (.isAt _)
      intro _
      exact .iteBind declarationList_opens.total (.report _) fun _ => .wrap _
  exact .optBind typeName_total hr

theorem usingDeclaration_takes (hg : RunsBehind go s) (h : 0 < s.ahead.length) :
    Ends (usingDeclaration go) s fun _ => Takes 1 s := by
  apply Ends.mark
  apply (advance_takes (s := s.settle) h).bind
  intro _ s₁ h₁
  have h₁ := (Takes.settle s).then h₁
  suffices hc : Continues go 1 s _ from hc s₁ (hg.after h₁) h₁
  have close (k : Kind) : Continues go 1 s (do
      discard (expect .semicolon)
      wrap k s.built.length) :=
    .bind (.discard (.expect _)) fun _ => .wrap k
  apply Continues.bind (.accept _)
  intro _
  apply Continues.ite
  · apply Continues.bind .atName
    intro _
    exact .iteBind typeName_total (.report _) fun _ => close .usingDirective
  · apply Continues.bind (.isAt _)
    intro _
    apply Continues.bind (.kindAt _)
    intro _
    apply Continues.ite
    · apply Continues.bind (.advanceBy _)
      intro _
      exact .bind typeId_total fun _ => close .aliasDecl
    · apply Continues.bind (.discard (.accept _))
      intro _
      exact .bind typeName_total fun _ => close .usingDecl

theorem atFunctionBody_run (place : Place) (s : State) :
    (atFunctionBody place).run s =
      some (s.isAtAny [.lBrace, .tryKw] || (s.isAt .colon && place != .block), s) := by
  simp only [atFunctionBody, StateT.run_bind, isAt_run, isAtAny_run, Option.bind_eq_bind,
    Option.bind_some]
  rfl

theorem simpleDeclaration_takes (hg : RunsBehind go s) (place : Place) :
    Ends (simpleDeclaration go place) s fun _ => Takes s.isFree.toNat s := by
  apply Ends.mark
  apply (specifiers_takes (s := s.settle) hg place).bind
  intro _ s₁ h₁
  have h₁ := (Takes.settle s).then h₁
  apply (accept_ends .semicolon s₁).bind
  rintro _ s₂ ⟨-, h₂, hs⟩
  apply Ends.ite
  · rintro rfl
    exact wrap_takes ((h₁.then h₂).toNat _)
  · intro hb
    cases hs hb
    -- If the specifiers took no word, what ends the declaration does.
    apply Ends.mark
    have hd := Takes.settle s₁
    have hg₁ := (hg.along h₁).along hd
    apply (declarator_takes hg₁ place).bind
    intro isFunction s₂ h₂
    have hg₂ := hg₁.along h₂
    have h₂ := hd.then h₂
    apply Ends.read (atFunctionBody_run place s₂)
    apply Ends.ite
    · intro hf
      have ha : s₂.isAtAny [.lBrace, .tryKw, .colon] = true := by
        cases ha : s₂.ahead <;> simp_all [State.isAt, State.isAtAny]
        grind
      apply (functionBody_takes hg₂ ha).bind
      intro _ s₃ h₃
      exact wrap_takes ((h₁.then (h₂.then h₃)).toNat _)
    · intro _
      apply (initializer_takes hg₂ place isFunction).bind
      intro _ s₃ h₃
      apply (wrap_takes (h₂.then h₃)).bind
      intro _ s₄ h₄
      have hg₄ := (hg.along h₁).along h₄
      have hmore : Ends (loopWhile (accept .comma) do
          node .initDeclarator do initializer go place (← declarator go place)) s₄
          fun _ => Takes 0 s₄ := by
        apply loopWhile_accept
        intro s₅ h₅
        refine Total.node ?_ s₅ (hg₄.after h₅)
        exact .bind (declarator_total place) fun _ => initializer_total place _
      apply hmore.bind
      intro _ s₅ h₅
      have h₅ := h₁.then (h₄.then h₅)
      apply (endWithSemicolon_takes s₅).bind
      intro _ s₆ h₆
      exact wrap_takes (h₅.thenFree h₆)

theorem declaration_takes (hg : RunsBehind go s) (place : Place) :
    Ends (declaration go place) s fun _ => Takes s.isFree.toNat s := by
  have takes {p : Parser Unit} (hp : Ends p s fun _ => Takes 1 s) :
      Ends p s fun _ => Takes s.isFree.toNat s :=
    hp.imp fun _ _ h => h.toNat _
  have hnext (hk : s.kindAt 0 ≠ .error) : 0 < s.ahead.length := State.length_pos_of_kindAt rfl hk
  have hsimple := simpleDeclaration_takes hg place
  have haccess (hl : 0 < s.ahead.length) :
      Ends (if place.isMembers then accessSpecifier else simpleDeclaration go place) s
        fun _ => Takes s.isFree.toNat s :=
    .ite (fun _ => takes (accessSpecifier_opens.takes s hg hl)) (fun _ => hsimple)
  apply Ends.read (peek_run s)
  split <;> rename_i hk
  · exact takes ((Opens.node .word).takes s hg (hnext (by simp [hk])))
  · exact takes (namespaceDeclaration_takes hg (hnext (by simp [hk])))
  · exact takes (usingDeclaration_takes hg (hnext (by simp [hk])))
  · exact takes ((templateDeclaration_opens place).takes s hg (hnext (by simp [hk])))
  · exact takes (staticAssertion_opens.takes s hg (hnext (by simp [hk])))
  · apply Ends.read (kindAt_run 1 s)
    apply Ends.ite
    · intro _
      exact takes (namespaceDeclaration_takes hg (hnext (by simp [hk])))
    · intro _
      exact hsimple
  · apply Ends.read (kindAt_run 1 s)
    apply Ends.ite
    · intro _
      exact takes (linkageSpecification_opens.takes s hg (hnext (by simp [hk])))
    · intro _
      exact hsimple
  · exact haccess (hnext (by simp [hk]))
  · exact haccess (hnext (by simp [hk]))
  · exact haccess (hnext (by simp [hk]))
  · have hl := hnext (by simp [hk])
    apply Ends.read (textAt_run 0 s)
    apply Ends.read (kindAt_run 1 s)
    apply Ends.ite
    · intro _
      exact takes (accessSpecifier_opens.takes s hg hl)
    · intro _
      apply Ends.read (upcoming_run s)
      apply Ends.ite
      · intro _
        exact takes (macroCall_opens.takes s hg hl)
      · intro _
        exact hsimple
  · exact hsimple

end CppRefactor.Grammar
