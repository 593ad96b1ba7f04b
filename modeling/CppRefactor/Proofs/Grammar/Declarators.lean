import CppRefactor.Grammar.Declarators
import CppRefactor.Proofs.Grammar.Expressions

/-!
What declarators and initializers take.
-/

namespace CppRefactor.Grammar

variable {go : Rule → Parser Unit}

theorem pointerOperators_takes (s : State) : Ends pointerOperators s fun _ => Takes 0 s := by
  apply loopWhile_read (isAtAny_run _)
  intro s₁ _ h
  apply Ends.node
  apply (advance_takes (s := s₁.enter) (State.length_pos_of_isAtAny h)).seq
  intro _ s₂ _
  exact loopWhile_read (isAtAny_run _) fun _ _ h =>
    advance_takes (State.length_pos_of_isAtAny h)

theorem equalInitializer_opens : Opens go (equalInitializer go stops) :=
  .node (.behind (.rule _))

theorem parameter_total : Total go (parameter go) := by
  apply Total.node
  apply Total.bind (.rule _)
  intro _
  apply Total.bind (.rule _)
  intro _
  apply Total.bind (.isAt _)
  intro _
  exact .opt equalInitializer_opens.total

theorem parameterList_opens : Opens go (parameterList go) := by
  apply Opens.node
  apply Opens.behind
  refine Total.bind (.loopUntil ?_) fun _ => .discard (.expect _)
  intro s hg _ _
  apply Ends.read (isAt_run _ s)
  extract_lets rest
  have hr : ∀ u s₁, Ends (rest u) s₁ fun more => Steps more s₁ := by
    intro _ s₁
    apply (accept_takes .comma s₁).bind
    intro b s₂ h₂
    apply Ends.ite
    · rintro rfl
      exact .pure h₂.steps_toNat
    · intro _
      apply Ends.read (isAt_run _ s₂)
      apply Ends.ite
      · intro _
        exact .pure h₂.stops
      · intro _
        apply (recover_takes _ _ s₂).bind
        intro _ s₃ h₃
        apply (accept_takes .comma s₃).imp
        intro _ s₄ h₄
        exact (h₂.any.then h₃).thenSteps h₄.steps_toNat
  apply Ends.ite
  · intro _
    apply (advance_ends s).bind
    intro _ s₁ h₁
    exact (hr () s₁).imp fun _ _ h₂ => h₁.thenSteps h₂
  · intro _
    apply (parameter_total s hg).bind
    intro _ s₁ h₁
    exact (hr () s₁).imp fun _ _ h₂ => h₁.thenSteps h₂

theorem trailingReturn_opens :
    Opens go (node .trailingReturn do advance; typeId go) :=
  .node (.behind typeId_total)

theorem functionQualifiers_total : Total go (functionQualifiers go) := by
  apply Total.loop
  intro s hg
  have hgroup : Total go do
      if ← isAt .lParen then takeParentheses
      return true := by
    apply Total.bind (.isAt _)
    intro _
    exact .ite (.bind .takeParentheses fun _ => .pure true) (.pure true)
  apply Ends.read (atEnd_run s)
  apply Ends.ite
  · intro _
    exact .pure (Takes.refl s).stops
  · intro he
    have opens {p : Parser Bool} (hp : Opens go p) : Ends p s fun more => Steps more s :=
      (hp.takes s hg.behind (State.length_pos_of_not_atEnd he)).imp fun more _ h =>
        h.steps Nat.one_pos more
    apply Ends.read (peek_run s)
    split
    · exact opens (.behind (.pure true))
    · exact opens (.behind (.pure true))
    · exact opens (.behind (.pure true))
    · exact opens (.behind (.pure true))
    · exact opens (.behind hgroup)
    · exact opens (.behind hgroup)
    · apply Ends.read (textAt_run 0 s)
      apply Ends.ite
      · intro _
        exact opens (.behind (.pure true))
      · intro _
        apply Ends.ite
        · intro _
          exact opens (.behind hgroup)
        · intro _
          exact .pure (Takes.refl s).stops
    · exact opens (trailingReturn_opens.bind fun _ => .pure true)
    · exact .pure (Takes.refl s).stops

theorem declaratorSuffix_ends (hg : RunsBehind go s) (place : Place) (named isFunction : Bool) :
    Ends (declaratorSuffix go place named isFunction) s fun r => Steps r.1 s := by
  have opens {p : Parser (Bool × Bool)} (hk : s.kindAt 0 ≠ .error) (hp : Opens go p) :
      Ends p s fun r => Steps r.1 s :=
    hp.steps hg (State.length_pos_of_kindAt rfl hk)
  apply Ends.read (peek_run s)
  split <;> rename_i hk
  · exact opens (by simp [hk]) (Opens.brackets.node.bind fun _ => .pure _)
  · apply Ends.read (upcoming_run s)
    apply Ends.ite
    · intro _
      exact .pure (Takes.refl s).stops
    · intro _
      apply opens (by simp [hk])
      apply parameterList_opens.bind
      intro _
      exact .bind functionQualifiers_total fun _ => .pure _
  · exact .pure (Takes.refl s).stops

theorem declarator_takes (hg : RunsBehind go s) (place : Place) :
    Ends (declarator go place) s fun _ => Takes 0 s := by
  apply Ends.node
  apply (pointerOperators_takes s.enter).seq
  intro _ s₁ h₁
  have hg₁ := RunsBehind.along (s := s.enter) hg h₁
  apply Ends.read (isAt_run _ s₁)
  apply Ends.read (kindAt_run _ s₁)
  extract_lets nested rest
  have hr : ∀ named s₂, RunsBehind go s₂ → Ends (rest named) s₂ fun _ => Takes 0 s₂ := by
    intro named s₂ hg₂
    exact loopFrom_ends fun _ s₃ h₃ => declaratorSuffix_ends (hg₂.along h₃) place named _
  apply Ends.ite
  · intro hn
    have hp : s₁.isAt .lParen = true := (Bool.and_eq_true_iff.mp hn).1
    have hl := State.length_pos_of_isAt hp
    have hnode : Opens go (node .nestedDeclarator do
        advance
        go (.declarator place)
        discard (expect .rParen)) :=
      .node (.behind (.bind (.rule _) fun _ => .discard (.expect _)))
    apply (hnode.takes s₁ hg₁ hl).any.seq
    intro _ s₂ h₂
    exact hr false s₂ (hg₁.along h₂)
  · intro _
    apply (accept_takes .ellipsis s₁).any.discard.seq
    intro _ s₂ h₂
    have hg₂ := hg₁.along h₂
    apply Ends.read (isAtAny_run _ s₂)
    apply Ends.ite
    · intro _
      apply (typeName_takes hg₂).any.seq
      intro _ s₃ h₃
      exact hr _ s₃ (hg₂.along h₃)
    · intro _
      exact hr _ s₂ hg₂

theorem declarator_total (place : Place) : Total go (declarator go place) :=
  fun _ hg => declarator_takes hg.behind place

theorem initializer_takes (hg : RunsBehind go s) (place : Place) (isFunction : Bool) :
    Ends (initializer go place isFunction) s fun _ => Takes 0 s := by
  have opens {p : Parser Unit} (hk : s.kindAt 0 ≠ .error) (hp : Opens go p) :
      Ends p s fun _ => Takes 0 s :=
    (hp.takes s hg (State.length_pos_of_kindAt rfl hk)).any
  apply Ends.read (peek_run s)
  split <;> rename_i hk
  · apply opens (by simp [hk])
    apply Opens.node
    apply Opens.behind
    apply Total.bind (.isAtAny _)
    intro _
    exact .ite .advance (.rule _)
  · apply Ends.ite
    · intro _
      exact .pure (.refl s)
    · intro _
      exact opens (by simp [hk]) (.node bracedInitializer_opens)
  · apply Ends.ite
    · intro _
      exact .pure (.refl s)
    · intro _
      exact opens (by simp [hk]) (.node arguments_opens)
  · apply Ends.ite
    · intro _
      exact .pure (.refl s)
    · intro _
      exact opens (by simp [hk]) equalInitializer_opens
  · exact .pure (.refl s)

theorem initializer_total (place : Place) (isFunction : Bool) :
    Total go (initializer go place isFunction) :=
  fun _ hg => initializer_takes hg.behind place isFunction

end CppRefactor.Grammar
