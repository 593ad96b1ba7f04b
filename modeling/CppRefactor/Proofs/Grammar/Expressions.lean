import CppRefactor.Grammar.Expressions
import CppRefactor.Proofs.Grammar.Names

/-!
What expressions take.
-/

namespace CppRefactor.Grammar

variable {go : Rule → Parser Unit}

theorem group_opens : Opens go (group go kind closer) := by
  apply Opens.node
  apply Opens.behind
  apply Total.bind (commasUntil_total (.rule _))
  intro _
  exact .discard (.expect _)

theorem arguments_opens : Opens go (arguments go) := group_opens

/-- Between two steps a word is taken, a gap is closed, or something is skipped. -/
theorem bracedInitializer_opens : Opens go (bracedInitializer go) := by
  apply Opens.node
  apply Opens.behind
  refine Total.bind (.loopUntil ?_) fun _ => .discard (.expect _)
  intro s hg he _
  have hl := State.length_pos_of_not_atEnd he
  apply Ends.read (progress_run s)
  apply (hg.least _).bind
  intro _ s₁ h₁
  apply (accept_ends .comma s₁).bind
  rintro _ s₂ ⟨-, h₂, hs₂⟩
  apply Ends.ite
  · rintro rfl
    exact .pure ((h₁.any.then h₂).steps Nat.one_pos true)
  · intro hb₂
    cases hs₂ hb₂
    apply (accept_ends .semicolon s₁).bind
    rintro _ s₂ ⟨-, h₂, hs₂⟩
    apply Ends.ite
    · rintro rfl
      exact .pure ((h₁.any.then h₂).steps Nat.one_pos true)
    · intro hb₂
      cases hs₂ hb₂
      apply Ends.read (isAt_run _ s₁)
      apply Ends.ite
      · intro _
        exact .pure h₁.stops
      · intro _
        -- The initializer may have closed the gap before a word and taken nothing.
        apply Ends.read (progress_run s₁)
        apply Ends.ite
        · intro hp
          have ht := h₁.taken
          apply (recover_takes _ _ s₁).bind
          intro _ s₂ h₂
          refine .pure ((h₁.any.then h₂).steps ?_ true)
          simp only [beq_iff_eq, Prod.mk.injEq] at hp
          omega
        · intro hp
          exact .pure ⟨h₁.any, fun _ => h₁.room_lt_of_ne (by simpa using hp)⟩

theorem nameReference_takes (hg : RunsBehind go s) :
    Ends (nameReference go) s fun _ => Takes s.startsName.toNat s := by
  apply Ends.node
  exact (qualifiedName_takes (s := s.enter) hg false).discard

theorem nameReference_total : Total go (nameReference go) :=
  fun _ hg => (nameReference_takes hg.behind).any

theorem expressionPart_takes (hg : RunsBehind go s) (he : s.atEnd = false) (operand : Bool) :
    Ends (expressionPart go operand) s fun _ => Takes 1 s := by
  have opens {p : Parser Bool} (hp : Opens go p) : Ends p s fun _ => Takes 1 s :=
    hp.takes s hg (State.length_pos_of_not_atEnd he)
  have hliteral : Opens go (node .literal advance) := .node .word
  have hmember : Total go do
      if ← isAtAny [.ident, .tilde, .templateKw, .operatorKw] then nameReference go
      return true :=
    .bind (.isAtAny _) fun _ =>
      .ite (.bind nameReference_total fun _ => .pure true) (.pure true)
  have hname (hk : s.startsName = true) :
      Ends (nameReference go >>= fun _ => pure true) s fun _ => Takes 1 s := by
    have hn := nameReference_takes hg
    rw [hk] at hn
    exact hn.seq fun _ s₁ _ => .pure (.refl s₁)
  apply Ends.read (peek_run s)
  split <;> rename_i hk
  · exact opens (hliteral.bind fun _ => .pure true)
  · exact opens (hliteral.bind fun _ => .pure true)
  · exact opens (hliteral.bind fun _ => .pure true)
  · exact hname (State.startsName_of_kindAt hk (by decide))
  · exact hname (State.startsName_of_kindAt hk (by decide))
  · exact hname (State.startsName_of_kindAt hk (by decide))
  · exact opens (.behind hmember)
  · exact opens (.behind hmember)
  · exact opens (.ite (arguments_opens.bind fun _ => .pure true)
      (group_opens.bind fun _ => .pure true))
  · exact opens (group_opens.bind fun _ => .pure true)
  · exact opens (bracedInitializer_opens.bind fun _ => .pure true)
  · exact opens (.behind (.pure true))
  · exact opens (.ite (hliteral.bind fun _ => .pure true) (.behind (.pure _)))

theorem expression_takes (hg : RunsBehind go s) (stops : List Kind) :
    Ends (expression go stops) s fun _ => Takes 0 s := by
  apply Ends.node
  apply Ends.discard
  apply loopFrom_ends
  intro e s₁ h₁
  have hg₁ := RunsBehind.along (s := s.enter) hg h₁
  apply Ends.read (atEnd_run s₁)
  apply Ends.ite
  · intro _
    exact .pure (Takes.refl s₁).stops
  · intro he
    have hl := State.length_pos_of_not_atEnd he
    apply Ends.read (peek_run s₁)
    apply Ends.ite
    · intro _
      exact (Opens.word.bind fun _ => .pure _).steps hg₁ hl
    · intro _
      apply Ends.ite
      · intro _
        exact .pure (Takes.refl s₁).stops
      · intro _
        apply Ends.ite
        · intro _
          exact (Opens.word.bind fun _ => .pure _).steps hg₁ hl
        · intro _
          apply (expressionPart_takes hg₁ he _).bind
          intro _ s₂ h₂
          exact .pure (h₂.steps Nat.one_pos true)

end CppRefactor.Grammar
