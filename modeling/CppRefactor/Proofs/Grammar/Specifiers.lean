import CppRefactor.Grammar.Specifiers
import CppRefactor.Proofs.Grammar.Declarators

/-!
What specifiers take.
-/

namespace CppRefactor.Grammar

variable {go : Rule → Parser Unit}

theorem enumBase_opens : Opens go (enumBase go) := .node (.behind (.rule _))

theorem elaboratedType_opens : Opens go (elaboratedType go) := by
  apply Opens.node
  apply Opens.look (isAt_run .enumKw)
  intro _
  apply Opens.behind
  apply Total.bind (.isAtAny _)
  intro _
  apply Total.optBind .advance
  intro _
  apply Total.bind .atName
  intro _
  apply Total.optBind typeName_total
  intro _
  apply Total.bind (.isAt _)
  intro _
  exact .opt enumBase_opens.total

theorem baseClause_opens : Opens go (baseClause go) := by
  apply Opens.node
  apply Opens.behind
  apply commas_total
  apply Total.node
  apply Total.bind (skipWhile_total _)
  intro _
  apply Total.bind .atName
  intro _
  exact .iteBind typeName_total (.report _) fun _ => .discard (.accept _)

theorem memberList_opens (className : Option String) : Opens go (memberList go className) := by
  apply Opens.node
  apply Opens.behind
  apply Total.bind (rulesUntil_total fun _ => rfl)
  intro _
  exact .discard (.expect _)

theorem Total.atFinal : Total go atFinal :=
  .bind (.isAt _) fun _ => .bind (.textAt _) fun _ => .pure _

theorem classSpecifier_opens : Opens go (classSpecifier go) := by
  apply Opens.node
  apply Opens.behind
  apply Total.bind
  · apply Total.loopWhile fun s => s.isAt .ident && s.kindAt 1 == .ident &&
      !Guess.isFinal (((s.ahead[1]?).map (·.text)).getD "")
    · intro s
      simp only [StateT.run_bind, isAt_run, kindAt_run, textAt_run, Option.bind_eq_bind,
        Option.bind_some]
      rfl
    · intro s _ h
      simp only [Bool.and_eq_true] at h
      exact advance_takes (State.length_pos_of_isAt h.1.1)
  · intro _
    apply Total.bind .atName
    intro _
    apply Total.iteBind (qualifiedName_total true) (.pure none)
    intro name
    apply Total.bind .atFinal
    intro _
    apply Total.optBind .advance
    intro _
    apply Total.bind (.isAt _)
    intro _
    apply Total.optBind baseClause_opens.total
    intro _
    apply Total.bind (.isAt _)
    intro _
    exact .ite (memberList_opens name).total (.report _)

theorem enumerator_opens : Opens go (enumerator go) := by
  apply Opens.node
  apply Opens.behind
  apply Total.bind (.accept _)
  intro _
  exact .opt (.rule _)

theorem enumeratorList_total : Total go (enumeratorList go) := by
  apply Total.node
  apply Total.bind (.discard (.expect _))
  intro _
  refine Total.bind (.loopUntil ?_) fun _ => .discard (.expect _)
  intro s hg he _
  have hl := State.length_pos_of_not_atEnd he
  apply Ends.read (isAt_run _ s)
  extract_lets next separator
  have hs : Total go (separator ()) := by
    apply Total.bind (.accept _)
    intro _
    apply Total.ite (.pure true)
    apply Total.bind (.isAt _)
    intro _
    apply Total.ite (.pure true)
    apply Total.bind (.recover _ _)
    intro _
    exact .bind (.discard (.accept _)) fun _ => .pure true
  have hstep {p : Parser Unit} (hp : Ends p s fun _ => Takes 1 s) :
      Ends (p >>= separator) s fun more => Steps more s := by
    apply hp.bind
    intro _ s₁ h₁
    exact (hs s₁ (hg.after h₁)).imp fun more _ h₂ => (h₁.andThen h₂).steps Nat.one_pos more
  apply Ends.ite
  · intro _
    exact hstep (enumerator_opens.takes s hg.behind hl)
  · intro _
    apply hstep
    exact (recover_takes _ _ s).imp fun _ _ h => h.mono (by omega)

theorem enumSpecifier_opens : Opens go (enumSpecifier go) := by
  apply Opens.node
  apply Opens.behind
  apply Total.bind (.isAtAny _)
  intro _
  apply Total.optBind .advance
  intro _
  apply Total.bind .atName
  intro _
  apply Total.optBind typeName_total
  intro _
  apply Total.bind (.isAt _)
  intro _
  exact .optBind enumBase_opens.total fun _ => enumeratorList_total

theorem atSpecifierMacro_run (s : State) : ∃ b, atSpecifierMacro.run s = some (b, s) := by
  simp only [atSpecifierMacro, StateT.run_bind, isAt_run, kindAt_run, textAt_run,
    Option.bind_eq_bind, Option.bind_some]
  exact ⟨_, rfl⟩

theorem nameSpecifier_takes (hg : RunsBehind go s) (hn : s.startsName = true) (place : Place) :
    Ends (nameSpecifier go place) s fun r => Takes r.1.toNat s := by
  obtain ⟨b, hm⟩ := atSpecifierMacro_run s
  apply Ends.read hm
  apply Ends.ite
  · intro _
    apply (advance_takes (State.length_pos_of_isAtAny hn)).bind
    intro _ s₁ h₁
    exact .pure h₁
  · intro _
    apply Ends.read (upcoming_run s)
    apply Ends.ite
    · intro _
      exact .pure (.refl s)
    · intro _
      have ht := typeName_takes hg
      rw [hn] at ht
      apply ht.bind
      intro _ s₁ h₁
      exact .pure h₁

theorem typeSpecifier_takes (hg : RunsBehind go s) (place : Place) :
    Ends (typeSpecifier go place) s fun r => Takes r.1.toNat s := by
  have opens {p : Parser (Bool × Bool)} (hk : s.kindAt 0 ≠ .error) (hp : Opens go p) :
      Ends p s fun r => Takes r.1.toNat s :=
    (hp.takes s hg (State.length_pos_of_kindAt rfl hk)).imp fun r _ h => h.toNat r.1
  have hdefinition {p : Parser Unit} (hp : Opens go p) :
      Opens go (do
        if Guess.startsTypeDefinition (← upcoming) then p else elaboratedType go
        return (true, true)) := by
    apply Opens.look upcoming_run
    intro _
    exact .ite (hp.bind fun _ => .pure _) (elaboratedType_opens.bind fun _ => .pure _)
  apply Ends.read (peek_run s)
  split <;> rename_i hk
  · exact opens (by simp [hk]) (hdefinition classSpecifier_opens)
  · exact opens (by simp [hk]) (hdefinition classSpecifier_opens)
  · exact opens (by simp [hk]) (hdefinition classSpecifier_opens)
  · exact opens (by simp [hk]) (hdefinition enumSpecifier_opens)
  · apply opens (by simp [hk])
    apply Opens.behind
    apply Total.bind (.isAt _)
    intro _
    exact .optBind .takeParentheses fun _ => .pure _
  · exact nameSpecifier_takes hg (State.startsName_of_kindAt hk (by decide)) place
  · exact nameSpecifier_takes hg (State.startsName_of_kindAt hk (by decide)) place
  · exact .pure (.refl s)

theorem specifiers_takes (hg : RunsBehind go s) (place : Place) :
    Ends (specifiers go place) s fun _ => Takes 0 s := by
  apply Ends.node
  apply Ends.discard
  apply loopFrom_ends
  intro typed s₁ h₁
  have hg₁ := RunsBehind.along (s := s.enter) hg h₁
  apply Ends.read (atEnd_run s₁)
  apply Ends.ite
  · intro _
    exact .pure (Takes.refl s₁).stops
  · intro he
    have hl := State.length_pos_of_not_atEnd he
    apply Ends.read (peek_run s₁)
    apply Ends.ite
    · intro _
      exact (Opens.word.bind fun _ => .pure _).steps hg₁ hl
    · intro _
      apply Ends.ite
      · intro _
        exact (Opens.word.bind fun _ => .pure _).steps hg₁ hl
      · intro _
        apply Ends.ite
        · intro _
          exact .pure (Takes.refl s₁).stops
        · intro _
          exact (typeSpecifier_takes hg₁ place).imp fun _ _ h => h.steps_toNat

theorem specifiers_total (place : Place) : Total go (specifiers go place) :=
  fun _ hg => specifiers_takes hg.behind place

end CppRefactor.Grammar
