import CppRefactor.Grammar.Statements
import CppRefactor.Proofs.Grammar.Specifiers

/-!
What statements take: a word at least, unless a closing brace is ahead.
-/

namespace CppRefactor.Grammar

variable {go : Rule → Parser Unit}

theorem block_opens : Opens go (block go) := by
  apply Opens.node
  apply Opens.behind
  apply Total.bind (rulesUntil_total fun _ => rfl)
  intro _
  exact .discard (.expect _)

theorem subStatement_total : Total go (subStatement go) := by
  apply Total.bind .atEnd
  intro _
  apply Total.bind (.isAt _)
  intro _
  exact .ite (.report _) (.rule _)

theorem headDeclarator_total (stops : List Kind) : Total go (headDeclarator go stops) := by
  apply Total.node
  apply Total.bind (.discard (declarator_total _))
  intro _
  apply Total.bind (.isAt _)
  intro _
  apply Total.ite equalInitializer_opens.total
  apply Total.bind (.isAt _)
  intro _
  exact .opt (.node bracedInitializer_opens.total)

theorem condition_total : Total go (condition go) := by
  apply Total.node
  apply Total.bind (.expect _)
  intro _
  apply Total.opt
  apply Total.bind .upcoming
  intro _
  extract_lets close rest
  have hr : ∀ u, Total go (rest u) := by
    intro _
    apply Total.bind (.accept _)
    intro _
    exact .optBind (.rule _) fun _ => .discard (.expect _)
  refine Total.iteBind ?_ (.rule _) hr
  apply Total.node
  apply Total.bind (specifiers_total _)
  intro _
  exact headDeclarator_total _

theorem forHead_total : Total go (forHead go) := by
  apply Total.bind .upcoming
  intro _
  extract_lets close step range
  have hc : ∀ u, Total go (close u) := fun _ => .discard (.expect _)
  have hs : ∀ u, Total go (step u) := by
    intro _
    apply Total.bind (.discard (.expect _))
    intro _
    exact .bind (.isAt _) fun _ => .unlessBind (.rule _) hc
  have hr : ∀ u, Total go (range u) := by
    intro _
    apply Total.bind (.accept _)
    intro _
    apply Total.ite (.bind (.rule _) hc)
    apply Total.bind (.expect _)
    intro _
    refine Total.ite ?_ (hc ())
    exact .bind (.isAt _) fun _ => .unlessBind (.rule _) hs
  apply Total.ite
  · refine Total.bind (.node ?_) hr
    apply Total.bind (specifiers_total _)
    intro _
    exact commas_total (headDeclarator_total _)
  · exact .bind (.isAt _) fun _ => .unlessBind (.rule _) hr

theorem forStatement_opens : Opens go (forStatement go) := by
  apply Opens.node
  apply Opens.behind
  apply Total.bind (.expect _)
  intro _
  apply Total.opt
  exact .bind forHead_total fun _ => subStatement_total

theorem catchClause_opens : Opens go (catchClause go) := by
  apply Opens.node
  apply Opens.behind
  apply Total.bind (.isAt _)
  intro _
  apply Total.optBind parameterList_opens.total
  intro _
  apply Total.bind (.isAt _)
  intro _
  exact .ite block_opens.total (.report _)

theorem catchClauses_total : Total go (catchClauses go) :=
  .loopWhile _ (isAt_run _) fun s hg h =>
    catchClause_opens.takes s hg.behind (State.length_pos_of_isAt h)

theorem tryStatement_opens : Opens go (tryStatement go) := by
  apply Opens.node
  apply Opens.behind
  apply Total.bind (.isAt _)
  intro _
  exact .iteBind block_opens.total (.report _) fun _ => catchClauses_total

theorem jump_opens : Opens go (jump k) := by
  apply Opens.node
  apply Opens.behind
  exact .optBind (.discard (.accept _)) fun _ => .endWithSemicolon

theorem controlled_opens : Opens go (controlled go k) := by
  apply Opens.node
  apply Opens.behind
  exact .bind condition_total fun _ => subStatement_total

theorem statement_takes (hg : RunsBehind go s)
    (hm : ∀ rule s₁, rule ≠ .statement → s₁.ahead.length ≤ s.ahead.length →
      Ends (go rule) s₁ fun _ => Takes (rule.least s₁) s₁) :
    Ends (statement go) s fun _ => Takes s.isFree.toNat s := by
  have opens {p : Parser Unit} (hk : s.kindAt 0 ≠ .error) (hp : Opens go p) :
      Ends p s fun _ => Takes s.isFree.toNat s :=
    (hp.takes s hg (State.length_pos_of_kindAt rfl hk)).imp fun _ _ h => h.toNat _
  have hdeclaration : Ends (go (.declaration .block)) s fun _ => Takes s.isFree.toNat s :=
    hm _ s nofun (Nat.le_refl _)
  apply Ends.read (peek_run s)
  split <;> rename_i hk
  · exact opens (by simp [hk]) block_opens
  · exact opens (by simp [hk]) controlled_opens
  · exact opens (by simp [hk]) controlled_opens
  · apply opens (by simp [hk])
    apply Opens.node
    apply Opens.behind
    apply Total.bind (.rule _)
    intro _
    apply Total.bind (.accept _)
    intro _
    exact .ite (.pure ()) (.report _)
  · apply opens (by simp [hk])
    apply Opens.node
    apply Opens.behind
    apply Total.bind (.discard (.accept _))
    intro _
    apply Total.bind condition_total
    intro _
    apply Total.bind subStatement_total
    intro _
    apply Total.bind (.accept _)
    intro _
    exact .opt subStatement_total
  · apply opens (by simp [hk])
    apply Opens.node
    apply Opens.behind
    apply Total.bind subStatement_total
    intro _
    apply Total.bind (.expect _)
    intro _
    exact .optBind condition_total fun _ => .endWithSemicolon
  · exact opens (by simp [hk]) forStatement_opens
  · apply opens (by simp [hk])
    apply Opens.node
    apply Opens.behind
    apply Total.bind (.isAt _)
    intro _
    exact .ite .endWithSemicolon (.bind (.rule _) fun _ => .endWithSemicolon)
  · exact opens (by simp [hk]) jump_opens
  · exact opens (by simp [hk]) jump_opens
  · exact opens (by simp [hk]) jump_opens
  · exact opens (by simp [hk]) tryStatement_opens
  · exact opens (by simp [hk]) (.node .word)
  · exact hdeclaration
  · exact hdeclaration
  · exact hdeclaration
  · exact hdeclaration
  · exact hdeclaration
  · apply Ends.read (kindAt_run 1 s)
    have hlabel : Opens go (advanceBy 2) := .behind (.advanceBy 1)
    apply Ends.ite
    · intro hd
      simp only [Bool.and_eq_true, beq_iff_eq] at hd
      exact opens (by simp [hd.1]) hlabel.node
    · intro _
      apply Ends.ite
      · intro hi
        simp only [Bool.and_eq_true, beq_iff_eq] at hi
        exact opens (by simp [hi.1]) hlabel.node
      · intro _
        apply Ends.read (upcoming_run s)
        apply Ends.ite
        · intro _
          exact hdeclaration
        · intro _
          apply Ends.node
          apply (hm (.expression []) s.enter nofun (Nat.le_refl _)).bind
          intro _ s₁ h₁
          exact (endWithSemicolon_takes s₁).imp fun _ _ h₂ => h₁.any.thenFree h₂

end CppRefactor.Grammar
