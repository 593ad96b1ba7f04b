import CppRefactor.Proofs.Grammar.Declarations
import CppRefactor.Syntax.Parse

/-!
The grammar is not cut off: a rule runs in a depth of twice the words ahead, and a file takes every
word of its text.
-/

namespace CppRefactor.Grammar

/-- A statement may begin with any other rule before it takes a word. -/
def Rule.rank : Rule → Nat
  | .statement => 1
  | _ => 0

theorem ruleBody_takes {go : Rule → Parser Unit} {rule : Rule} (hg : RunsBehind go s)
    (hm : ∀ r s₁, r.rank < rule.rank → s₁.ahead.length ≤ s.ahead.length →
      Ends (go r) s₁ fun _ => Takes (r.least s₁) s₁) :
    Ends (ruleBody go rule) s fun _ => Takes (rule.least s) s := by
  cases rule with
  | declaration place => exact declaration_takes hg place
  | statement =>
    apply statement_takes hg
    intro r s₁ hr
    apply hm
    cases r <;> simp_all [Rule.rank]
  | expression stops => exact expression_takes hg stops
  | specifiers place => exact specifiers_takes hg place
  | declarator place => exact (declarator_takes hg place).discard

theorem Rule.rank_le (rule : Rule) : rule.rank ≤ 1 := by
  cases rule <;> simp [rank]

/-- Each rule in another one begins behind a word, or is of a lower rank. -/
theorem runRule_takes (rule : Rule) (h : 2 * s.ahead.length + rule.rank < depth) :
    Ends (runRule depth rule) s fun _ => Takes (rule.least s) s := by
  induction depth generalizing rule s with
  | zero => omega
  | succ depth ih =>
    apply ruleBody_takes
    · intro r s₁ hl
      have hr := r.rank_le
      exact ih r (by omega)
    · intro r s₁ hr hl
      exact ih r (by omega)

/-- The declarations of a file take all its words, whatever is wrong with them. -/
theorem sourceFile_takes (s : State) :
    Ends sourceFile s fun _ s' => Takes 0 s s' ∧ s'.ahead = [] := by
  apply Ends.read (upcoming_run s)
  apply loop_ends
  intro s₁ h₁
  apply Ends.read (atEnd_run s₁)
  apply Ends.ite
  · intro he
    exact .pure ⟨(Takes.refl s₁).stops, fun _ => List.isEmpty_iff.mp he⟩
  · intro he
    have hl := State.length_pos_of_not_atEnd he
    have htaken {p : Parser Unit} (hp : Ends p s₁ fun _ => Takes 1 s₁) :
        Ends (p >>= fun _ => pure true) s₁ fun more s₂ =>
          Steps more s₁ s₂ ∧ (more = false → s₂.ahead = []) :=
      hp.bind fun _ _ h₂ => .pure ⟨h₂.steps Nat.one_pos true, nofun⟩
    apply Ends.read (isAt_run _ s₁)
    apply Ends.ite
    · intro _
      exact htaken ((recover_takes _ _ s₁).imp fun _ _ h => h.mono (by omega))
    · intro hb
      have hf := State.isFree_of_not_isAt he hb
      have hd : 2 * s₁.ahead.length + 0 < depthFor s.ahead.length := by
        have := h₁.suffix.length_le
        simp only [depthFor]
        omega
      have hr := runRule_takes (.declaration .scope) hd
      rw [Rule.least, hf] at hr
      exact htaken hr

end CppRefactor.Grammar
