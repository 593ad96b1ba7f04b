import CppRefactor.Grammar.Names
import CppRefactor.Proofs.Grammar.Total

/-!
What names and template arguments take.
-/

namespace CppRefactor.Grammar

variable {go : Rule → Parser Unit}

theorem typeId_total : Total go (typeId go) := by
  apply Total.bind (.rule _)
  intro _
  apply Total.bind (.isAtAny _)
  intro _
  exact .opt (.rule _)

theorem templateArgument_total : Total go (templateArgument go) := by
  apply Total.bind .peek
  intro _
  extract_lets rest
  have hr : ∀ u, Total go (rest u) := fun _ => .discard (.accept _)
  apply Total.ite
  · exact .bind (.rule _) hr
  · apply Total.bind typeId_total
    intro _
    apply Total.bind (.isAtAny _)
    intro _
    apply Total.bind .atEnd
    intro _
    exact .ite (hr ()) (.bind (.rule _) hr)

theorem templateArguments_opens : Opens go (templateArguments go) := by
  apply Opens.node
  apply Opens.behind
  apply Total.bind (commasUntil_total templateArgument_total)
  intro _
  exact .discard (.expect _)

theorem operatorName_opens : Opens go (operatorName go) := by
  apply Opens.behind
  apply Total.bind .peek
  intro k
  split
  · exact .bind .advance fun _ => .advance
  · exact .bind .advance fun _ => .advance
  · apply Total.bind .advance
    intro _
    apply Total.bind (.accept _)
    intro _
    exact .opt (.discard (.expect _))
  · apply Total.bind .advance
    intro _
    apply Total.bind (.accept _)
    intro _
    exact .opt (.discard (.expect _))
  · exact .bind .advance fun _ => .discard (.accept _)
  · apply Total.bind .advance
    intro _
    apply Total.bind (.isAt _)
    intro _
    apply Total.bind (.kindAt _)
    intro _
    exact .opt .advance
  · apply Total.ite
    · exact .bind (.rule _) fun _ => skipWhile_total _
    · exact .bind .atEnd fun _ => .ite (.pure _) .advance

/-- A segment of a name is ahead. -/
def State.startsSegment (s : State) : Bool := s.isAtAny [.ident, .tilde, .operatorKw]

/-- A name is ahead. -/
def State.startsName (s : State) : Bool :=
  s.isAtAny [.ident, .colonColon, .tilde, .operatorKw]

theorem State.startsName_of_kindAt {s : State} (h : s.kindAt 0 = k)
    (hk : k ∈ [Kind.ident, .colonColon, .tilde, .operatorKw]) : s.startsName = true := by
  have hl : 0 < s.ahead.length := length_pos_of_kindAt h (by rintro rfl; simp at hk)
  have he : s.atEnd = false := by simpa [atEnd] using List.ne_nil_of_length_pos hl
  rw [startsName, isAtAny_eq he, h]
  simpa using hk

theorem behindSegment_total (t : Bool) (last : Option String) :
    Total go (behindSegment go t last) := by
  apply Total.bind (.isAt _)
  intro _
  extract_lets rest
  have hr : ∀ u, Total go (rest u) := by
    intro _
    apply Total.bind (.isAt _)
    intro _
    apply Total.bind (.kindAt _)
    intro _
    exact .ite (.bind .advance fun _ => .pure _) (.pure _)
  apply Total.ite
  · apply Total.bind .upcoming
    intro _
    exact .ite (.bind templateArguments_opens.total hr) (hr ())
  · exact hr ()

theorem segment_takes (hg : RunsBehind go s) (t : Bool) (last : Option String) :
    Ends (segment go t last) s fun r s' => Takes s.startsSegment.toNat s s' ∧ Steps r.1 s s' := by
  have htaken {p : Parser (Bool × Option String)} (h : Ends p s fun _ => Takes 1 s) :
      Ends p s fun r s' => Takes s.startsSegment.toNat s s' ∧ Steps r.1 s s' :=
    h.imp fun r _ h => ⟨h.toNat _, h.steps Nat.one_pos r.1⟩
  apply Ends.read (atEnd_run s)
  apply Ends.ite
  · intro he
    have hn : s.startsSegment = false := by
      simp_all [State.atEnd, State.startsSegment, State.isAtAny]
    exact .pure ⟨hn ▸ .refl s, (Takes.refl s).stops⟩
  · intro he
    have hl := State.length_pos_of_not_atEnd he
    apply Ends.read (peek_run s)
    split
    · apply Ends.read (textAt_run 0 s)
      exact htaken ((Opens.behind (behindSegment_total t _)).takes s hg hl)
    · apply htaken
      refine (Opens.behind ?_).takes s hg hl
      apply Total.bind (.isAt _)
      intro _
      apply Total.ite
      · exact .bind (.textAt _) fun _ => .bind .advance fun _ => behindSegment_total t _
      · exact behindSegment_total t _
    · apply htaken
      exact (operatorName_opens.bind fun _ => .pure _).takes s hg hl
    · rename_i hi ht ho
      have hn : s.startsSegment = false := by
        rw [State.startsSegment, State.isAtAny_eq he]
        simp_all
      apply (report_takes _ s).bind
      intro _ s₁ h₁
      exact .pure ⟨hn ▸ h₁, h₁.stops⟩

theorem qualifiedName_takes (hg : RunsBehind go s) (t : Bool) :
    Ends (qualifiedName go t) s fun _ => Takes s.startsName.toNat s := by
  apply Ends.node
  apply (skip_ends .colonColon s.enter).bind
  intro _ s₁ h₁
  have hg₁ : RunsBehind go s₁ := by
    rcases h₁ with h₁ | ⟨rfl, _⟩
    · exact (RunsBehind.after (s := s.enter) hg h₁).behind
    · exact hg
  -- A name begins with `::`, which was taken, or with a segment.
  have hk : ∀ s₂, Takes s₁.startsSegment.toNat s₁ s₂ → Takes s.startsName.toNat s.enter s₂ := by
    intro s₂ h₂
    rcases h₁ with h₁ | ⟨rfl, hc⟩
    · exact (h₁.andThen h₂).toNat _
    · have hn : s.startsName = s.enter.startsSegment := by
        cases ha : s.ahead <;>
          simp_all [State.startsName, State.startsSegment, State.isAt, State.isAtAny]
      exact hn ▸ h₂
  refine (loopFrom_takes (k := fun s => s.startsSegment.toNat) ?_).imp fun _ => hk
  intro last s₂ h₂
  apply (skip_ends .templateKw s₂).bind
  rintro _ s₃ (h₃ | ⟨rfl, _⟩)
  · apply (segment_takes ((hg₁.along h₂).along h₃) t last).imp
    intro r s₄ h₄
    exact ⟨(h₃.andThen h₄.1).toNat _, h₃.thenSteps h₄.2⟩
  · exact segment_takes (hg₁.along h₂) t last

theorem qualifiedName_total (t : Bool) : Total go (qualifiedName go t) :=
  fun _ hg => (qualifiedName_takes hg.behind t).any

theorem typeName_takes (hg : RunsBehind go s) :
    Ends (typeName go) s fun _ => Takes s.startsName.toNat s :=
  (qualifiedName_takes hg true).discard

theorem typeName_total : Total go (typeName go) := .discard (qualifiedName_total true)

theorem Total.atName : Total go atName := .isAtAny _

end CppRefactor.Grammar
