import CppRefactor.Proofs.Grammar.Progress

/-!
Parsers that are not cut off. Each way to put parsers together has a lemma that takes `Ends` of the
parts to `Ends` of the whole, and each basic parser one that says how many words it takes.
-/

namespace CppRefactor.Grammar

/-- From a state the parser is not cut off, and ends with a result and a state as `post` says. -/
def Ends (p : Parser α) (s : State) (post : α → State → Prop) : Prop :=
  ∃ a s', p.run s = some (a, s') ∧ post a s'

theorem run_bind_eq_some {p : Parser α} {f : α → Parser β} :
    (p >>= f).run s = some (b, s') ↔
      ∃ a s₁, p.run s = some (a, s₁) ∧ (f a).run s₁ = some (b, s') := by
  rw [StateT.run_bind, Option.bind_eq_bind, Option.bind_eq_some_iff]
  exact ⟨fun ⟨(a, s₁), h⟩ => ⟨a, s₁, h⟩, fun ⟨a, s₁, h⟩ => ⟨(a, s₁), h⟩⟩

theorem discard_eq (p : Parser α) : discard p = p >>= fun _ => pure () := by
  simp only [Functor.discard, Functor.mapConst, Function.comp_def]
  rfl

namespace Ends

theorem imp (h : Ends p s post) (hi : ∀ a s', post a s' → post' a s') : Ends p s post' := by
  obtain ⟨a, s', he, hp⟩ := h
  exact ⟨a, s', he, hi a s' hp⟩

theorem pure (h : post a s) : Ends (Pure.pure a) s post := ⟨a, s, rfl, h⟩

theorem bind (hp : Ends p s mid) (hf : ∀ a s₁, mid a s₁ → Ends (f a) s₁ post) :
    Ends (p >>= f) s post := by
  obtain ⟨a, s₁, he, hm⟩ := hp
  obtain ⟨b, s₂, he', hb⟩ := hf a s₁ hm
  refine ⟨b, s₂, ?_, hb⟩
  rw [StateT.run_bind, he]
  exact he'

theorem read (hp : p.run s = some (a, s)) (hf : Ends (f a) s post) : Ends (p >>= f) s post := by
  obtain ⟨b, s₁, he, hb⟩ := hf
  refine ⟨b, s₁, ?_, hb⟩
  rw [StateT.run_bind, hp]
  exact he

theorem seq (hp : Ends p s fun _ => Takes k s)
    (hf : ∀ a s₁, Takes k s s₁ → Ends (f a) s₁ fun _ => Takes 0 s₁) :
    Ends (p >>= f) s fun _ => Takes k s :=
  hp.bind fun a s₁ h₁ => (hf a s₁ h₁).imp fun _ _ h₂ => h₁.andThen h₂

theorem discard {post : State → Prop} (h : Ends p s fun _ s' => post s') :
    Ends (discard p) s fun _ s' => post s' := by
  obtain ⟨a, s', he, hp⟩ := h
  refine ⟨(), s', ?_, hp⟩
  change (Functor.map (Function.const _ PUnit.unit) p).run s = _
  rw [StateT.run_map, he]
  rfl

theorem ite {b : Bool} (hp : b = true → Ends p s post) (hq : b = false → Ends q s post) :
    Ends (if b = true then p else q) s post := by
  cases b with
  | true => exact hp rfl
  | false => exact hq rfl

theorem any {k : α → Nat} (h : Ends p s fun a => Takes (k a) s) : Ends p s fun _ => Takes 0 s :=
  h.imp fun _ _ h => h.any

end Ends

theorem upcoming_run (s : State) : upcoming.run s = some (s.ahead, s) := rfl

theorem atEnd_run (s : State) : atEnd.run s = some (s.atEnd, s) := rfl

theorem word?_run (n : Nat) (s : State) : (word? n).run s = some (s.ahead[n]?, s) := rfl

theorem kindAt_run (n : Nat) (s : State) : (kindAt n).run s = some (s.kindAt n, s) := rfl

theorem peek_run (s : State) : peek.run s = some (s.kindAt 0, s) := rfl

theorem textAt_run (n : Nat) (s : State) :
    (textAt n).run s = some (((s.ahead[n]?).map (·.text)).getD "", s) := rfl

theorem isAtAny_run (ks : List Kind) (s : State) : (isAtAny ks).run s = some (s.isAtAny ks, s) := by
  cases s with
  | mk ahead taken settled built faults => cases ahead <;> rfl

theorem isAt_run (k : Kind) (s : State) : (isAt k).run s = some (s.isAt k, s) := isAtAny_run [k] s

theorem progress_run (s : State) : progress.run s = some ((s.taken, s.isClosed), s) := rfl

theorem advance_takes (h : 0 < s.ahead.length) : Ends advance s fun _ => Takes 1 s := by
  cases s with
  | mk ahead taken settled built faults =>
    cases ahead with
    | nil => simp at h
    | cons w ws =>
      refine ⟨(), _, rfl, ⟨List.suffix_cons w ws, Nat.le_refl _, ?_, ?_, [.word], rfl, ?_⟩⟩
      · simp only [List.length_cons]; omega
      · simp
      · simp only [Outline.wordsOf_cons, Outline.words_word, Outline.wordsOf_nil,
          List.length_cons]
        omega

theorem advance_drop (s : State) :
    Ends advance s fun _ s' => Takes 0 s s' ∧ s'.ahead = s.ahead.drop 1 := by
  by_cases h : 0 < s.ahead.length
  · obtain ⟨_, s', he, ht⟩ := advance_takes h
    refine ⟨(), s', he, ht.any, ?_⟩
    cases s with
    | mk ahead taken settled built faults =>
      cases ahead with
      | nil => simp at h
      | cons w ws => cases he; rfl
  · obtain ⟨ahead, taken, settled, built, faults⟩ := s
    obtain rfl : ahead = [] := by simpa using h
    exact ⟨(), _, rfl, ⟨List.suffix_refl _, Nat.le_refl _, rfl, fun _ _ => rfl, [.gap], rfl, rfl⟩,
      rfl⟩

theorem advance_ends (s : State) : Ends advance s fun _ => Takes 0 s :=
  (advance_drop s).imp fun _ _ h => h.1

theorem advanceBy_drop (n : Nat) (s : State) :
    Ends (advanceBy n) s fun _ s' => Takes 0 s s' ∧ s'.ahead = s.ahead.drop n := by
  induction n generalizing s with
  | zero => exact .pure ⟨.refl s, rfl⟩
  | succ n ih =>
    apply (advance_drop s).bind
    intro _ s₁ h₁
    apply (ih s₁).imp
    intro _ s₂ h₂
    exact ⟨h₁.1.then h₂.1, by rw [h₂.2, h₁.2, List.drop_drop, Nat.add_comm]⟩

theorem advanceBy_takes (n : Nat) (s : State) :
    Ends (advanceBy n) s fun _ => Takes (min n s.ahead.length) s := by
  apply (advanceBy_drop n s).imp
  intro _ s' h
  have hl := congrArg List.length h.2
  rw [List.length_drop] at hl
  exact { h.1 with length := by omega }

theorem accept_ends (k : Kind) (s : State) :
    Ends (accept k) s fun b s' => b = s.isAt k ∧ Takes b.toNat s s' ∧ (b = false → s' = s) := by
  apply Ends.read (isAt_run k s)
  apply Ends.ite
  · intro hb
    apply (advance_takes (State.length_pos_of_isAt hb)).bind
    intro _ s' h
    exact .pure ⟨hb.symm, h, nofun⟩
  · intro hb
    exact .pure ⟨hb.symm, .refl s, fun _ => rfl⟩

theorem accept_takes (k : Kind) (s : State) : Ends (accept k) s fun b => Takes b.toNat s :=
  (accept_ends k s).imp fun _ _ h => h.2.1

theorem skip_ends (k : Kind) (s : State) :
    Ends (discard (accept k)) s fun _ s' => Takes 1 s s' ∨ (s' = s ∧ s.isAt k = false) := by
  apply Ends.discard
  apply (accept_ends k s).imp
  rintro (_ | _) s' ⟨hb, h, hs⟩
  · exact .inr ⟨hs rfl, hb.symm⟩
  · exact .inl h

theorem report_ends (c : Complaint) (s : State) :
    Ends (report c) s fun _ s' => Takes 0 s s' ∧ s'.ahead = s.ahead :=
  ⟨(), _, rfl, ⟨List.suffix_refl _, Nat.le_refl _, rfl, fun _ h => h, [], rfl, by simp⟩, rfl⟩

theorem report_takes (c : Complaint) (s : State) : Ends (report c) s fun _ => Takes 0 s :=
  (report_ends c s).imp fun _ _ h => h.1

theorem expect_takes (k : Kind) (s : State) : Ends (expect k) s fun b => Takes b.toNat s := by
  apply (accept_takes k s).bind
  intro b s₁ h₁
  apply Ends.ite
  · intro hb
    exact .pure (hb ▸ h₁)
  · intro _
    apply (report_takes _ s₁).bind
    intro _ s₂ h₂
    exact .pure (h₁.any.then h₂)

theorem groupLength_pos (opener closer : Kind) (depth : Nat) (h : 0 < ws.length) :
    0 < groupLength opener closer depth ws := by
  cases ws with
  | nil => simp at h
  | cons w ws =>
    simp only [groupLength]
    split
    · omega
    · split
      · split <;> omega
      · omega

theorem takeBrackets_takes (h : 0 < s.ahead.length) :
    Ends takeBrackets s fun _ => Takes 1 s := by
  apply Ends.read (upcoming_run s)
  apply (advanceBy_takes _ s).imp
  intro _ s' ht
  have hg := groupLength_pos .lBracket .rBracket 0 h
  exact ht.mono (by omega)

theorem node_run (k : Kind) (body : Parser α) (s : State) :
    (node k body).run s = (body.run s.enter).bind fun (a, s') =>
      some (a, { s' with built := .node k s'.built.reverse :: s.built }) := rfl

theorem Ends.node (h : Ends body s.enter fun _ => Takes n s.enter) :
    Ends (node k body) s fun _ => Takes n s := by
  obtain ⟨a, s', he, ht⟩ := h
  refine ⟨a, { s' with built := .node k s'.built.reverse :: s.built }, ?_, ?_⟩
  · rw [node_run, he]
    rfl
  · obtain ⟨parts, hb, hw⟩ := ht.built
    rw [State.enter, List.append_nil] at hb
    refine ⟨ht.suffix, ht.length, ht.taken, fun hl _ => ht.settled hl rfl,
      [.node k s'.built.reverse], rfl, ?_⟩
    simpa [hb] using hw

/-- A mark is a number of parts; the parts behind it are those built since. -/
theorem Ends.mark (h : Ends (f s.built.length) s.settle post) : Ends (mark >>= f) s post := h

theorem wrap_takes (h : Takes n s s') : Ends (wrap k s.built.length) s' fun _ => Takes n s := by
  obtain ⟨parts, hb, hw⟩ := h.built
  refine ⟨(), _, rfl, ⟨h.suffix, h.length, h.taken, h.settled, [.node k parts.reverse], ?_, ?_⟩⟩
  · simp [hb]
  · simpa using hw

theorem recover_takes (c : Complaint) (stops : List Kind) (s : State) :
    Ends (recover c stops) s fun _ => Takes (min 1 s.ahead.length) s := by
  apply (report_ends c s).bind
  intro _ s₁ h₁
  have hn : Ends (Grammar.node .error do
      let n := (← upcoming).findIdx fun w => stops.contains w.kind
      advanceBy (max n 1)) s₁ fun _ => Takes (min 1 s.ahead.length) s₁ := by
    apply Ends.node
    apply Ends.read (upcoming_run _)
    apply (advanceBy_takes _ _).imp
    intro _ s₂ h₂
    rw [State.enter_ahead, h₁.2] at h₂
    exact h₂.mono (by omega)
  exact hn.imp fun _ _ h₂ => h₁.1.then h₂

theorem endWithSemicolon_takes (s : State) :
    Ends endWithSemicolon s fun _ => Takes s.isFree.toNat s := by
  apply (accept_ends .semicolon s).bind
  rintro b s₁ ⟨hb, h₁, hs⟩
  apply Ends.ite
  · intro hb
    subst hb
    exact .pure (h₁.mono (Bool.toNat_le _))
  · intro hb
    cases hs hb
    apply Ends.read (isAt_run _ s)
    apply Ends.read (atEnd_run s)
    apply Ends.ite
    · intro he
      apply (report_takes _ s).imp
      intro _ s₂ h₂
      have hf : s.isFree = false := by
        cases ha : s.ahead <;> simp_all [State.isFree, State.isAt, State.isAtAny, State.atEnd]
      exact hf ▸ h₂
    · intro he
      apply (recover_takes _ _ s).bind
      intro _ s₂ h₂
      apply Ends.discard
      apply (accept_takes _ s₂).imp
      intro _ s₃ h₃
      have hl : 0 < s.ahead.length := State.length_pos_of_not_atEnd (by simp_all)
      have hf := Bool.toNat_le s.isFree
      exact (h₂.andThen h₃).mono (by omega)

/-- Steps that use room come to an end, and the last one says how it ended. -/
theorem repeatUpTo_ends {step : σ → Parser (Bool × σ)} {n : Nat} {post : State → Prop}
    (hstep : ∀ b s₁, Takes 0 s s₁ →
      Ends (step b) s₁ fun r s₂ => Steps r.1 s₁ s₂ ∧ (r.1 = false → post s₂))
    (a : σ) (h : Takes 0 s s₁) (hn : s₁.room < n) :
    Ends (repeatUpTo n step a) s₁ fun _ s₂ => Takes 0 s₁ s₂ ∧ post s₂ := by
  induction n generalizing a s₁ with
  | zero => omega
  | succ n ih =>
    apply (hstep a s₁ h).bind
    rintro ⟨more, b⟩ s₂ ⟨h₂, hp⟩
    apply Ends.ite
    · intro hm
      have hr := h₂.2 hm
      apply (ih b (h.then h₂.1) (by omega)).imp
      intro _ s₃ h₃
      exact ⟨h₂.1.then h₃.1, h₃.2⟩
    · intro hm
      exact .pure ⟨h₂.1, hp hm⟩

theorem State.room_le (s : State) : s.room ≤ 2 * s.ahead.length + 1 := by
  have hb := Bool.toNat_le (!s.isClosed)
  simp only [State.room]
  omega

theorem loopFrom_takes {step : σ → Parser (Bool × σ)} {k : State → Nat}
    (h : ∀ b s₁, Takes 0 s s₁ → Ends (step b) s₁ fun r s₂ => Takes (k s₁) s₁ s₂ ∧ Steps r.1 s₁ s₂) :
    Ends (loopFrom a step) s fun _ => Takes (k s) s := by
  apply Ends.read (upcoming_run s)
  apply (h a s (.refl s)).bind
  rintro ⟨more, b⟩ s₁ ⟨h₁, hs⟩
  apply Ends.ite
  · intro hm
    have hr := hs.2 hm
    have hl := s.room_le
    have hrest : Ends (repeatUpTo (2 * s.ahead.length + 1) step b) s₁
        fun _ s₂ => Takes 0 s₁ s₂ ∧ True := by
      refine repeatUpTo_ends ?_ b h₁.any (by omega)
      intro b s₂ h₂
      exact (h b s₂ h₂).imp fun _ _ h₃ => ⟨h₃.2, fun _ => trivial⟩
    exact hrest.imp fun _ _ h₂ => h₁.andThen h₂.1
  · intro _
    exact .pure h₁

theorem loopFrom_ends {step : σ → Parser (Bool × σ)}
    (h : ∀ b s₁, Takes 0 s s₁ → Ends (step b) s₁ fun r => Steps r.1 s₁) :
    Ends (loopFrom a step) s fun _ => Takes 0 s :=
  loopFrom_takes (k := fun _ => 0) fun b s₁ h₁ => (h b s₁ h₁).imp fun _ _ h₂ => ⟨h₂.1, h₂⟩

theorem loop_ends {post : State → Prop}
    (h : ∀ s₁, Takes 0 s s₁ →
      Ends step s₁ fun more s₂ => Steps more s₁ s₂ ∧ (more = false → post s₂)) :
    Ends (loop step) s fun _ s' => Takes 0 s s' ∧ post s' := by
  apply Ends.read (upcoming_run s)
  have hr := s.room_le
  refine repeatUpTo_ends ?_ () (.refl s) (by omega)
  intro _ s₁ h₁
  apply (h s₁ h₁).bind
  intro more s₂ h₂
  exact .pure h₂

theorem loop_takes (h : ∀ s₁, Takes 0 s s₁ → Ends step s₁ fun more => Steps more s₁) :
    Ends (loop step) s fun _ => Takes 0 s := by
  have hl : Ends (loop step) s fun _ s' => Takes 0 s s' ∧ True :=
    loop_ends fun s₁ h₁ => (h s₁ h₁).imp fun _ _ h₂ => ⟨h₂, fun _ => trivial⟩
  exact hl.imp fun _ _ h₁ => h₁.1

theorem loopWhile_takes {condition : Parser Bool}
    (h : ∀ s₁, Takes 0 s s₁ → Ends condition s₁ fun b s₂ =>
      Takes 0 s₁ s₂ ∧ (b = true → Ends step s₂ fun _ => Takes 1 s₁)) :
    Ends (loopWhile condition step) s fun _ => Takes 0 s := by
  apply loop_takes
  intro s₁ h₁
  apply (h s₁ h₁).bind
  rintro b s₂ ⟨h₂, hb⟩
  apply Ends.ite
  · intro ht
    apply (hb ht).bind
    intro _ s₃ h₃
    exact .pure (h₃.steps Nat.one_pos true)
  · intro _
    exact .pure h₂.stops

theorem loopWhile_read {condition : Parser Bool} {holds : State → Bool}
    (hc : ∀ s₁, condition.run s₁ = some (holds s₁, s₁))
    (h : ∀ s₁, Takes 0 s s₁ → holds s₁ = true → Ends step s₁ fun _ => Takes 1 s₁) :
    Ends (loopWhile condition step) s fun _ => Takes 0 s := by
  apply loopWhile_takes
  intro s₁ h₁
  exact ⟨holds s₁, s₁, hc s₁, .refl s₁, h s₁ h₁⟩

theorem loopWhile_accept (h : ∀ s₁, Takes 1 s s₁ → Ends step s₁ fun _ => Takes 0 s₁) :
    Ends (loopWhile (accept k) step) s fun _ => Takes 0 s := by
  apply loopWhile_takes
  intro s₁ h₁
  apply (accept_takes k s₁).imp
  intro b s₂ h₂
  refine ⟨h₂.any, ?_⟩
  rintro rfl
  exact (h s₂ (h₁.then h₂)).imp fun _ _ h₃ => h₂.andThen h₃

end CppRefactor.Grammar
