import CppRefactor.Proofs.Grammar.Rules

/-!
The grammar does not see trivia, apart from line breaks: as long as it finds nothing wrong, it runs
the same over the same words with other trivia between them. Where it compares gaps, in braced
initializers, a difference is followed by a complaint.
-/

namespace CppRefactor.Grammar

/-- The states differ in trivia only: in gaps without a line break, and in which gaps are closed. -/
structure Alike (s t : State) : Prop where
  ahead : tighten s.ahead = tighten t.ahead
  taken : s.taken = t.taken
  built : s.built = t.built
  faults : s.faults = t.faults

/-- Words are taken from the front of those ahead, and no complaint is taken back. -/
structure Passes (s s' : State) : Prop where
  suffix : s'.ahead <:+ s.ahead
  taken : s'.taken + s'.ahead.length = s.taken + s.ahead.length
  faults : s'.faults = [] → s.faults = []

theorem Passes.refl (s : State) : Passes s s := ⟨List.suffix_refl _, rfl, id⟩

theorem Passes.trans (h : Passes s s₁) (h' : Passes s₁ s₂) : Passes s s₂ :=
  ⟨h'.suffix.trans h.suffix, h'.taken.trans h.taken, fun hf => h.faults (h'.faults hf)⟩

/-- The parser ends in a state with a result, wherever the state differs in trivia only. -/
def Repeats (p : Parser α) (s : State) (a : α) (s' : State) : Prop :=
  ∀ t, Alike s t → Ends p t fun b t' => b = a ∧ Alike s' t'

/-- What the parser does without a complaint it does whatever the trivia. -/
def Blind (p : Parser α) : Prop :=
  ∀ s a s', p.run s = some (a, s') → Passes s s' ∧ (s'.faults = [] → Repeats p s a s')

namespace Alike

theorem enter (h : Alike s t) : Alike s.enter t.enter := ⟨h.ahead, h.taken, rfl, h.faults⟩

theorem isAtAny (h : Alike s t) (ks : List Kind) : t.isAtAny ks = s.isAtAny ks := by
  have hk (s : State) :
      s.isAtAny ks = ((tighten s.ahead).head?.any fun w => ks.contains w.kind) := by
    simp only [State.isAtAny, head?_tighten, Option.any_map, Word.tight_kind]
  rw [hk, hk, h.ahead]

theorem isAt (h : Alike s t) (k : Kind) : t.isAt k = s.isAt k := h.isAtAny [k]

theorem atEnd (h : Alike s t) : t.atEnd = s.atEnd := by
  have hl := congrArg List.isEmpty h.ahead
  simpa only [tighten, List.isEmpty_map, State.atEnd] using hl.symm

end Alike

namespace Blind

theorem pure (a : α) : Blind (Pure.pure a : Parser α) := by
  intro s b s' h
  cases h
  exact ⟨.refl s, fun _ t ht => .pure ⟨rfl, ht⟩⟩

theorem bind {p : Parser α} {f : α → Parser β} (hp : Blind p) (hf : ∀ a, Blind (f a)) :
    Blind (p >>= f) := by
  intro s b s' h
  obtain ⟨a, s₁, h₁, h₂⟩ := run_bind_eq_some.mp h
  obtain ⟨hps₁, hr₁⟩ := hp s a s₁ h₁
  obtain ⟨hps₂, hr₂⟩ := hf a s₁ b s' h₂
  refine ⟨hps₁.trans hps₂, fun hs t ht => ?_⟩
  apply (hr₁ (hps₂.faults hs) t ht).bind
  rintro _ t₁ ⟨rfl, ht₁⟩
  exact hr₂ hs t₁ ht₁

theorem look {f : List Word → Parser α} (ht : ∀ ws, f (tighten ws) = f ws)
    (hf : ∀ ws, Blind (f ws)) : Blind (upcoming >>= f) := by
  intro s a s' h
  obtain ⟨hp, hr⟩ := hf s.ahead s a s' h
  refine ⟨hp, fun hs t hst => ?_⟩
  apply Ends.read (upcoming_run t)
  rw [← ht t.ahead, ← hst.ahead, ht]
  exact hr hs t hst

theorem cutOff : Blind (failure : Parser α) := nofun

theorem advance : Blind advance := by
  rintro ⟨ahead, taken, settled, built, faults⟩ _ s' h
  cases ahead with
  | nil =>
    cases h
    refine ⟨⟨List.suffix_refl _, rfl, id⟩, fun _ t ht => ?_⟩
    obtain ⟨ahead, taken, settled, built, faults⟩ := t
    obtain ⟨ha, rfl, rfl, rfl⟩ := ht
    obtain rfl : ahead = [] := List.map_eq_nil_iff.mp ha.symm
    exact ⟨(), _, rfl, rfl, rfl, rfl, rfl, rfl⟩
  | cons w ws =>
    cases h
    refine ⟨⟨List.suffix_cons w ws, ?_, id⟩, fun _ t ht => ?_⟩
    · simp only [List.length_cons]
      omega
    · obtain ⟨ahead, taken, settled, built, faults⟩ := t
      obtain ⟨ha, rfl, rfl, rfl⟩ := ht
      obtain ⟨v, vs, rfl, -, hvs⟩ := List.map_eq_cons_iff.mp ha.symm
      exact ⟨(), _, rfl, rfl, hvs.symm, rfl, rfl, rfl⟩

theorem report (c : Complaint) : Blind (report c) := by
  intro s _ s' h
  cases h
  exact ⟨⟨List.suffix_refl _, rfl, nofun⟩, nofun⟩

theorem node {body : Parser α} (hb : Blind body) (k : Kind) : Blind (node k body) := by
  intro s a s' h
  rw [node_run, Option.bind_eq_some_iff] at h
  obtain ⟨⟨b, s₁⟩, h₁, h₂⟩ := h
  cases h₂
  obtain ⟨hp, hr⟩ := hb s.enter a s₁ h₁
  refine ⟨⟨hp.suffix, hp.taken, hp.faults⟩, fun hs t ht => ?_⟩
  obtain ⟨_, t₁, hrun, rfl, ht₁⟩ := hr hs t.enter ht.enter
  refine ⟨_, { t₁ with built := .node k t₁.built.reverse :: t.built }, ?_, rfl, ?_⟩
  · rw [node_run, hrun]
    rfl
  · exact ⟨ht₁.ahead, ht₁.taken, by rw [ht₁.built, ht.built], ht₁.faults⟩

theorem ifAhead {p : Parser α} (hp : Blind p) : Blind (ifAhead p) := by
  refine .look (fun ws => by cases ws <;> rfl) fun ws => ?_
  split
  · exact .cutOff
  · exact hp

theorem mark : Blind mark := by
  intro s a s' h
  cases h
  refine ⟨⟨List.suffix_refl _, rfl, id⟩, fun _ t ht => ?_⟩
  exact ⟨_, t.settle, rfl, by rw [ht.built], ht.ahead, ht.taken, ht.built, ht.faults⟩

theorem wrap (k : Kind) (since : Nat) : Blind (wrap k since) := by
  intro s a s' h
  cases h
  refine ⟨⟨List.suffix_refl _, rfl, id⟩, fun _ t ht => ?_⟩
  exact ⟨(), _, rfl, rfl, ht.ahead, ht.taken, by simp only [ht.built], ht.faults⟩

theorem advanceBy (n : Nat) : Blind (advanceBy n) := by
  induction n with
  | zero => exact .pure ()
  | succ n ih => exact .bind .advance fun _ => ih

theorem skip (stop : Word → Bool) (h : ∀ w, stop w.tight = stop w) :
    Blind (Grammar.node .error do
      let n := (← upcoming).findIdx stop
      Grammar.advanceBy (max n 1)) := by
  refine .node (.look (fun ws => ?_) fun _ => .advanceBy _) _
  simp only [tighten, List.findIdx_map, Function.comp_def, h]

theorem recover (c : Complaint) (stops : List Kind) : Blind (recover c stops) :=
  .bind (.report c) fun _ => .skip _ fun _ => rfl

end Blind

def blind : Judgement where
  Holds := Blind
  pure := .pure
  bind := .bind
  look := .look
  cutOff := .cutOff
  advance := .advance
  report := .report
  node _ hb := hb.node _
  headed _ hr _ := .ifAhead (.node (.bind .advance hr) _)
  plain _ hb _ := .node hb _
  enclosed _ _ _ hb := .node hb _
  mark := .mark
  wrap since _ := .wrap _ since
  recover := .recover

/-- The parser runs the same in all states whose insides of a node are the same. -/
def Enters (p : Parser α) : Prop :=
  ∀ s a s' t, p.run s = some (a, s') → t.enter = s.enter →
    Ends p t fun _ t' => t'.ahead = s'.ahead ∧ t'.taken = s'.taken ∧ t'.settled = s'.settled ∧
      t'.faults = s'.faults

theorem node_enters (k : Kind) (body : Parser α) : Enters (node k body) := by
  intro s a s' t h ht
  rw [node_run, Option.bind_eq_some_iff] at h
  obtain ⟨⟨b, s₁⟩, h₁, h₂⟩ := h
  cases h₂
  refine ⟨a, { s₁ with built := .node k s₁.built.reverse :: t.built }, ?_, rfl, rfl, rfl, rfl⟩
  rw [node_run, ht, h₁]
  rfl

/-- Where the repetition of the step goes on from, it complains. -/
def Doomed (step : Parser Bool) (s : State) : Prop :=
  ∀ more s', step.run s = some (more, s') → s'.faults ≠ []

/-- Up to `n` steps, for as long as they ask for more. -/
def steps (step : Parser Bool) (n : Nat) : Parser Unit :=
  repeatUpTo n (fun _ => do return (← step, ())) ()

theorem steps_succ (step : Parser Bool) (n : Nat) :
    steps step (n + 1) = step >>= fun more => if more = true then steps step n else pure () := by
  simp only [steps, repeatUpTo, bind_assoc, pure_bind]

theorem steps_passes {step : Parser Bool}
    (h : ∀ s more s', step.run s = some (more, s') → Passes s s') {n : Nat}
    (hrun : (steps step n).run s = some ((), s')) : Passes s s' := by
  induction n generalizing s with
  | zero => cases hrun
  | succ n ih =>
    rw [steps_succ] at hrun
    obtain ⟨more, s₁, h₁, h₂⟩ := run_bind_eq_some.mp hrun
    cases more with
    | false =>
      cases h₂
      exact h _ _ _ h₁
    | true => exact (h _ _ _ h₁).trans (ih h₂)

theorem Doomed.steps {step : Parser Bool} (hd : Doomed step s)
    (h : ∀ s more s', step.run s = some (more, s') → Passes s s')
    (hrun : (steps step n).run s = some ((), s')) : s'.faults ≠ [] := by
  cases n with
  | zero => cases hrun
  | succ n =>
    rw [steps_succ] at hrun
    obtain ⟨more, s₁, h₁, h₂⟩ := run_bind_eq_some.mp hrun
    intro hs
    cases more with
    | false =>
      cases h₂
      exact hd _ _ h₁ hs
    | true => exact hd _ _ h₁ ((steps_passes h h₂).faults hs)

/-- A repetition is blind if each step without a complaint repeats, or goes on to one that
complains. -/
theorem steps_blind {step : Parser Bool}
    (h : ∀ s more s', step.run s = some (more, s') → Passes s s')
    (hr : ∀ s more s', step.run s = some (more, s') → s'.faults = [] → ∀ t, Alike s t →
      Ends step t (fun b t' => b = more ∧ Alike s' t') ∨ more = true ∧ Doomed step s')
    (n : Nat) : Blind (steps step n) := by
  induction n with
  | zero => exact .cutOff
  | succ n ih =>
    intro s _ s' hrun
    rw [steps_succ] at hrun ⊢
    obtain ⟨more, s₁, h₁, h₂⟩ := run_bind_eq_some.mp hrun
    cases more with
    | false =>
      cases h₂
      refine ⟨h _ _ _ h₁, fun hs t ht => ?_⟩
      rcases hr _ _ _ h₁ hs t ht with hstep | ⟨hm, -⟩
      · apply hstep.bind
        rintro _ t₁ ⟨rfl, ht₁⟩
        exact .pure ⟨rfl, ht₁⟩
      · cases hm
    | true =>
      obtain ⟨hp, hrest⟩ := ih _ _ _ h₂
      refine ⟨(h _ _ _ h₁).trans hp, fun hs t ht => ?_⟩
      rcases hr _ _ _ h₁ (hp.faults hs) t ht with hstep | ⟨-, hd⟩
      · apply hstep.bind
        rintro _ t₁ ⟨rfl, ht₁⟩
        exact hrest hs t₁ ht₁
      · exact absurd hs (hd.steps h h₂)

/-- What may stand behind an expression in braces; `other` sees to all else. -/
def behindBraced (other : Parser Bool) : Parser Bool := do
  if ← accept .comma then return true
  if ← accept .semicolon then return true
  if ← isAt .rBrace then return false
  other

/-- Complains if the parser is no further than before. -/
def complainIfStuck (before : Nat × Bool) : Parser Bool := do
  if (← progress) == before then recover .unexpectedInInitializer [.rBrace]
  return true

/-- An expression in braces, and what stands behind it. -/
def bracedStep (go : Rule → Parser Unit) : Parser Bool := do
  if (← atEnd) || (← isAt .rBrace) then return false
  let before ← progress
  go (.expression [.comma, .rBrace, .semicolon])
  behindBraced (complainIfStuck before)

theorem bracedInitializer_eq (go : Rule → Parser Unit) :
    bracedInitializer go =
      node .bracedInit (advance >>= fun _ => loop (bracedStep go) >>= fun _ =>
        discard (expect .rBrace)) := rfl

theorem accept_bind_run_of_isAt (h : s.isAt k = true) :
    ∃ s', ∀ f : Bool → Parser β, (accept k >>= f).run s = (f true).run s' := by
  obtain ⟨b, s', hrun, hb, -⟩ := accept_ends k s
  rw [h] at hb
  refine ⟨s', fun f => ?_⟩
  rw [StateT.run_bind, hrun, hb]
  rfl

theorem accept_bind_run (h : s.isAt k = false) (f : Bool → Parser β) :
    (accept k >>= f).run s = (f false).run s := by
  obtain ⟨b, s', hrun, hb, -, hs⟩ := accept_ends k s
  rw [h] at hb
  cases hs hb
  rw [StateT.run_bind, hrun, hb]
  rfl

/-- A comma, a semicolon or a closing brace is ahead. -/
def State.endsPart (s : State) : Bool := s.isAt .comma || s.isAt .semicolon || s.isAt .rBrace

theorem Alike.endsPart (h : Alike s t) : t.endsPart = s.endsPart := by
  simp only [State.endsPart, h.isAt]

theorem behindBraced_of_endsPart (h : s.endsPart = true) (p q : Parser Bool) :
    (behindBraced p).run s = (behindBraced q).run s := by
  simp only [behindBraced]
  cases hc : s.isAt .comma with
  | true =>
    obtain ⟨s', hs'⟩ := accept_bind_run_of_isAt hc (β := Bool)
    rw [hs', hs']
    rfl
  | false =>
    rw [accept_bind_run hc, accept_bind_run hc, if_neg nofun, if_neg nofun]
    cases hs : s.isAt .semicolon with
    | true =>
      obtain ⟨s', hs'⟩ := accept_bind_run_of_isAt hs (β := Bool)
      rw [hs', hs']
      rfl
    | false =>
      have hb : s.isAt .rBrace = true := by simpa [State.endsPart, hc, hs] using h
      rw [accept_bind_run hs, accept_bind_run hs, if_neg nofun, if_neg nofun, StateT.run_bind,
        StateT.run_bind, isAt_run, hb]
      rfl

theorem behindBraced_of_not_endsPart (h : s.endsPart = false) (p : Parser Bool) :
    (behindBraced p).run s = p.run s := by
  simp only [State.endsPart, Bool.or_eq_false_iff] at h
  rw [behindBraced, accept_bind_run h.1.1, if_neg nofun, accept_bind_run h.1.2, if_neg nofun,
    StateT.run_bind, isAt_run, h.2]
  rfl

theorem complainIfStuck_run (before : Nat × Bool) (s : State) :
    (complainIfStuck before).run s =
      if ((s.taken, s.isClosed) == before) = true then
        (recover .unexpectedInInitializer [.rBrace] >>= fun _ => pure true).run s
      else some (true, s) := by
  rw [complainIfStuck, StateT.run_bind, progress_run, Option.bind_eq_bind, Option.bind_some]
  split <;> rfl

/-- Unless the braces end, a step is an expression from the state it starts in. -/
theorem bracedStep_run (go : Rule → Parser Unit) (h : (s.atEnd || s.isAt .rBrace) = false) :
    (bracedStep go).run s = ((go (.expression [.comma, .rBrace, .semicolon])).run s).bind
      fun r => (behindBraced (complainIfStuck (s.taken, s.isClosed))).run r.2 := by
  simp only [bracedStep, StateT.run_bind, atEnd_run, isAt_run, Option.bind_eq_bind,
    Option.bind_some, h]
  rfl

theorem behindBraced_blind {other : Parser Bool} (h : Blind other) :
    Blind (behindBraced other) := by
  apply blind.bind (blind.accept _)
  intro _
  apply blind.ite (blind.pure _)
  apply blind.bind (blind.accept _)
  intro _
  apply blind.ite (blind.pure _)
  exact blind.bind (blind.isAt _) fun _ => blind.ite (blind.pure _) h

theorem complaint_blind : Blind do
    recover .unexpectedInInitializer [.rBrace]
    return true :=
  .bind (.recover _ _) fun _ => .pure true

theorem complaint_faults
    (h : (recover .unexpectedInInitializer [.rBrace] >>= fun _ => pure true).run s =
      some (more, s')) : s'.faults ≠ [] := by
  obtain ⟨_, s₁, h₁, h₂⟩ := run_bind_eq_some.mp h
  obtain ⟨_, s₂, h₃, h₄⟩ := run_bind_eq_some.mp h₁
  cases h₂
  cases h₃
  have hskip := Blind.skip (fun w => [Kind.rBrace].contains w.kind) fun _ => rfl
  intro hs
  exact List.cons_ne_nil _ _ ((hskip _ _ _ h₄).1.faults hs)

/-- If an expression takes nothing, another one behind it takes nothing either. -/
theorem doomed_of_still (he : Enters (go (.expression [.comma, .rBrace, .semicolon])))
    (hend : (s.atEnd || s.isAt .rBrace) = false)
    (hrun : (go (.expression [.comma, .rBrace, .semicolon])).run s = some ((), s₁))
    (hp : Passes s s₁) (ht : s₁.taken = s.taken) (hs : s₁.faults = [])
    (hpart : s₁.endsPart = false) : Doomed (bracedStep go) s₁ := by
  have ha : s₁.ahead = s.ahead := by
    have htaken := hp.taken
    exact hp.suffix.eq_of_length (by omega)
  have henter : s₁.enter = s.enter := by
    simp only [State.enter, ha, ht, hs, hp.faults hs]
  have hend₁ : (s₁.atEnd || s₁.isAt .rBrace) = false := by
    simpa only [State.atEnd, State.isAt, State.isAtAny, ha] using hend
  obtain ⟨_, s₂, hrun₂, ha₂, ht₂, hst₂, -⟩ := he s () s₁ s₁ hrun henter
  have hpart₂ : s₂.endsPart = false := by
    simpa only [State.endsPart, State.isAt, State.isAtAny, ha₂] using hpart
  have hclosed : s₂.isClosed = s₁.isClosed := by
    simp only [State.isClosed, hst₂, ha₂]
  intro more s' h
  rw [bracedStep_run go hend₁, hrun₂, Option.bind_some, behindBraced_of_not_endsPart hpart₂,
    complainIfStuck_run, ht₂, hclosed, if_pos (beq_self_eq_true _)] at h
  exact complaint_faults h

theorem bracedStep_blind (hg : ∀ r, Blind (go r)) (he : ∀ stops, Enters (go (.expression stops)))
    (hrun : (bracedStep go).run s = some (more, s')) :
    Passes s s' ∧ (s'.faults = [] → ∀ t, Alike s t →
      Ends (bracedStep go) t (fun b t' => b = more ∧ Alike s' t') ∨
        more = true ∧ Doomed (bracedStep go) s') := by
  cases hend : s.atEnd || s.isAt .rBrace with
  | true =>
    have hstop {t : State} (h : (t.atEnd || t.isAt .rBrace) = true) :
        (bracedStep go).run t = some (false, t) := by
      rw [bracedStep, StateT.run_bind, atEnd_run, Option.bind_eq_bind, Option.bind_some,
        StateT.run_bind, isAt_run, Option.bind_eq_bind, Option.bind_some, h]
      rfl
    rw [hstop hend] at hrun
    cases hrun
    refine ⟨.refl s, fun _ t ht => .inl ⟨false, t, hstop ?_, rfl, ht⟩⟩
    rw [ht.atEnd, ht.isAt, hend]
  | false =>
    have hend_t {t : State} (ht : Alike s t) : (t.atEnd || t.isAt .rBrace) = false := by
      rw [ht.atEnd, ht.isAt, hend]
    rw [bracedStep_run go hend] at hrun
    obtain ⟨⟨_, s₁⟩, h₁, h₂⟩ := Option.bind_eq_some_iff.mp hrun
    obtain ⟨hp₁, hr₁⟩ := hg _ _ _ _ h₁
    cases hpart : s₁.endsPart with
    | true =>
      rw [behindBraced_of_endsPart hpart _ (pure true)] at h₂
      obtain ⟨hp₂, hr₂⟩ := behindBraced_blind (.pure true) _ _ _ h₂
      refine ⟨hp₁.trans hp₂, fun hs t ht => .inl ?_⟩
      obtain ⟨_, t₁, hrun₁, -, ht₁⟩ := hr₁ (hp₂.faults hs) t ht
      obtain ⟨b, t', hrun₂, hb⟩ := hr₂ hs t₁ ht₁
      refine ⟨b, t', ?_, hb⟩
      rw [bracedStep_run go (hend_t ht), hrun₁, Option.bind_some,
        behindBraced_of_endsPart (ht₁.endsPart ▸ hpart) _ (pure true), hrun₂]
    | false =>
      rw [behindBraced_of_not_endsPart hpart, complainIfStuck_run] at h₂
      split at h₂
      · exact ⟨hp₁.trans (complaint_blind _ _ _ h₂).1, fun hs => absurd hs (complaint_faults h₂)⟩
      · cases h₂
        refine ⟨hp₁, fun hs t ht => ?_⟩
        obtain ⟨_, t₁, hrun₁, -, ht₁⟩ := hr₁ hs t ht
        have hrun_t : (bracedStep go).run t = (complainIfStuck (t.taken, t.isClosed)).run t₁ := by
          rw [bracedStep_run go (hend_t ht), hrun₁, Option.bind_some,
            behindBraced_of_not_endsPart (ht₁.endsPart ▸ hpart)]
        rw [complainIfStuck_run] at hrun_t
        split at hrun_t
        -- Only here do the runs part: a gap was closed in the first one that had been closed in
        -- the second one before.
        · rename_i hstill
          refine .inr ⟨rfl, doomed_of_still (he _) hend h₁ hp₁ ?_ hs hpart⟩
          simp only [beq_iff_eq, Prod.mk.injEq] at hstill
          rw [ht₁.taken, hstill.1, ht.taken]
        · exact .inl ⟨true, t₁, hrun_t, rfl, ht₁⟩

theorem bracedInitializer_blind (hg : ∀ r, Blind (go r))
    (he : ∀ stops, Enters (go (.expression stops))) : Blind (bracedInitializer go) := by
  rw [bracedInitializer_eq]
  refine .node (.bind .advance fun _ => .bind ?_ fun _ => ?_) _
  · refine blind.look (fun ws => by rw [length_tighten]) fun _ => ?_
    refine steps_blind ?_ ?_ _
    · intro s more s' h
      exact (bracedStep_blind hg he h).1
    · intro s more s' h
      exact (bracedStep_blind hg he h).2
  · exact blind.discard (blind.expect _)

theorem runRule_enters (depth : Nat) (stops : List Kind) :
    Enters (runRule depth (.expression stops)) := by
  cases depth with
  | zero => nofun
  | succ depth => exact node_enters _ _

theorem runRule_blind (depth : Nat) (rule : Rule) : Blind (runRule depth rule) := by
  induction depth generalizing rule with
  | zero => exact .cutOff
  | succ depth ih =>
    have hg : blind.Covers (runRule depth) :=
      ⟨ih, bracedInitializer_blind ih (runRule_enters depth), fun _ => runRule_adds depth,
        runRule_declaration_plain depth⟩
    refine ruleBody_holds hg (blind.ifAhead (namespaceDeclaration_holds hg fun start => ?_))
      (simpleDeclaration_holds hg fun start => .wrap .functionDef start) rule
    exact .wrap .namespaceDef start

theorem sourceFile_blind : Blind sourceFile := sourceFile_holds (J := blind) runRule_blind

end CppRefactor.Grammar
