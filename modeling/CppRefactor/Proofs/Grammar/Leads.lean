import CppRefactor.Proofs.Grammar.Ends

/-!
What a parser leads to if it is not cut off, and what it adds to the node that is open.
-/

namespace CppRefactor.Grammar

/-- If the parser is not cut off, it ends with a result and a state as `post` says. -/
def Leads (p : Parser α) (s : State) (post : α → State → Prop) : Prop :=
  ∀ a s', p.run s = some (a, s') → post a s'

namespace Leads

theorem imp (h : Leads p s post) (hi : ∀ a s', post a s' → post' a s') : Leads p s post' :=
  fun a s' hrun => hi a s' (h a s' hrun)

theorem and (h : Leads p s post) (h' : Leads p s post') :
    Leads p s fun a s' => post a s' ∧ post' a s' :=
  fun a s' hrun => ⟨h a s' hrun, h' a s' hrun⟩

theorem pure (h : post a s) : Leads (Pure.pure a) s post := by
  intro b s' hrun
  cases hrun
  exact h

theorem bind (hp : Leads p s mid) (hf : ∀ a s₁, mid a s₁ → Leads (f a) s₁ post) :
    Leads (p >>= f) s post := by
  intro b s' hrun
  obtain ⟨a, s₁, h₁, h₂⟩ := run_bind_eq_some.mp hrun
  exact hf a s₁ (hp a s₁ h₁) b s' h₂

theorem read (hp : p.run s = some (a, s)) (hf : Leads (f a) s post) : Leads (p >>= f) s post := by
  intro b s' hrun
  obtain ⟨a', s₁, h₁, h₂⟩ := run_bind_eq_some.mp hrun
  cases hp.symm.trans h₁
  exact hf b s' h₂

theorem mark (hf : Leads (f s.built.length) s.settle post) : Leads (mark >>= f) s post := by
  intro b s' hrun
  obtain ⟨n, s₁, h₁, h₂⟩ := run_bind_eq_some.mp hrun
  cases h₁
  exact hf b s' h₂

theorem after (hf : ∀ a s₁, Leads (f a) s₁ post) : Leads (p >>= f) s post := by
  intro b s' hrun
  obtain ⟨a, s₁, -, h₂⟩ := run_bind_eq_some.mp hrun
  exact hf a s₁ b s' h₂

theorem ite {b : Bool} (hp : Leads p s post) (hq : Leads q s post) :
    Leads (if b = true then p else q) s post := by
  cases b with
  | true => exact hp
  | false => exact hq

theorem optBind {p : Parser Unit} {rest : Unit → Parser β} {b : Bool} {mid : State → Prop}
    (hp : Leads p s fun _ => mid) (hs : mid s) (hr : ∀ s₁, mid s₁ → Leads (rest ()) s₁ post) :
    Leads (if b = true then p >>= rest else rest ()) s post :=
  ite (hp.bind fun _ => hr) (hr s hs)

theorem iteBind {p q : Parser Unit} {rest : Unit → Parser β} {b : Bool} {mid : State → Prop}
    (hp : Leads p s fun _ => mid) (hq : Leads q s fun _ => mid)
    (hr : ∀ s₁, mid s₁ → Leads (rest ()) s₁ post) :
    Leads (if b = true then p >>= rest else q >>= rest) s post :=
  ite (hp.bind fun _ => hr) (hq.bind fun _ => hr)

theorem discard {post : State → Prop} (h : Leads p s fun _ => post) :
    Leads (discard p) s fun _ => post := by
  rw [discard_eq]
  exact h.bind fun _ _ hs => .pure hs

theorem node (h : Leads body s.enter post) :
    Leads (node k body) s fun a s' =>
      ∃ s₁, post a s₁ ∧ s'.built = .node k s₁.built.reverse :: s.built := by
  intro a s' hrun
  rw [node_run, Option.bind_eq_some_iff] at hrun
  obtain ⟨⟨b, s₁⟩, h₁, h₂⟩ := hrun
  cases h₂
  exact ⟨s₁, h _ _ h₁, rfl⟩

theorem node_built (k : Kind) (body : Parser α) (s : State) :
    Leads (Grammar.node k body) s fun _ s' => ∃ ps, s'.built = .node k ps :: s.built := by
  have hbody : Leads body s.enter fun _ _ => True := fun _ _ _ => trivial
  exact hbody.node.imp fun _ _ ⟨_, _, h⟩ => ⟨_, h⟩

theorem repeatUpTo {step : σ → Parser (Bool × σ)} (inv : σ → State → Prop)
    (h : ∀ a s, inv a s → Leads (step a) s fun r => inv r.2) (n : Nat) (hs : inv a s) :
    Leads (repeatUpTo n step a) s inv := by
  induction n generalizing a s with
  | zero => nofun
  | succ n ih =>
    refine (h a s hs).bind ?_
    rintro ⟨more, b⟩ s₁ h₁
    exact ite (ih h₁) (.pure h₁)

theorem loopFrom {step : σ → Parser (Bool × σ)} (inv : σ → State → Prop)
    (h : ∀ a s, inv a s → Leads (step a) s fun r => inv r.2) (hs : inv a s) :
    Leads (loopFrom a step) s inv :=
  read (upcoming_run s) (repeatUpTo inv h _ hs)

theorem loop {step : Parser Bool} (inv : State → Prop)
    (h : ∀ s, inv s → Leads step s fun _ => inv) (hs : inv s) :
    Leads (loop step) s fun _ => inv :=
  loopFrom (fun _ => inv) (fun _ s hs => (h s hs).bind fun _ _ h₁ => .pure h₁) hs

end Leads

theorem advance_leads (s : State) :
    Leads advance s fun _ s' => s'.built = .gap :: s.built ∨ s'.built = .word :: s.built := by
  intro _ s' hrun
  obtain ⟨ahead, taken, settled, built, faults⟩ := s
  cases ahead with
  | nil =>
    cases hrun
    exact .inl rfl
  | cons w ws =>
    cases hrun
    exact .inr rfl

theorem advance_ahead (h : s.ahead ≠ []) :
    Leads advance s fun _ s' => s'.built = .word :: s.built := by
  intro _ s' hrun
  obtain ⟨ahead, taken, settled, built, faults⟩ := s
  cases ahead with
  | nil => exact absurd rfl h
  | cons w ws =>
    cases hrun
    rfl

theorem accept_stays (k : Kind) (s : State) :
    Leads (accept k) s fun taken s' => taken = false → s' = s := by
  obtain ⟨_, _, hrun, -, -, hs⟩ := accept_ends k s
  intro _ _ h
  cases hrun.symm.trans h
  exact hs

theorem accept_leads (k : Kind) (s : State) :
    Leads (accept k) s fun _ s' => s'.built = .word :: s.built ∨ s' = s := by
  refine .read (isAt_run k s) ?_
  split
  · rename_i h
    have hahead : s.ahead ≠ [] := List.ne_nil_of_length_pos (State.length_pos_of_isAt h)
    exact (advance_ahead hahead).bind fun _ _ h₁ => .pure (.inl h₁)
  · exact .pure (.inr rfl)

theorem report_leads (c : Complaint) (s : State) :
    Leads (report c) s fun _ s' => s'.built = s.built := by
  intro _ s' hrun
  cases hrun
  rfl

theorem mark_leads (s : State) :
    Leads mark s fun n s' => n = s.built.length ∧ s'.built = s.built := by
  intro n s' hrun
  cases hrun
  exact ⟨rfl, rfl⟩

theorem wrap_leads (k : Kind) (h : s.built = new ++ old) :
    Leads (wrap k old.length) s fun _ s' => s'.built = .node k new.reverse :: old := by
  intro _ s' hrun
  cases hrun
  simp [h]

/-- The parts of the open node have stayed, and such ones have been added. -/
def State.Gains (such : Outline → Prop) (s s' : State) : Prop :=
  ∃ new, s'.built = new ++ s.built ∧ ∀ o ∈ new, such o

theorem State.Gains.refl (such : Outline → Prop) (s : State) : s.Gains such s := ⟨[], rfl, nofun⟩

theorem State.Gains.trans {s s₁ s₂ : State} (h : s.Gains such s₁) (h' : s₁.Gains such s₂) :
    s.Gains such s₂ := by
  obtain ⟨new, h₁, hnew⟩ := h
  obtain ⟨more, h₂, hmore⟩ := h'
  refine ⟨more ++ new, ?_, List.forall_mem_append.mpr ⟨hmore, hnew⟩⟩
  rw [h₂, h₁, List.append_assoc]

def Adds (such : Outline → Prop) (p : Parser α) : Prop :=
  ∀ s, Leads p s fun _ s' => s.Gains such s'

namespace Adds

variable {such : Outline → Prop}

theorem pure (a : α) : Adds such (Pure.pure a) := fun s => .pure (.refl such s)

theorem bind {p : Parser α} {f : α → Parser β} (hp : Adds such p) (hf : ∀ a, Adds such (f a)) :
    Adds such (p >>= f) :=
  fun s => (hp s).bind fun a s₁ h₁ => (hf a s₁).imp fun _ _ h₂ => h₁.trans h₂

theorem read {p : Parser α} {f : α → Parser β} {a : State → α}
    (hp : ∀ s, p.run s = some (a s, s)) (hf : ∀ a, Adds such (f a)) : Adds such (p >>= f) :=
  fun s => .read (hp s) (hf _ s)

theorem ite {p q : Parser α} {b : Bool} (hp : Adds such p) (hq : Adds such q) :
    Adds such (if b = true then p else q) :=
  fun s => .ite (hp s) (hq s)

theorem advance (h : such .word) (hg : such .gap) : Adds such advance := by
  refine fun s => (advance_leads s).imp ?_
  rintro _ s' (hs | hs)
  · exact ⟨[.gap], hs, List.forall_mem_singleton.mpr hg⟩
  · exact ⟨[.word], hs, List.forall_mem_singleton.mpr h⟩

theorem advanceBy (h : such .word) (hg : such .gap) (n : Nat) : Adds such (advanceBy n) := by
  induction n with
  | zero => exact .pure ()
  | succ n ih => exact .bind (.advance h hg) fun _ => ih

theorem accept (h : such .word) (k : Kind) : Adds such (accept k) := by
  refine fun s => (accept_leads k s).imp ?_
  rintro _ s' (hs | rfl)
  · exact ⟨[.word], hs, List.forall_mem_singleton.mpr h⟩
  · exact .refl such s'

theorem discard {p : Parser α} (h : Adds such p) : Adds such (discard p) := by
  rw [discard_eq]
  exact bind h fun _ => pure ()

theorem optBind {p : Parser Unit} {rest : Unit → Parser β} {b : Bool} (hp : Adds such p)
    (hr : ∀ u, Adds such (rest u)) : Adds such (if b = true then p >>= rest else rest ()) :=
  ite (bind hp hr) (hr ())

theorem iteBind {p q : Parser α} {rest : α → Parser β} {b : Bool} (hp : Adds such p)
    (hq : Adds such q) (hr : ∀ a, Adds such (rest a)) :
    Adds such (if b = true then p >>= rest else q >>= rest) :=
  ite (bind hp hr) (bind hq hr)

theorem report (c : Complaint) : Adds such (report c) :=
  fun s => (report_leads c s).imp fun _ _ hs => ⟨[], hs, nofun⟩

theorem expect (h : such .word) (k : Kind) : Adds such (expect k) :=
  .bind (.accept h k) fun _ => .ite (.pure _) (.bind (.report _) fun _ => .pure _)

theorem node {k : Kind} (h : ∀ ps, such (.node k ps)) (body : Parser α) :
    Adds such (node k body) := by
  refine fun s => (Leads.node_built k body s).imp ?_
  rintro _ s' ⟨ps, hs⟩
  exact ⟨[.node k ps], hs, List.forall_mem_singleton.mpr (h ps)⟩

theorem loop {step : Parser Bool} (h : Adds such step) : Adds such (loop step) :=
  fun s => .loop (s.Gains such) (fun s₁ hs => (h s₁).imp fun _ _ h₁ => hs.trans h₁) (.refl such s)

end Adds

end CppRefactor.Grammar
