import CppRefactor.Proofs.Grammar.Rules

/-!
Faults. A parser reports them about the word ahead, so they come in the order of the words; and it
skips words only behind a report, so that without faults there is no node of skipped words.
-/

namespace CppRefactor

theorem Kind.ne_error_of_isFormed {k : Kind} (h : k.isFormed = false) : k ≠ .error := by
  rintro rfl
  cases h

namespace Outline

/-- No words were skipped. -/
inductive Sound : Outline → Prop
  | word : Sound .word
  | gap : Sound .gap
  | node {k : Kind} {ps : List Outline} : k ≠ .error → (∀ p ∈ ps, Sound p) → Sound (.node k ps)

end Outline

namespace Grammar

/-- The faults are about words up to the next one, in the order of the words. -/
def State.InOrder (s : State) : Prop := (s.taken :: s.faults.map (·.words)).Pairwise (· ≥ ·)

def State.Sound (s : State) : Prop := ∀ p ∈ s.built, p.Sound

/-- From `s` to `s'` faults are added in order, one at least if words are skipped. -/
structure Reports (s s' : State) : Prop where
  inOrder : s.InOrder → s'.InOrder
  sound : s'.faults = [] → s.faults = [] ∧ (s.Sound → s'.Sound)

theorem Reports.refl (s : State) : Reports s s := ⟨id, fun h => ⟨h, id⟩⟩

theorem Reports.trans (h : Reports s s₁) (h' : Reports s₁ s₂) : Reports s s₂ := by
  refine ⟨fun hs => h'.inOrder (h.inOrder hs), fun hnone => ?_⟩
  obtain ⟨hnone₁, h₂⟩ := h'.sound hnone
  obtain ⟨hnone₀, h₁⟩ := h.sound hnone₁
  exact ⟨hnone₀, fun hs => h₂ (h₁ hs)⟩

theorem Reports.of_built {s s' : State} (ht : s.taken ≤ s'.taken) (hf : s'.faults = s.faults)
    (hb : s.Sound → s'.Sound) : Reports s s' := by
  refine ⟨fun hs => ?_, fun hnone => ⟨hf ▸ hnone, hb⟩⟩
  obtain ⟨hbefore, hfaults⟩ := List.pairwise_cons.mp hs
  rw [State.InOrder, hf]
  exact List.pairwise_cons.mpr ⟨fun n hn => Nat.le_trans (hbefore n hn) ht, hfaults⟩

/-- However the parser ends. -/
def Reporting (p : Parser α) : Prop := ∀ s, Leads p s fun _ => Reports s

namespace Reporting

theorem pure (a : α) : Reporting (Pure.pure a : Parser α) := fun s => .pure (.refl s)

theorem bind {p : Parser α} {f : α → Parser β} (hp : Reporting p) (hf : ∀ a, Reporting (f a)) :
    Reporting (p >>= f) :=
  fun s => (hp s).bind fun a s₁ h₁ => (hf a s₁).imp fun _ _ => h₁.trans

theorem look {f : List Word → Parser α} (hf : ∀ ws, Reporting (f ws)) :
    Reporting (upcoming >>= f) :=
  fun s => .read (upcoming_run s) (hf _ s)

theorem advance : Reporting advance := by
  intro s _ s' hrun
  obtain ⟨ahead, taken, settled, built, faults⟩ := s
  cases ahead with
  | nil =>
    cases hrun
    exact .of_built (Nat.le_refl taken) rfl fun hs => List.forall_mem_cons.mpr ⟨.gap, hs⟩
  | cons w ws =>
    cases hrun
    exact .of_built (Nat.le_succ taken) rfl fun hs => List.forall_mem_cons.mpr ⟨.word, hs⟩

theorem report (c : Complaint) : Reporting (report c) := by
  intro s _ s' hrun
  cases hrun
  refine ⟨fun hs => ?_, nofun⟩
  have hbefore := (List.pairwise_cons.mp hs).1
  exact List.pairwise_cons.mpr ⟨List.forall_mem_cons.mpr ⟨Nat.le_refl _, hbefore⟩, hs⟩

theorem node_run {body : Parser α} (hb : Reporting body) (hk : k ≠ .error ∨ s.faults ≠ []) :
    Leads (node k body) s fun _ => Reports s := by
  intro a s' hrun
  rw [Grammar.node_run, Option.bind_eq_some_iff] at hrun
  obtain ⟨⟨b, s₁⟩, h₁, h₂⟩ := hrun
  cases h₂
  obtain ⟨hinOrder, hsound⟩ := hb s.enter _ _ h₁
  refine ⟨hinOrder, fun hnone => ?_⟩
  obtain ⟨hnone₀, hinside⟩ := hsound hnone
  refine ⟨hnone₀, fun hs => List.forall_mem_cons.mpr ⟨.node ?_ fun p hp => ?_, hs⟩⟩
  · exact hk.resolve_right fun h => h hnone₀
  · exact hinside nofun p (List.mem_reverse.mp hp)

theorem node {body : Parser α} (hk : k ≠ .error) (hb : Reporting body) :
    Reporting (node k body) :=
  fun _ => hb.node_run (.inl hk)

theorem ifAhead {p : Parser α} (hp : Reporting p) : Reporting (ifAhead p) := by
  intro s a s' hrun
  rw [ifAhead_run] at hrun
  split at hrun
  · cases hrun
  · exact hp s a s' hrun

theorem mark : Reporting mark := by
  intro s _ s' hrun
  cases hrun
  exact .of_built (Nat.le_refl _) rfl id

theorem wrap (since : Nat) (hk : k ≠ .error) : Reporting (wrap k since) := by
  intro s _ s' hrun
  cases hrun
  refine .of_built (Nat.le_refl _) rfl fun hs => List.forall_mem_cons.mpr ⟨.node hk ?_, ?_⟩
  · exact fun p hp => hs p (List.mem_of_mem_take (List.mem_reverse.mp hp))
  · exact fun p hp => hs p (List.mem_of_mem_drop hp)

theorem advanceBy (n : Nat) : Reporting (advanceBy n) := by
  induction n with
  | zero => exact .pure ()
  | succ n ih => exact .bind .advance fun _ => ih

theorem recover (c : Complaint) (stops : List Kind) : Reporting (recover c stops) := by
  have hreported (s : State) : Leads (Grammar.report c) s fun _ s₁ => s₁.faults ≠ [] := by
    intro _ s₁ hrun
    cases hrun
    exact List.cons_ne_nil _ _
  have hskip : Reporting (do
      let n := (← upcoming).findIdx fun w => stops.contains w.kind
      Grammar.advanceBy (max n 1)) :=
    .look fun _ => .advanceBy _
  intro s
  refine ((report c s).and (hreported s)).bind fun _ s₁ ⟨h₁, hs₁⟩ => ?_
  exact (hskip.node_run (.inr hs₁)).imp fun _ _ => h₁.trans

theorem progress : Reporting progress := by
  intro s _ s' hrun
  cases (progress_run s).symm.trans hrun
  exact .refl s

end Reporting

def reporting : Judgement where
  Holds := Reporting
  pure := .pure
  bind := .bind
  look _ := .look
  cutOff _ := nofun
  advance := .advance
  report := .report
  node hk := .node (Kind.ne_error_of_isFormed hk)
  headed hk hr _ := .ifAhead (.node (by rintro rfl; cases hk) (.bind .advance hr))
  plain hk hb _ := .node (by rintro rfl; cases hk) hb
  enclosed hk _ _ := .node (by rintro rfl; cases hk)
  mark := .mark
  wrap since hk := .wrap since (Kind.ne_error_of_isFormed hk)
  recover := .recover

theorem sourceFile_reports (s : State) : Leads sourceFile s fun _ => Reports s :=
  sourceFile_holds (J := reporting)
    (runRule_holds (J := reporting) .progress fun _ since hk _ => .wrap since hk) s

end Grammar

end CppRefactor
