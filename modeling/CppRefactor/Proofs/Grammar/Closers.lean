import CppRefactor.Proofs.Grammar.Rules

/-!
What ends the nodes between brackets. A parser takes the words ahead one by one, so that each
outline stands for certain words, and without a fault the last of those of such a node is its
closer.
-/

namespace CppRefactor

namespace Kind

theorem closer?_of_isFormed {k : Kind} (h : k.isFormed = false) : k.closer? = none := by
  rw [← Option.not_isSome_iff_eq_none]
  intro hk
  simp [isFormed, hk] at h

theorem closer?_of_isHeaded {k : Kind} (h : k.isHeaded = true) : k.closer? = none := by
  unfold isHeaded at h
  split at h <;> first | rfl | cases h

theorem closer?_of_isPlain {k : Kind} (h : k.isPlain = true) : k.closer? = none := by
  unfold isPlain at h
  split at h <;> first | rfl | cases h

end Kind

namespace Outline

mutual

/-- Every node in the outline that has a closer begins with a word and ends with the closer, where
the words from its first one on are of these kinds. -/
def Closed (kinds : List Kind) : Outline → Prop
  | word | gap => True
  | node k ps =>
    (∀ closer ∈ k.closer?, kinds[wordsOf ps - 1]? = some closer ∧
      ∃ inside, ps = .word :: (inside ++ [.word])) ∧ ClosedAll kinds ps

def ClosedAll (kinds : List Kind) : List Outline → Prop
  | [] => True
  | p :: ps => Closed kinds p ∧ ClosedAll (kinds.drop p.words) ps

end

mutual

theorem Closed.append (p : Outline) (h : Closed kinds p) (more : List Kind) :
    Closed (kinds ++ more) p := by
  cases p with
  | word | gap => trivial
  | node k ps =>
    obtain ⟨hcloser, hps⟩ := h
    refine ⟨fun closer hk => ?_, hps.append ps more⟩
    obtain ⟨hlast, hinside⟩ := hcloser closer hk
    exact ⟨List.getElem?_append_left (List.getElem?_eq_some_iff.mp hlast).1 ▸ hlast, hinside⟩

theorem ClosedAll.append (ps : List Outline) (h : ClosedAll kinds ps) (more : List Kind) :
    ClosedAll (kinds ++ more) ps := by
  cases ps with
  | nil => trivial
  | cons p ps =>
    refine ⟨h.1.append p more, ?_⟩
    rw [List.drop_append]
    exact h.2.append ps _

end

theorem closedAll_append {ps qs : List Outline} :
    ClosedAll kinds (ps ++ qs) ↔ ClosedAll kinds ps ∧ ClosedAll (kinds.drop (wordsOf ps)) qs := by
  induction ps generalizing kinds with
  | nil => simp [ClosedAll]
  | cons p ps ih => simp [ClosedAll, ih, and_assoc, List.drop_drop]

end Outline

namespace Grammar

open Outline (Closed ClosedAll)

/-- The open node has taken words of these kinds so far, and what it has built of them is closed. -/
structure State.Stands (kinds : List Kind) (s : State) : Prop where
  length : kinds.length = Outline.wordsOf s.built
  closed : ClosedAll kinds s.built.reverse

/-- From `s` to `s'` words are taken, and without a fault what is built of them is closed. -/
def Closes (s s' : State) : Prop :=
  ∃ taken, s.ahead = taken ++ s'.ahead ∧
    (s'.faults = [] → s.faults = [] ∧
      ∀ kinds, s.Stands kinds → s'.Stands (kinds ++ taken.map Word.kind))

theorem Closes.refl (s : State) : Closes s s :=
  ⟨[], rfl, fun h => ⟨h, fun kinds hs => by simpa using hs⟩⟩

theorem Closes.trans (h : Closes s s₁) (h' : Closes s₁ s₂) : Closes s s₂ := by
  obtain ⟨taken, hahead, hs⟩ := h
  obtain ⟨more, hahead₁, hs₁⟩ := h'
  refine ⟨taken ++ more, by rw [hahead, hahead₁, List.append_assoc], fun hnone => ?_⟩
  obtain ⟨hnone₁, h₂⟩ := hs₁ hnone
  obtain ⟨hnone₀, h₁⟩ := hs hnone₁
  refine ⟨hnone₀, fun kinds hkinds => ?_⟩
  have hstands := h₂ _ (h₁ kinds hkinds)
  rwa [List.append_assoc, ← List.map_append] at hstands

theorem State.Stands.add {s s' : State} {p : Outline} (h : s.Stands kinds)
    (hbuilt : s'.built = p :: s.built) (hwords : more.length = p.words) (hp : p.Closed more) :
    s'.Stands (kinds ++ more) := by
  refine ⟨?_, ?_⟩
  · rw [hbuilt, List.length_append, h.length, hwords, Outline.wordsOf_cons, Nat.add_comm]
  · rw [hbuilt, List.reverse_cons, Outline.closedAll_append, Outline.wordsOf_reverse, ← h.length,
      List.drop_left]
    exact ⟨h.closed.append _ more, hp, trivial⟩

def Closing (p : Parser α) : Prop := ∀ s, Leads p s fun _ => Closes s

namespace Closing

theorem pure (a : α) : Closing (Pure.pure a : Parser α) := fun s => .pure (.refl s)

theorem bind {p : Parser α} {f : α → Parser β} (hp : Closing p) (hf : ∀ a, Closing (f a)) :
    Closing (p >>= f) :=
  fun s => (hp s).bind fun a s₁ h₁ => (hf a s₁).imp fun _ _ => h₁.trans

theorem look {f : List Word → Parser α} (hf : ∀ ws, Closing (f ws)) : Closing (upcoming >>= f) :=
  fun s => .read (upcoming_run s) (hf _ s)

theorem advance : Closing advance := by
  intro s _ s' hrun
  obtain ⟨ahead, taken, settled, built, faults⟩ := s
  cases ahead with
  | nil =>
    cases hrun
    exact ⟨[], rfl, fun hnone => ⟨hnone, fun kinds hs => hs.add rfl rfl trivial⟩⟩
  | cons w ws =>
    cases hrun
    exact ⟨[w], rfl, fun hnone => ⟨hnone, fun kinds hs => hs.add rfl rfl trivial⟩⟩

theorem report (c : Complaint) : Closing (report c) := by
  intro s _ s' hrun
  cases hrun
  exact ⟨[], rfl, nofun⟩

theorem discard {p : Parser α} (h : Closing p) : Closing (discard p) := by
  rw [discard_eq]
  exact h.bind fun _ => .pure ()

theorem accept (k : Kind) : Closing (accept k) :=
  fun s => .read (isAt_run k s) (.ite ((advance.bind fun _ => .pure true) s) (.pure (.refl s)))

theorem expect (k : Kind) : Closing (expect k) :=
  (accept k).bind fun _ s => .ite (.pure (.refl s)) (((report _).bind fun _ => .pure false) s)

theorem advanceBy (n : Nat) : Closing (advanceBy n) := by
  induction n with
  | zero => exact .pure ()
  | succ n ih => exact .bind .advance fun _ => ih

/-- The words taken in a node that has a closer are those of its parts, up to the closer. -/
def EndsWith (closer : Kind) (s s₁ : State) : Prop :=
  ∃ front w inside, s.ahead = front ++ w :: s₁.ahead ∧ w.kind = closer ∧
    s₁.built = .word :: (inside ++ [.word])

theorem node_of {body : Parser α} (hb : Leads body s.enter fun _ s₁ => Closes s.enter s₁ ∧
      (s₁.faults = [] → ∀ closer ∈ k.closer?, EndsWith closer s s₁)) :
    Leads (node k body) s fun _ => Closes s := by
  intro a s' hrun
  rw [node_run, Option.bind_eq_some_iff] at hrun
  obtain ⟨⟨b, s₁⟩, h₁, h₂⟩ := hrun
  cases h₂
  obtain ⟨⟨taken, hahead, hinside⟩, hcloser⟩ := hb _ _ h₁
  refine ⟨taken, hahead, fun hnone => ?_⟩
  obtain ⟨hnone₀, hstands⟩ := hinside hnone
  have hbody : s₁.Stands (taken.map Word.kind) := hstands [] ⟨rfl, trivial⟩
  have hlength : (taken.map Word.kind).length = Outline.wordsOf s₁.built.reverse := by
    rw [hbody.length, Outline.wordsOf_reverse]
  refine ⟨hnone₀, fun kinds hs => hs.add rfl hlength ⟨fun closer hk => ?_, hbody.closed⟩⟩
  obtain ⟨front, w, inside, hfront, rfl, hbuilt⟩ := hcloser hnone closer hk
  have htaken : taken = front ++ [w] := by
    refine (List.append_left_inj s₁.ahead).mp ?_
    rw [← hahead, List.append_assoc]
    exact hfront
  refine ⟨?_, inside.reverse, by rw [hbuilt]; simp⟩
  rw [← hlength, htaken]
  simp

theorem node {body : Parser α} (hk : k.closer? = none) (hb : Closing body) :
    Closing (node k body) :=
  fun s => node_of ((hb s.enter).imp fun _ _ h => ⟨h, fun _ closer hcloser => by
    rw [hk] at hcloser
    cases hcloser⟩)

end Closing

/-- From `s` to `s'` the word is taken. -/
def State.TakesWord (w : Word) (s s' : State) : Prop :=
  s.ahead = w :: s'.ahead ∧ s'.built = .word :: s.built

theorem advance_takes_word (s : State) :
    Leads advance s fun _ s' => s.ahead ≠ [] → ∃ w, s.TakesWord w s' := by
  intro _ s' hrun hne
  obtain ⟨ahead, taken, settled, built, faults⟩ := s
  cases ahead with
  | nil => exact absurd rfl hne
  | cons w ws =>
    cases hrun
    exact ⟨w, rfl, rfl⟩

theorem accept_takes_word (k : Kind) (s : State) :
    Leads (accept k) s fun taken s' => taken = true → ∃ w, w.kind = k ∧ s.TakesWord w s' := by
  refine .read (isAt_run k s) ?_
  cases hat : s.isAt k with
  | false => exact .pure fun h => absurd h Bool.false_ne_true
  | true =>
    have hne : s.ahead ≠ [] := List.ne_nil_of_length_pos (State.length_pos_of_isAt hat)
    refine (advance_takes_word s).bind fun _ s₁ h₁ => .pure fun _ => ?_
    obtain ⟨w, hahead, hbuilt⟩ := h₁ hne
    refine ⟨w, ?_, hahead, hbuilt⟩
    simpa [State.isAt, State.isAtAny, hahead, eq_comm] using hat

theorem expect_takes_word (k : Kind) (s : State) :
    Leads (discard (expect k)) s fun _ s' => s'.faults = [] →
      ∃ w, w.kind = k ∧ s.TakesWord w s' := by
  refine .discard ((accept_takes_word k s).bind fun taken s₁ h₁ => ?_)
  cases taken with
  | true => exact .pure fun _ => h₁ rfl
  | false =>
    intro _ s' hrun
    cases hrun
    exact nofun

theorem enclosed_closing {inside : Parser Unit} (hk : k.closer? = some closer)
    (hi : Closing inside) (ha : Adds (fun _ => True) inside) :
    Closing (node k do advance; inside; discard (expect closer)) := by
  intro s
  have hbody : Closing (do advance; inside; discard (expect closer)) :=
    Closing.advance.bind fun _ => hi.bind fun _ => (Closing.expect closer).discard
  refine Closing.node_of ((hbody s.enter).and ?_)
  refine ((Closing.advance s.enter).and (advance_takes_word s.enter)).bind fun _ s₁ h₁ => ?_
  refine ((hi s₁).and (ha s₁)).bind fun _ s₂ ⟨⟨taken, hahead, _⟩, more, hbuilt, _⟩ => ?_
  refine (expect_takes_word closer s₂).imp fun _ s₃ h₃ hnone closer' hk' => ?_
  cases hk.symm.trans hk'
  obtain ⟨w, hw, hahead₃, hbuilt₃⟩ := h₃ hnone
  obtain ⟨⟨opened, hopened, _⟩, hopener⟩ := h₁
  have hne : s.enter.ahead ≠ [] := by
    rw [hopened, hahead, hahead₃]
    simp
  obtain ⟨opener, hopener, hbuilt₁⟩ := hopener hne
  refine ⟨opener :: taken, w, more, ?_, hw, ?_⟩
  · rw [List.cons_append, ← hahead₃, ← hahead]
    exact hopener
  · rw [hbuilt₃, hbuilt, hbuilt₁]
    rfl

namespace Closing

theorem ifAhead {p : Parser α} (hp : Closing p) : Closing (ifAhead p) := by
  intro s a s' hrun
  rw [ifAhead_run] at hrun
  split at hrun
  · cases hrun
  · exact hp s a s' hrun

theorem mark : Closing mark := by
  intro s _ s' hrun
  cases hrun
  exact ⟨[], rfl, fun hnone => ⟨hnone, fun kinds hs => by simpa using ⟨hs.length, hs.closed⟩⟩⟩

theorem wrap (since : Nat) (hk : k.closer? = none) : Closing (wrap k since) := by
  intro s _ s' hrun
  cases hrun
  refine ⟨[], rfl, fun hnone => ⟨hnone, fun kinds ⟨hlength, hclosed⟩ => ?_⟩⟩
  rw [← List.take_append_drop (s.built.length - since) s.built] at hlength hclosed
  rw [List.reverse_append, Outline.closedAll_append] at hclosed
  rw [List.map_nil, List.append_nil]
  refine ⟨?_, ?_⟩
  · rw [hlength, Outline.wordsOf_append, Outline.wordsOf_cons, Outline.words_node,
      Outline.wordsOf_reverse]
  · rw [List.reverse_cons, Outline.closedAll_append]
    refine ⟨hclosed.1, ⟨fun closer hcloser => ?_, hclosed.2⟩, trivial⟩
    rw [hk] at hcloser
    cases hcloser

theorem recover (c : Complaint) (stops : List Kind) : Closing (recover c stops) :=
  .bind (.report c) fun _ => .node rfl (.look fun _ => .advanceBy _)

theorem progress : Closing progress := by
  intro s _ s' hrun
  cases (progress_run s).symm.trans hrun
  exact .refl s

end Closing

def closing : Judgement where
  Holds := Closing
  pure := .pure
  bind := .bind
  look _ := .look
  cutOff _ := nofun
  advance := .advance
  report := .report
  node hk := .node (Kind.closer?_of_isFormed hk)
  headed hk hr _ := .ifAhead (.node (Kind.closer?_of_isHeaded hk) (.bind .advance hr))
  plain hk hb _ := .node (Kind.closer?_of_isPlain hk) hb
  enclosed hk hi ha _ := enclosed_closing hk hi ha
  mark := .mark
  wrap since hk := .wrap since (Kind.closer?_of_isFormed hk)
  recover := .recover

theorem sourceFile_closes (s : State) : Leads sourceFile s fun _ => Closes s :=
  sourceFile_holds (J := closing)
    (runRule_holds (J := closing) .progress fun _ since _ hk => .wrap since hk) s

end Grammar

end CppRefactor
