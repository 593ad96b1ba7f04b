import CppRefactor.Proofs.Syntax.Bare

/-!
What becomes of a file with an unmatched closing brace. The declarations before it are read as ever;
all words from the brace on are skipped, so that nothing behind it is declared.
-/

namespace CppRefactor

namespace Grammar

namespace State

/-- Behind the next `n` words. -/
def advanced (s : State) (n : Nat) : State :=
  ⟨s.ahead.drop n, s.taken + n, n == 0 && s.settled, List.replicate n .word ++ s.built, s.faults⟩

/-- Behind all words, which stand in a node of their own. -/
def skipped (s : State) (c : Complaint) : State :=
  ⟨[], s.taken + s.ahead.length, false,
    .node .error (List.replicate s.ahead.length .word) :: s.built, ⟨c, s.taken⟩ :: s.faults⟩

/-- The end of a file, where its declarations end in the state. -/
def finished (s : State) : State := if s.atEnd = true then s else s.skipped .unmatchedBrace

theorem not_isFree_of_atEnd {s : State} (h : s.atEnd = true) : s.isFree = false := by
  rw [isFree, List.isEmpty_iff.mp h]
  rfl

theorem not_isFree_of_isAt {s : State} (h : s.isAt .rBrace = true) : s.isFree = false := by
  cases hs : s.ahead with
  | nil => simp [isFree, hs]
  | cons w ws => simp_all [isFree, isAt, isAtAny]

theorem atEnd_or_isAt {s : State} (h : s.isFree = false) :
    s.ahead = [] ∨ s.isAt .rBrace = true := by
  cases hs : s.ahead with
  | nil => exact .inl rfl
  | cons w ws => simp_all [isFree, isAt, isAtAny]

end State

theorem advanceBy_run {n : Nat} (h : n ≤ s.ahead.length) :
    (advanceBy n).run s = some ((), s.advanced n) := by
  induction n generalizing s with
  | zero =>
    obtain ⟨ahead, taken, settled, built, faults⟩ := s
    rfl
  | succ n ih =>
    obtain ⟨ahead, taken, settled, built, faults⟩ := s
    cases ahead with
    | nil => cases h
    | cons w ws =>
      refine (ih (s := ⟨ws, taken + 1, false, .word :: built, faults⟩)
        (Nat.le_of_succ_le_succ h)).trans ?_
      simp only [State.advanced, List.drop_succ_cons, Nat.add_assoc, Nat.add_comm 1,
        Bool.and_false, List.replicate_succ', List.append_assoc, List.singleton_append]
      rfl

theorem recover_run {s : State} (c : Complaint) (h : s.atEnd = false) :
    (recover c []).run s = some ((), s.skipped c) := by
  have hlength := State.length_pos_of_not_atEnd h
  have hall : s.ahead.findIdx (fun w => ([] : List Kind).contains w.kind) = s.ahead.length :=
    List.findIdx_eq_length_of_false fun _ _ => rfl
  let inside : State := ⟨s.ahead, s.taken, true, [], ⟨c, s.taken⟩ :: s.faults⟩
  have hskip : (advanceBy (max (s.ahead.findIdx fun w => ([] : List Kind).contains w.kind) 1)).run
      inside = some ((), inside.advanced s.ahead.length) := by
    rw [hall, Nat.max_eq_left hlength]
    exact advanceBy_run (Nat.le_refl _)
  change ((advanceBy _).run inside).bind _ = _
  rw [hskip]
  simp only [State.advanced, State.skipped, inside, List.drop_length, List.append_nil,
    beq_eq_false_iff_ne.mpr (Nat.ne_of_gt hlength)]
  change some ((), State.mk _ _ _ (.node .error (List.reverse _) :: _) _) = _
  rw [List.reverse_replicate]
  rfl

/-- Declarations are read one behind the other, up to the end or to a closing brace. -/
inductive Declares (depth : Nat) : State → State → Prop
  | stop : s.isFree = false → Declares depth s s
  | step : s.isFree = true → (runRule depth (.declaration .scope)).run s = some ((), s₁) →
      Declares depth s₁ s' → Declares depth s s'

theorem Declares.stops (h : Declares depth s s') : s'.isFree = false := by
  induction h with
  | stop h => exact h
  | step _ _ _ ih => exact ih

theorem Declares.eq_of_stops (h : Declares depth s s') (hs : s.isFree = false) : s' = s := by
  cases h with
  | stop => rfl
  | step hfree => exact absurd (hfree.symm.trans hs) Bool.noConfusion

/-- What is repeated in a file. -/
def fileStep (depth : Nat) : Parser Bool := do
  if ← atEnd then return false
  if ← isAt .rBrace then recover .unmatchedBrace []
  else runRule depth (.declaration .scope)
  return true

theorem fileStep_atEnd {s : State} (depth : Nat) (h : s.atEnd = true) :
    (fileStep depth).run s = some (false, s) := by
  simp [fileStep, atEnd_run, h]

theorem fileStep_atBrace {s : State} (depth : Nat) (h : s.atEnd = false)
    (hb : s.isAt .rBrace = true) :
    (fileStep depth).run s = some (true, s.skipped .unmatchedBrace) := by
  simp [fileStep, atEnd_run, isAt_run, recover_run, h, hb]

theorem fileStep_declares {s : State} (depth : Nat) (h : s.atEnd = false)
    (hb : s.isAt .rBrace = false) :
    (fileStep depth).run s =
      ((runRule depth (.declaration .scope)).run s).map fun r => (true, r.2) := by
  simp [fileStep, atEnd_run, isAt_run, h, hb]

/-- The repetition reads declarations up to a stop, where all words are skipped that are left. -/
theorem repeatUpTo_declares {depth n : Nat} {s s' : State}
    (h : (repeatUpTo n (fun _ => do return (← fileStep depth, ())) ()).run s = some ((), s')) :
    ∃ s₁, Declares depth s s₁ ∧ s' = s₁.finished := by
  induction n generalizing s with
  | zero => cases h
  | succ n ih =>
    obtain ⟨⟨more, _⟩, s₂, h₁, h⟩ := run_bind_eq_some.mp h
    obtain ⟨_, _, h₁, he⟩ := run_bind_eq_some.mp h₁
    cases he
    cases hend : s.atEnd with
    | true =>
      cases (fileStep_atEnd depth hend).symm.trans h₁
      cases h
      exact ⟨_, .stop (State.not_isFree_of_atEnd hend), (if_pos hend).symm⟩
    | false =>
      cases hbrace : s.isAt .rBrace with
      | true =>
        cases (fileStep_atBrace depth hend hbrace).symm.trans h₁
        obtain ⟨s₁, hs₁, rfl⟩ := ih h
        cases hs₁.eq_of_stops rfl
        refine ⟨s, .stop (State.not_isFree_of_isAt hbrace), ?_⟩
        exact (if_pos rfl).trans (if_neg (Bool.eq_false_iff.mp hend)).symm
      | false =>
        obtain ⟨⟨_, s₃⟩, hrule, he⟩ :=
          Option.map_eq_some_iff.mp ((fileStep_declares depth hend hbrace).symm.trans h₁)
        cases he
        obtain ⟨s₁, hs₁, rfl⟩ := ih h
        exact ⟨s₁, .step (State.isFree_of_not_isAt hend hbrace) hrule hs₁, rfl⟩

theorem Declares.takes (h : Declares depth s s') (hd : 2 * s.ahead.length < depth) :
    Takes 0 s s' := by
  induction h with
  | stop => exact .refl _
  | step _ hrun _ ih =>
    obtain ⟨_, s₁, hrun', ht⟩ := runRule_takes (.declaration .scope) hd
    cases hrun.symm.trans hrun'
    have hle := ht.suffix.length_le
    exact ht.any.then (ih (by omega))

/-- A file is read as declarations up to a stop, and what is left is skipped. -/
theorem sourceFile_declares (s : State) : ∃ s₁,
    Declares (depthFor s.ahead.length) s s₁ ∧ sourceFile.run s = some ((), s₁.finished) := by
  obtain ⟨_, s', hrun, -⟩ := sourceFile_takes s
  obtain ⟨s₁, hs₁, rfl⟩ := repeatUpTo_declares hrun
  exact ⟨s₁, hs₁, hrun⟩

theorem Takes.ahead_bare (h : Takes 0 (.start (wordsOf .none tokens)) s) :
    s.ahead.map Word.bare =
      ((tokens.filter (!·.isTrivia)).drop (Outline.wordsOf s.built)).map Token.bare := by
  obtain ⟨parts, hbuilt, hwords⟩ := h.built
  have hdrop := List.suffix_iff_eq_drop.mp h.suffix
  simp only [State.start, List.append_nil] at hbuilt hwords hdrop
  rw [List.map_drop, ← wordsOf_bare .none, ← List.map_drop, hbuilt, Nat.eq_sub_of_add_eq hwords,
    ← hdrop]

end Grammar

namespace Outline

theorem weaveAll_replicate_bare (n : Nat) (f : Feed) :
    Tree.bareAll (weaveAll (List.replicate n .word) f).1 = (f.words.take n).map Token.bare := by
  induction n generalizing f with
  | zero => rfl
  | succ n ih =>
    simp only [List.replicate_succ, weaveAll, weave, Tree.bareAll_append, Feed.trivia_bare, ih,
      Feed.next_bare, Feed.next_words, List.nil_append, ← List.map_append]
    rw [Nat.add_comm, List.take_add]

theorem weave_error_bare (n : Nat) (f : Feed) :
    Tree.bareAll (weaveAll [.node .error (List.replicate n .word)] f).1 =
      [.node .error ((f.words.take n).map Token.bare)] := by
  simp only [weaveAll, weave, Tree.bareAll_append, Feed.trivia_bare, Tree.bareAll_cons, Tree.bare,
    Tree.bareAll_nil, weaveAll_replicate_bare, Feed.trivia_words, List.nil_append, List.append_nil]

end Outline

/-- The parts of the tree of a file, without trivia. -/
def itemsOf (text : String) : List Bare := Tree.bareAll (parse text).tree.parts

/-- The items of a file are what is declared up to the end or up to a closing brace without an
opening one. Such a brace is complained of last, and all words from it on are one item, an error:
nothing behind it is declared. -/
theorem items_up_to_brace (text : String) :
    let words := Grammar.wordsOf .none (tokenize text)
    ∃ s, Grammar.Declares (Grammar.depthFor words.length) (.start words) s ∧ s.ahead <:+ words ∧
      (s.ahead = [] ∨ s.isAt .rBrace = true) ∧
      itemsOf text = Tree.bareAll (Outline.weaveAll s.built.reverse ⟨0, tokenize text⟩).1 ++
        (if s.ahead = [] then [] else [.node .error (s.ahead.map Grammar.Word.bare)]) ∧
      (parse text).errors.map (·.complaint) = s.faults.reverse.map (·.complaint) ++
        if s.ahead = [] then [] else [.unmatchedBrace] := by
  intro words
  obtain ⟨s, hs, hrun⟩ := Grammar.sourceFile_declares (.start words)
  have ht := hs.takes (by simp only [Grammar.depthFor]; omega)
  obtain ⟨s', hreads⟩ := Grammar.exists_reads (tokenize text)
  cases hreads.run.symm.trans hrun
  have hbare : itemsOf text =
      Tree.bareAll (Outline.weaveAll s.finished.built.reverse ⟨0, tokenize text⟩).1 := by
    have hroot := parseTokens_bare hreads
    rw [parseTokens_tree hreads] at hroot
    rw [itemsOf, parse, parseTokens_tree hreads]
    exact (Bare.node.inj (List.cons.inj hroot).1).2
  have herrors : (parse text).errors.map (·.complaint) =
      s.finished.faults.reverse.map (·.complaint) := by
    simp [parse, parseTokens, Grammar.outline, hreads.run, Function.comp_def]
  refine ⟨s, hs, ht.suffix, Grammar.State.atEnd_or_isAt hs.stops, ?_⟩
  by_cases hend : s.ahead = []
  · have hfinished : s.finished = s := if_pos (List.isEmpty_iff.mpr hend)
    rw [hbare, herrors, hfinished, if_pos hend, if_pos hend, List.append_nil, List.append_nil]
    exact ⟨rfl, rfl⟩
  · have hfinished : s.finished = s.skipped .unmatchedBrace :=
      if_neg fun h => hend (List.isEmpty_iff.mp h)
    rw [hbare, herrors, hfinished, if_neg hend, if_neg hend]
    simp only [Grammar.State.skipped, List.reverse_cons, List.map_append]
    refine ⟨?_, rfl⟩
    rw [Outline.weaveAll_append, Tree.bareAll_append, Outline.weave_error_bare,
      Outline.weaveAll_words, Outline.wordsOf_reverse]
    have hahead := ht.ahead_bare
    have hlength := congrArg List.length hahead
    simp only [List.length_map] at hlength
    rw [hahead, Outline.Feed.words, List.take_of_length_le (Nat.le_of_eq hlength.symm)]

/-- The items of two files, with a closing brace between them, are not theirs with an error between
them: what is declared in the second file is lost. -/
theorem items_behind_brace_lost :
    (parse "int a;").ok = true ∧ (parse "int b;").ok = true ∧
      itemsOf ("int a;" ++ "\n\x7d\n" ++ "int b;") = itemsOf "int a;" ++ [.node .error
        [.word .rBrace "\x7d", .word .intKw "int", .word .ident "b", .word .semicolon ";"]] ∧
      itemsOf ("int a;" ++ "\n\x7d\n" ++ "int b;") ≠
        itemsOf "int a;" ++ .node .error [.word .rBrace "\x7d"] :: itemsOf "int b;" := by
  decide +kernel

end CppRefactor
