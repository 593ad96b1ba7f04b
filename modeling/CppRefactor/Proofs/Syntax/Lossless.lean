import CppRefactor.Proofs.Grammar.SourceFile
import CppRefactor.Proofs.Syntax.Tokens

/-!
Parsing loses nothing: the leaves of the tree of a text are the tokens of the text.
-/

namespace CppRefactor

namespace Outline

theorem Feed.trivia_leaves (f : Feed) :
    f.trivia.1.flatMap Tree.leaves ++ f.trivia.2.tokens = f.tokens := by
  simp [trivia, List.flatMap_map]

theorem Feed.next_leaves (f : Feed) :
    f.next.1.flatMap Tree.leaves ++ f.next.2.tokens = f.tokens := by
  unfold next
  split <;> simp_all

mutual

theorem weave_leaves (p : Outline) (f : Feed) :
    (weave p f).1.flatMap Tree.leaves ++ (weave p f).2.tokens = f.tokens := by
  cases p with
  | word => exact f.next_leaves
  | gap => rfl
  | node k ps =>
    have h := weaveAll_leaves ps f
    simpa [weave] using h

theorem weaveAll_leaves (ps : List Outline) (f : Feed) :
    (weaveAll ps f).1.flatMap Tree.leaves ++ (weaveAll ps f).2.tokens = f.tokens := by
  cases ps with
  | nil => simp [weaveAll]
  | cons p ps =>
    have h₁ := f.trivia_leaves
    have h₂ := weave_leaves p f.trivia.2
    have h₃ := weaveAll_leaves ps (weave p f.trivia.2).2
    simp only [weaveAll, List.flatMap_append, List.append_assoc]
    rw [h₃, h₂, h₁]

end

theorem weaveAll_append (ps qs : List Outline) (f : Feed) :
    weaveAll (ps ++ qs) f =
      ((weaveAll ps f).1 ++ (weaveAll qs (weaveAll ps f).2).1,
        (weaveAll qs (weaveAll ps f).2).2) := by
  induction ps generalizing f with
  | nil => rfl
  | cons p ps ih => simp only [List.cons_append, weaveAll, ih, List.append_assoc]

/-- The tokens of a feed that are not trivia. -/
def Feed.words (f : Feed) : List Token := f.tokens.filter (!·.isTrivia)

theorem Feed.trivia_words (f : Feed) : f.trivia.2.words = f.words := by
  obtain ⟨offset, tokens⟩ := f
  simp only [trivia, words]
  induction tokens with
  | nil => rfl
  | cons t ts ih => by_cases ht : t.isTrivia = true <;> simp_all

theorem Feed.trivia_tokens (f : Feed) :
    f.trivia.2.tokens = [] ∨ ∃ w ts, f.trivia.2.tokens = w :: ts ∧ w.isTrivia = false := by
  cases h : f.trivia.2.tokens with
  | nil => exact .inl rfl
  | cons w ts =>
    have hdrop : f.tokens.dropWhile (·.isTrivia) = w :: ts := h
    have hword := List.head_dropWhile_not (·.isTrivia) (l := f.tokens) (by simp [hdrop])
    exact .inr ⟨w, ts, rfl, by simpa [hdrop] using hword⟩

theorem Feed.rest_of_trivia (f : Feed) (h : f.trivia.2.tokens = []) : f.rest = f.trivia := by
  have hall : f.tokens.takeWhile (·.isTrivia) = f.tokens := by
    have := List.takeWhile_append_dropWhile (p := (·.isTrivia)) (l := f.tokens)
    rwa [show f.tokens.dropWhile (·.isTrivia) = [] from h, List.append_nil] at this
  have hnone : f.tokens.dropWhile (·.isTrivia) = [] := h
  simp [rest, trivia, hall, hnone]

theorem Feed.next_words (f : Feed) : f.trivia.2.next.2.words = f.words.drop 1 := by
  rw [← f.trivia_words]
  -- Not `f.next_leaves`: which token is taken matters, not only that it is the first.
  rcases f.trivia_tokens with h | ⟨w, ts, h, hw⟩
  · simp [next, words, h]
  · simp [next, words, h, hw]

theorem Feed.next_trees (f : Feed) : f.trivia.2.next.1 = (f.words.take 1).map .token := by
  rw [← f.trivia_words]
  rcases f.trivia_tokens with h | ⟨w, ts, h, hw⟩
  · simp [next, words, h]
  · simp [next, words, h, hw]

theorem Feed.trivia_trivia (f : Feed) : f.trivia.2.trivia = ([], f.trivia.2) := by
  rcases h : f.trivia.2 with ⟨offset, tokens⟩
  have htokens := f.trivia_tokens
  rw [h] at htokens
  rcases htokens with rfl | ⟨w, ts, rfl, hw⟩
  · rfl
  · simp [trivia, advance, hw]

theorem Feed.trivia_of_nil {f : Feed} (h : f.trivia.1 = []) : f.trivia = ([], f) := by
  obtain ⟨offset, tokens⟩ := f
  have htake : tokens.takeWhile (·.isTrivia) = [] := List.map_eq_nil_iff.mp h
  have hdrop := List.takeWhile_append_dropWhile (p := (·.isTrivia)) (l := tokens)
  rw [htake, List.nil_append] at hdrop
  simp [trivia, htake, hdrop, advance]

mutual

theorem weave_words (p : Outline) (f : Feed) :
    (weave p f.trivia.2).2.words = f.words.drop p.words := by
  cases p with
  | word => exact f.next_words
  | gap => simp [weave, f.trivia_words]
  | node k ps =>
    have h := weaveAll_words ps f.trivia.2
    rw [f.trivia_words] at h
    exact h

theorem weaveAll_words (ps : List Outline) (f : Feed) :
    (weaveAll ps f).2.words = f.words.drop (wordsOf ps) := by
  cases ps with
  | nil => rfl
  | cons p ps =>
    have h₁ := weave_words p f
    have h₂ := weaveAll_words ps (weave p f.trivia.2).2
    rw [h₁, List.drop_drop] at h₂
    exact h₂

end

theorem weaveRoot_leaves (kind : Kind) (parts : List Outline) (tokens : List Token) :
    (weaveRoot kind parts tokens).leaves = tokens := by
  have h := weaveAll_leaves parts ⟨0, tokens⟩
  simpa [weaveRoot, Feed.rest, List.flatMap_map] using h

end Outline

namespace Grammar

theorem length_wordsOf (gap : Gap) (tokens : List Token) :
    (wordsOf gap tokens).length = (tokens.filter (!·.isTrivia)).length := by
  induction tokens generalizing gap with
  | nil => rfl
  | cons t ts ih => by_cases ht : t.isTrivia = true <;> simp [wordsOf, ht, ih]

/-- The grammar runs over tokens and ends in `s`: each word was taken, each is one leaf of what was
built, and trivia is all that is left for the root. -/
structure Reads (tokens : List Token) (s : State) : Prop where
  run : sourceFile.run (.start (wordsOf .none tokens)) = some ((), s)
  ahead : s.ahead = []
  taken : s.taken = (wordsOf .none tokens).length
  built : Outline.wordsOf s.built = s.taken
  rest : ∀ t ∈ (Outline.weaveAll s.built.reverse ⟨0, tokens⟩).2.tokens, t.isTrivia = true

theorem exists_reads (tokens : List Token) : ∃ s, Reads tokens s := by
  obtain ⟨_, s, hrun, ht, ha⟩ := sourceFile_takes (.start (wordsOf .none tokens))
  obtain ⟨parts, hb, hw⟩ := ht.built
  have htaken : s.taken = (wordsOf .none tokens).length := by
    have := ht.taken
    simpa [ha, State.start] using this
  have hbuilt : Outline.wordsOf s.built = s.taken := by
    rw [hb, htaken, State.start, List.append_nil]
    simpa [ha, State.start] using hw
  refine ⟨s, hrun, ha, htaken, hbuilt, ?_⟩
  have hrest := Outline.weaveAll_words s.built.reverse ⟨0, tokens⟩
  rw [Outline.wordsOf_reverse, hbuilt, htaken, length_wordsOf, Outline.Feed.words,
    Outline.Feed.words, List.drop_length] at hrest
  simpa using hrest

end Grammar

theorem parseTokens_tree (h : Grammar.Reads tokens s) :
    (parseTokens tokens).tree = Outline.weaveRoot .sourceFile s.built.reverse tokens := by
  simp only [parseTokens, Grammar.outline, h.run]

theorem parseTokens_leaves (tokens : List Token) : (parseTokens tokens).tree.leaves = tokens :=
  Outline.weaveRoot_leaves _ _ tokens

/-- The tokens of a text follow each other and spell it; the grammar takes each of them once, and
they are the leaves of the tree. -/
theorem parse_lossless (text : String) :
    Consecutive 0 (tokenize text) ∧ String.join ((tokenize text).map (·.text)) = text ∧
    (∃ s, Grammar.Reads (tokenize text) s ∧
      (parse text).tree = Outline.weaveRoot .sourceFile s.built.reverse (tokenize text)) ∧
    (parse text).tree.leaves = tokenize text ∧ (parse text).tree.text = text := by
  obtain ⟨s, hs⟩ := Grammar.exists_reads (tokenize text)
  have hl := parseTokens_leaves (tokenize text)
  refine ⟨tokenize_consecutive text, tokenize_spells text, ⟨s, hs, parseTokens_tree hs⟩, hl, ?_⟩
  rw [Tree.text, parse, hl]
  exact tokenize_spells text

end CppRefactor
