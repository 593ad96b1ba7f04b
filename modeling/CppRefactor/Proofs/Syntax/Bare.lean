import CppRefactor.Proofs.Grammar.Blind
import CppRefactor.Proofs.Syntax.Lossless

/-!
Trees without trivia. The tree of a text that parses without errors is, up to trivia, that of every
text with the same words and line breaks between the same ones.
-/

namespace CppRefactor

/-- A tree as far as it is no trivia: tokens without offsets, nodes without spans. -/
inductive Bare
  | word (kind : Kind) (text : String)
  | node (kind : Kind) (parts : List Bare)
  deriving Repr, Inhabited

mutual

def Bare.decEq (a b : Bare) : Decidable (a = b) :=
  match a, b with
  | .word k s, .word k' s' => decidable_of_iff (k = k' ∧ s = s') (by rw [Bare.word.injEq])
  | .node k ps, .node k' qs =>
    have := Bare.decEqAll ps qs
    decidable_of_iff (k = k' ∧ ps = qs) (by rw [Bare.node.injEq])
  | .word .., .node .. => isFalse nofun
  | .node .., .word .. => isFalse nofun

def Bare.decEqAll (ps qs : List Bare) : Decidable (ps = qs) :=
  match ps, qs with
  | [], [] => isTrue rfl
  | p :: ps, q :: qs =>
    have := Bare.decEq p q
    have := Bare.decEqAll ps qs
    decidable_of_iff (p = q ∧ ps = qs) (by rw [List.cons.injEq])
  | [], _ :: _ => isFalse nofun
  | _ :: _, [] => isFalse nofun

end

instance : DecidableEq Bare := Bare.decEq

def Token.bare (t : Token) : Bare := .word t.kind t.text

namespace Tree

mutual

/-- What a tree is without trivia: nothing, for a token of trivia. -/
def bare : Tree → List Bare
  | token t => if t.isTrivia then [] else [t.bare]
  | node k _ ts => [.node k (bareAll ts)]

def bareAll : List Tree → List Bare
  | [] => []
  | t :: ts => bare t ++ bareAll ts

end

@[simp] theorem bareAll_nil : bareAll [] = [] := rfl

@[simp] theorem bareAll_cons (t : Tree) (ts : List Tree) :
    bareAll (t :: ts) = bare t ++ bareAll ts := rfl

@[simp] theorem bareAll_append (ts us : List Tree) :
    bareAll (ts ++ us) = bareAll ts ++ bareAll us := by
  induction ts with
  | nil => rfl
  | cons t ts ih => rw [List.cons_append, bareAll_cons, ih, bareAll_cons, List.append_assoc]

theorem bareAll_trivia {ts : List Token} (h : ∀ t ∈ ts, t.isTrivia = true) :
    bareAll (ts.map .token) = [] := by
  induction ts with
  | nil => rfl
  | cons t ts ih =>
    obtain ⟨ht, hts⟩ := List.forall_mem_cons.mp h
    simp [bare, ht, ih hts]

end Tree

namespace Outline

theorem Feed.trivia_bare (f : Feed) : Tree.bareAll f.trivia.1 = [] :=
  Tree.bareAll_trivia (List.all_eq_true.mp List.all_takeWhile)

theorem Feed.next_bare (f : Feed) :
    Tree.bareAll f.trivia.2.next.1 = (f.words.take 1).map Token.bare := by
  rw [← f.trivia_words]
  rcases f.trivia_tokens with h | ⟨t, ts, h, ht⟩
  · simp [next, words, h]
  · simp [next, words, h, ht, Tree.bare]

mutual

theorem weave_bare {f g : Feed} (p : Outline)
    (h : f.words.map Token.bare = g.words.map Token.bare) :
    Tree.bareAll (weave p f.trivia.2).1 = Tree.bareAll (weave p g.trivia.2).1 := by
  cases p with
  | word =>
    have hf := f.next_bare
    have hg := g.next_bare
    rw [List.map_take, h, ← List.map_take, ← hg] at hf
    exact hf
  | gap => rfl
  | node k ps =>
    have hps := weaveAll_bare (f := f.trivia.2) (g := g.trivia.2) ps (by
      rw [f.trivia_words, g.trivia_words, h])
    simp only [weave, Tree.bareAll_cons, Tree.bare, hps]

theorem weaveAll_bare {f g : Feed} (ps : List Outline)
    (h : f.words.map Token.bare = g.words.map Token.bare) :
    Tree.bareAll (weaveAll ps f).1 = Tree.bareAll (weaveAll ps g).1 := by
  cases ps with
  | nil => rfl
  | cons p ps =>
    have hp := weave_bare p h
    have hps := weaveAll_bare (f := (weave p f.trivia.2).2) (g := (weave p g.trivia.2).2) ps (by
      rw [weave_words, weave_words, List.map_drop, h, List.map_drop])
    simp only [weaveAll, Tree.bareAll_append, Feed.trivia_bare, hp, hps]

end

end Outline

/-- A word, and whether a line break is in the trivia before it. -/
structure Mark where
  kind : Kind
  text : String
  newline : Bool
  deriving DecidableEq, Repr

/-- The words of a text; `newline` says that a line break is in the trivia before. -/
def marks (newline : Bool) : List Token → List Mark
  | [] => []
  | t :: ts =>
    if t.isTrivia then marks (newline || t.breaksLine) ts
    else ⟨t.kind, t.text, newline⟩ :: marks false ts

theorem marks_bare (newline : Bool) (ts : List Token) :
    (ts.filter (!·.isTrivia)).map Token.bare =
      (marks newline ts).map fun m => .word m.kind m.text := by
  induction ts generalizing newline with
  | nil => rfl
  | cons t ts ih =>
    by_cases ht : t.isTrivia = true
    · simp [marks, ht, ← ih]
    · simp [marks, ht, ← ih, Token.bare]

/-- What a word is in a tree without trivia. -/
def Grammar.Word.bare (w : Word) : Bare := .word w.kind w.text

theorem Grammar.wordsOf_bare (gap : Gap) (ts : List Token) :
    (wordsOf gap ts).map Word.bare = (ts.filter (!·.isTrivia)).map Token.bare := by
  induction ts generalizing gap with
  | nil => rfl
  | cons t ts ih =>
    by_cases ht : t.isTrivia = true <;> simp [wordsOf, ht, ih, Word.bare, Token.bare]

def Mark.word (m : Mark) : Grammar.Word := ⟨m.kind, m.text, if m.newline then .newline else .none⟩

theorem add_beq_newline (gap : Grammar.Gap) (t : Token) :
    (gap.add t == .newline) = ((gap == .newline) || t.breaksLine) := by
  unfold Grammar.Gap.add
  cases gap <;> cases t.breaksLine <;> rfl

theorem tighten_wordsOf (gap : Grammar.Gap) (ts : List Token) :
    Grammar.tighten (Grammar.wordsOf gap ts) = (marks (gap == .newline) ts).map Mark.word := by
  induction ts generalizing gap with
  | nil => rfl
  | cons t ts ih =>
    by_cases ht : t.isTrivia = true
    · rw [Grammar.wordsOf, if_pos ht, ih, add_beq_newline, marks, if_pos ht]
    · rw [Grammar.wordsOf, if_neg ht, Grammar.tighten_cons, ih, marks, if_neg ht]
      cases gap <;> rfl

theorem parseTokens_ok (h : Grammar.Reads tokens s) :
    (parseTokens tokens).ok = true ↔ s.faults = [] := by
  simp [parseTokens, Grammar.outline, h.run, Parse.ok]

theorem parseTokens_bare (h : Grammar.Reads tokens s) :
    (parseTokens tokens).tree.bare =
      [.node .sourceFile (Tree.bareAll (Outline.weaveAll s.built.reverse ⟨0, tokens⟩).1)] := by
  rw [parseTokens_tree h]
  simp only [Outline.weaveRoot, Tree.bare, Tree.bareAll_append, Outline.Feed.rest,
    Tree.bareAll_trivia h.rest, List.append_nil]

/-- A text without errors is parsed like every text that differs from it in trivia only, as long as
line breaks are in the trivia before the same words. -/
theorem parse_ignores_trivia (a b : String)
    (h : marks false (tokenize a) = marks false (tokenize b)) (hok : (parse a).ok = true) :
    (parse b).ok = true ∧ (parse b).tree.bare = (parse a).tree.bare := by
  obtain ⟨s, hs⟩ := Grammar.exists_reads (tokenize a)
  obtain ⟨t, ht⟩ := Grammar.exists_reads (tokenize b)
  have hfaults := (parseTokens_ok hs).mp hok
  have hahead : Grammar.tighten (Grammar.wordsOf .none (tokenize a)) =
      Grammar.tighten (Grammar.wordsOf .none (tokenize b)) := by
    rw [tighten_wordsOf, tighten_wordsOf]
    exact congrArg _ h
  have hwords : ((tokenize a).filter (!·.isTrivia)).map Token.bare =
      ((tokenize b).filter (!·.isTrivia)).map Token.bare := by
    rw [marks_bare false, marks_bare false, h]
  obtain ⟨_, t', hrun, -, hst⟩ := (Grammar.sourceFile_blind _ _ _ hs.run).2 hfaults
    (.start (Grammar.wordsOf .none (tokenize b))) ⟨hahead, rfl, rfl, rfl⟩
  obtain rfl : t' = t := by
    have := hrun.symm.trans ht.run
    simpa using this
  refine ⟨(parseTokens_ok ht).mpr (hst.faults ▸ hfaults), ?_⟩
  rw [parse, parse, parseTokens_bare hs, parseTokens_bare ht, hst.built]
  rw [Outline.weaveAll_bare t'.built.reverse (f := ⟨0, tokenize a⟩) (g := ⟨0, tokenize b⟩) hwords]

theorem parse_ignores_directive :
    marks false (tokenize "#define N 2\nint a[N] = \x7bx,f (y)\x7d ;") =
      marks false (tokenize "\n int a[N]=\x7b x, f(y) \x7d;// N is 2") ∧
    (parse "#define N 2\nint a[N] = \x7bx,f (y)\x7d ;").ok = true ∧
    ((parse "\n int a[N]=\x7b x, f(y) \x7d;// N is 2").ok = true ∧
      (parse "\n int a[N]=\x7b x, f(y) \x7d;// N is 2").tree.bare =
        (parse "#define N 2\nint a[N] = \x7bx,f (y)\x7d ;").tree.bare) := by
  have h : marks false (tokenize "#define N 2\nint a[N] = \x7bx,f (y)\x7d ;") =
      marks false (tokenize "\n int a[N]=\x7b x, f(y) \x7d;// N is 2") := by decide +kernel
  have hok : (parse "#define N 2\nint a[N] = \x7bx,f (y)\x7d ;").ok = true := by
    decide +kernel
  exact ⟨h, hok, parse_ignores_trivia _ _ h hok⟩

end CppRefactor
