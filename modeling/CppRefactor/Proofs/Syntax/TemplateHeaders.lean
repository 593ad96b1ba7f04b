import CppRefactor.Proofs.Grammar.TemplateHeaders
import CppRefactor.Proofs.Syntax.Errors
import CppRefactor.Proofs.Syntax.Respelling
import CppRefactor.Syntax.View.Item

/-!
The trees of template headers that stand alone: their parameters are the words between the commas.
-/

namespace CppRefactor

open Grammar (IsParameter headerForms headerPart listed listedParts parameterOf listed_cons)

theorem forms_eq_map {ws : List Token} (h : ∀ w ∈ ws, w.isTrivia = false) :
    forms ws = ws.map fun w => (w.kind, w.text) := by
  rw [forms, List.filter_eq_self.mpr fun w hw => by rw [h w hw]; rfl]

theorem forms_eq_nil {ws : List Token} (h : ∀ w ∈ ws, w.isTrivia = true) : forms ws = [] := by
  rw [forms, List.filter_eq_nil_iff.mpr fun w hw => by simp [h w hw]]
  rfl

theorem Grammar.map_form_wordsOf (gap : Gap) (ts : List Token) :
    (wordsOf gap ts).map Word.form = forms ts := by
  induction ts generalizing gap with
  | nil => rfl
  | cons t ts ih =>
    cases ht : t.isTrivia <;> simp [wordsOf, forms_cons, ht, ih, Word.form]

/-- What the template parameters among trees are made of. -/
def parameterForms (ts : List Tree) : List (List (Kind × String)) :=
  (ts.filter (Tree.isChild .templateParam)).map fun p => forms p.tokens

theorem parameterForms_append (ts us : List Tree) :
    parameterForms (ts ++ us) = parameterForms ts ++ parameterForms us := by
  simp [parameterForms]

theorem parameterForms_tokens (ws : List Token) : parameterForms (ws.map .token) = [] := by
  simp [parameterForms, List.filter_eq_nil_iff, Tree.isChild, Tree.isNode]

theorem filterMap_token? (ws : List Token) : (ws.map Tree.token).filterMap Tree.token? = ws := by
  rw [List.filterMap_map]
  exact List.filterMap_some

theorem listed_singleton (r : List (Kind × String)) : listed [r] = r ++ [(.gt, ">")] := by
  rw [listed, List.intercalate_singleton]

theorem listedParts_singleton (r : List (Kind × String)) :
    listedParts [r] = [parameterOf r.length] := rfl

theorem listedParts_cons (r r' : List (Kind × String)) (params : List (List (Kind × String))) :
    listedParts (r :: r' :: params) = parameterOf r.length :: .word :: listedParts (r' :: params) :=
  rfl

namespace Outline

theorem Feed.forms_words (f : Feed) : forms f.tokens = f.words.map fun w => (w.kind, w.text) := rfl

theorem Feed.forms_next (f : Feed) :
    forms f.trivia.2.next.2.tokens = (forms f.tokens).drop 1 := by
  rw [forms_words, f.next_words, List.map_drop, ← forms_words]

theorem Feed.forms_take_words (f : Feed) : forms (f.words.take n) = (forms f.tokens).take n := by
  have hwords : ∀ w ∈ f.words.take n, w.isTrivia = false := fun w hw => by
    simpa using (List.mem_filter.mp (List.mem_of_mem_take hw)).2
  rw [forms_eq_map hwords, List.map_take, ← forms_words]

theorem forms_weaveAll_words (n : Nat) (f : Feed) :
    forms ((weaveAll (.replicate n .word) f).1.filterMap Tree.token?) =
      (forms f.tokens).take n := by
  induction n generalizing f with
  | zero => rfl
  | succ n ih =>
    have hblank : forms (f.tokens.takeWhile (·.isTrivia)) = [] :=
      forms_eq_nil (List.all_eq_true.mp List.all_takeWhile)
    have hrest := ih f.trivia.2.next.2
    rw [f.forms_next] at hrest
    simp only [List.replicate_succ, weaveAll, weave, List.filterMap_append, forms_append, hrest]
    rw [f.next_trees, filterMap_token?, f.forms_take_words, Feed.trivia, filterMap_token?, hblank,
      List.nil_append, Nat.add_comm, List.take_add]

theorem weaveAll_word_cons (ps : List Outline) (f : Feed) :
    ∃ ws : List Token, (weaveAll (.word :: ps) f).1 =
      ws.map .token ++ (weaveAll ps f.trivia.2.next.2).1 := by
  refine ⟨f.tokens.takeWhile (·.isTrivia) ++ f.words.take 1, ?_⟩
  rw [List.map_append, ← f.next_trees]
  rfl

theorem parameterForms_word (ps : List Outline) (f : Feed) :
    parameterForms (weaveAll (.word :: ps) f).1 =
      parameterForms (weaveAll ps f.trivia.2.next.2).1 := by
  obtain ⟨ws, hws⟩ := weaveAll_word_cons ps f
  rw [hws, parameterForms_append, parameterForms_tokens, List.nil_append]

theorem words_parameterOf (n : Nat) : (parameterOf n).words = n := by
  rw [parameterOf, words_node]
  induction n with
  | zero => rfl
  | succ n ih => rw [List.replicate_succ, wordsOf_cons, ih, words_word, Nat.add_comm]

/-- A parameter is made of the next words, and the feed goes on behind them. -/
theorem parameterForms_parameter (n : Nat) (ps : List Outline) (f : Feed) :
    ∃ g : Feed, forms g.tokens = (forms f.tokens).drop n ∧
      parameterForms (weaveAll (parameterOf n :: ps) f).1 =
        (forms f.tokens).take n :: parameterForms (weaveAll ps g).1 := by
  have hwords : (weave (parameterOf n) f.trivia.2).2.words = f.words.drop n := by
    rw [weave_words, words_parameterOf]
  refine ⟨(weave (parameterOf n) f.trivia.2).2, ?_, ?_⟩
  · rw [Feed.forms_words, hwords, List.map_drop, ← Feed.forms_words]
  · have hblank : parameterForms f.trivia.1 = [] := parameterForms_tokens _
    have hparam :
        parameterForms (weave (parameterOf n) f.trivia.2).1 = [(forms f.tokens).take n] := by
      have hforms := forms_weaveAll_words n f.trivia.2
      rw [Feed.forms_words, f.trivia_words, ← Feed.forms_words] at hforms
      exact congrArg (fun r => [r]) hforms
    rw [weaveAll]
    simp only [parameterForms_append]
    rw [hblank, hparam]
    rfl

theorem parameterForms_listed {params : List (List (Kind × String))} {f : Feed}
    (h : forms f.tokens = listed params) :
    parameterForms (weaveAll (listedParts params ++ [.word]) f).1 = params := by
  induction params generalizing f with
  | nil => exact parameterForms_word [] f
  | cons r params ih =>
    cases params with
    | nil =>
      obtain ⟨g, -, hparams⟩ := parameterForms_parameter r.length [.word] f
      have hlast : parameterForms (weaveAll [.word] g).1 = [] := parameterForms_word [] g
      rw [listed_singleton] at h
      rw [listedParts_singleton, List.singleton_append, hparams, hlast, h, List.take_left]
    | cons r' params =>
      obtain ⟨g, hg, hparams⟩ := parameterForms_parameter r.length
        (.word :: (listedParts (r' :: params) ++ [.word])) f
      rw [listed_cons] at h
      rw [h, List.drop_left] at hg
      have hrest : forms g.trivia.2.next.2.tokens = listed (r' :: params) := by
        rw [g.forms_next, hg]
        rfl
      rw [listedParts_cons, List.cons_append, List.cons_append, hparams, parameterForms_word,
        ih hrest, h, List.take_left]

theorem Feed.forms_trivia (f : Feed) : forms f.trivia.2.tokens = forms f.tokens := by
  rw [forms_words, f.trivia_words, ← forms_words]

theorem weaveAll_node (k : Kind) (qs : List Outline) (f : Feed) :
    ∃ (ws : List Token) (s : Span),
      (weaveAll [.node k qs] f).1 = ws.map .token ++ [.node k s (weaveAll qs f.trivia.2).1] :=
  ⟨f.tokens.takeWhile (·.isTrivia), _, List.append_nil _⟩

theorem templateParameters_header {params : List (List (Kind × String))} {f : Feed}
    (h : forms f.tokens = headerForms params) :
    ∃ t ∈ (weaveAll [headerPart params] f).1, t.kind = .templateDecl ∧
      (templateParameters t).map (fun p => forms p.tokens) = params := by
  obtain ⟨blank, s, hdecl⟩ := weaveAll_node .templateDecl
    [.word, .node .templateParamList (.word :: (listedParts params ++ [.word]))] f
  refine ⟨_, by rw [headerPart, hdecl]; exact List.mem_append_right _ List.mem_cons_self, rfl, ?_⟩
  obtain ⟨keyword, hkeyword⟩ := weaveAll_word_cons
    [.node .templateParamList (.word :: (listedParts params ++ [.word]))] f.trivia.2
  generalize hg : f.trivia.2.trivia.2.next.2 = g at hkeyword
  have hforms : forms g.tokens = (.lt, "<") :: listed params := by
    rw [← hg, Feed.forms_next, Feed.forms_trivia, h]
    rfl
  obtain ⟨blank', s', hlist⟩ := weaveAll_node .templateParamList
    (.word :: (listedParts params ++ [.word])) g
  have hinside : forms g.trivia.2.trivia.2.next.2.tokens = listed params := by
    rw [Feed.forms_next, Feed.forms_trivia, hforms]
    rfl
  have hchild : (Tree.node .templateDecl s (weaveAll [.word, .node .templateParamList
        (.word :: (listedParts params ++ [.word]))] f.trivia.2).1).child? .templateParamList =
      some (.node .templateParamList s'
        (weaveAll (.word :: (listedParts params ++ [.word])) g.trivia.2).1) := by
    change List.find? (Tree.isChild .templateParamList) (weaveAll _ f.trivia.2).1 = _
    rw [hkeyword, hlist, ← List.append_assoc, ← List.map_append, List.find?_append,
      Tree.find?_tokens, Option.none_or, Tree.find?_node]
  rw [templateParameters, hchild]
  exact (parameterForms_word _ _).trans (parameterForms_listed hinside)

end Outline

variable {params : List (List (Kind × String))}

/-- A text of the words of a header is parsed without errors, and its parameters are found. -/
theorem parse_header {text : String} (hp : ∀ r ∈ params, IsParameter (r.map Prod.fst))
    (h : readForms text.toList = headerForms params) :
    (parse text).errors = [] ∧ ∃ t ∈ (parse text).tree.preorder, t.kind = .templateDecl ∧
      (templateParameters t).map (fun p => forms p.tokens) = params := by
  obtain ⟨final, hreads⟩ := Grammar.exists_reads (tokenize text)
  have hahead : (Grammar.State.start (Grammar.wordsOf .none (tokenize text))).ahead.map
      Grammar.Word.form = headerForms params :=
    (Grammar.map_form_wordsOf _ _).trans h
  obtain ⟨-, hbuilt, hfaults⟩ := Grammar.sourceFile_builds hp hahead _ _ hreads.run
  have hbuilt : final.built.reverse = [headerPart params] := by
    rw [hbuilt]
    rfl
  have hfaults : final.faults = [] := hfaults
  refine ⟨by rw [parse_errors hreads, hfaults]; rfl, ?_⟩
  obtain ⟨t, ht, hkind, hparams⟩ := Outline.templateParameters_header (f := ⟨0, tokenize text⟩) h
  refine ⟨t, ?_, hkind, hparams⟩
  rw [parse, parseTokens_tree hreads, hbuilt, Outline.weaveRoot, Tree.preorder_node]
  refine List.mem_cons_of_mem _ (List.mem_flatMap.mpr ⟨_, List.mem_append_left _ ht, ?_⟩)
  exact t.self_mem_preorder

end CppRefactor
