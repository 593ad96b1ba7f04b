import CppRefactor.Proofs.Grammar.Functions
import CppRefactor.Proofs.Syntax.Spans
import CppRefactor.Syntax.View.Declaration

/-!
Nodes that have a form in the tree of a text. In a function definition the declarator has a name and
stands before the body, and behind the body stand handlers and trivia, or nothing. Classes and
enumerations with a body and namespaces begin with a token.
-/

namespace CppRefactor

namespace Outline

/-- What is woven is trivia, or of one of the outlines, for which there are words left. -/
theorem of_mem_weaveAll {ps : List Outline} {f : Feed} (h : t ∈ (weaveAll ps f).1) :
    (∃ w, w.isTrivia = true ∧ t = .token w) ∨ ∃ p ∈ ps, ∃ g : Feed, t ∈ (weave p g.trivia.2).1 ∧
      (wordsOf ps ≤ f.words.length → p.words ≤ g.words.length) := by
  induction ps generalizing f with
  | nil => cases h
  | cons p ps ih =>
    rw [wordsOf_cons]
    rcases List.mem_append.mp h with h | h
    · rcases List.mem_append.mp h with h | h
      · obtain ⟨w, hw, rfl⟩ := List.mem_map.mp h
        exact .inl ⟨w, List.all_eq_true.mp List.all_takeWhile w hw, rfl⟩
      · exact .inr ⟨p, List.mem_cons_self, f, h, Nat.le_of_add_right_le⟩
    · refine (ih h).imp_right fun ⟨q, hq, g, hg, hwords⟩ => ?_
      refine ⟨q, List.mem_cons_of_mem p hq, g, hg, fun hle => hwords ?_⟩
      have hdrop : (weave p f.trivia.2).2.words.length = f.words.length - p.words := by
        rw [weave_words, List.length_drop]
      exact Nat.le_trans (by omega) (Nat.le_of_eq hdrop.symm)

theorem of_mem_next {f : Feed} (h : t ∈ f.next.1) : ∃ w, t = .token w := by
  unfold Feed.next at h
  split at h
  · cases h
  · exact ⟨_, List.mem_singleton.mp h⟩

theorem of_mem_weave_node {ps : List Outline} {f : Feed} (h : t ∈ (weave (.node k ps) f).1) :
    ∃ s, t = .node k s (weaveAll ps f).1 :=
  ⟨_, List.mem_singleton.mp h⟩

theorem node_of_mem_weaveAll {ps : List Outline} {f : Feed} (h : .node k s ts ∈ (weaveAll ps f).1) :
    ∃ qs g, .node k qs ∈ ps ∧ ts = (weaveAll qs g).1 := by
  rcases of_mem_weaveAll h with ⟨w, -, hw⟩ | ⟨p, hp, g, h, -⟩
  · cases hw
  · cases p with
    | word =>
      obtain ⟨w, hw⟩ := of_mem_next h
      cases hw
    | gap => cases h
    | node k' qs =>
      obtain ⟨s', hs⟩ := of_mem_weave_node h
      cases hs
      exact ⟨qs, _, hp, rfl⟩

theorem exists_mem_weaveAll {ps : List Outline} (h : .node k qs ∈ ps) (f : Feed) :
    ∃ s g, .node k s (weaveAll qs g).1 ∈ (weaveAll ps f).1 := by
  induction ps generalizing f with
  | nil => cases h
  | cons p ps ih =>
    rcases List.mem_cons.mp h with rfl | h
    · exact ⟨_, f.trivia.2, List.mem_append_left _ (List.mem_append_right _ List.mem_cons_self)⟩
    · obtain ⟨s, g, hmem⟩ := ih h (weave p f.trivia.2).2
      exact ⟨s, g, List.mem_append_right _ hmem⟩

theorem weaveAll_cons_node (k : Kind) (qs ps : List Outline) (f : Feed) :
    ∃ (blank : List Token) (s : Span) (g h : Feed), (weaveAll (.node k qs :: ps) f).1 =
      blank.map .token ++ .node k s (weaveAll qs g).1 :: (weaveAll ps h).1 :=
  ⟨f.tokens.takeWhile (·.isTrivia), _, f.trivia.2, (weave (.node k qs) f.trivia.2).2,
    List.append_assoc ..⟩

/-- A node that is woven of a shaped outline is woven of parts in the form of its kind, and there
are words for them. -/
theorem Shaped.form {p : Outline} (hp : p.Shaped) {f : Feed} (ht : t ∈ (weave p f.trivia.2).1)
    (hwords : p.words ≤ f.words.length) (h : .node k s ts ∈ t.preorder) :
    ∃ (qs : List Outline) (g : Feed), HasForm k qs ∧ wordsOf qs ≤ g.words.length ∧
      ts = (weaveAll qs g.trivia.2).1 := by
  induction hp generalizing f t with
  | word =>
    obtain ⟨w, rfl⟩ := of_mem_next ht
    cases List.mem_singleton.mp h
  | gap => cases ht
  | @node k ps hform _ ih =>
    obtain ⟨s', rfl⟩ := of_mem_weave_node ht
    rw [Tree.preorder_node, List.mem_cons] at h
    rcases h with h | h
    · cases h
      exact ⟨ps, f, hform, hwords, rfl⟩
    · obtain ⟨u, hu, h⟩ := List.mem_flatMap.mp h
      rcases of_mem_weaveAll hu with ⟨w, -, rfl⟩ | ⟨p, hp, g, hu, hg⟩
      · cases List.mem_singleton.mp h
      · rw [f.trivia_words] at hg
        exact ih p hp hu (hg hwords) h

/-- What begins with a word is woven into trees the first of which is a token. -/
theorem weaveAll_word {rest : List Outline} {f : Feed}
    (hwords : wordsOf (.word :: rest) ≤ f.words.length) :
    ∃ w ∈ f.words, ∃ ts, (weaveAll (.word :: rest) f.trivia.2).1 = .token w :: ts := by
  have hpos : 0 < f.words.length := by
    rw [wordsOf_cons, words_word] at hwords
    omega
  obtain ⟨w, ws, hw⟩ := List.exists_cons_of_length_pos hpos
  refine ⟨w, by rw [hw]; exact List.mem_cons_self, (weaveAll rest f.trivia.2.next.2).1, ?_⟩
  simp [weaveAll, weave, f.trivia_trivia, f.next_trees, hw]

/-- What ends with a word is woven into trees the last of which is the token of that word. -/
theorem weaveAll_concat_word {ps : List Outline} {f : Feed} (h : f.words[wordsOf ps]? = some w) :
    ∃ blank, (weaveAll (ps ++ [.word]) f).1 = (weaveAll ps f).1 ++ blank ++ [.token w] := by
  induction ps generalizing f with
  | nil =>
    refine ⟨f.trivia.1, ?_⟩
    have hfirst : f.words.take 1 = [w] := by
      rw [List.take_one, List.head?_eq_getElem?]
      exact congrArg Option.toList h
    simp [weaveAll, weave, f.next_trees, hfirst]
  | cons p ps ih =>
    have hnext : (weave p f.trivia.2).2.words[wordsOf ps]? = some w := by
      rw [weave_words, List.getElem?_drop]
      exact h
    obtain ⟨blank, hblank⟩ := ih hnext
    refine ⟨blank, ?_⟩
    simp only [List.cons_append, weaveAll, hblank, List.append_assoc]

end Outline

namespace Tree

/-- A node of that kind, as it is looked for among the parts of a tree. -/
def isChild (k : Kind) (t : Tree) : Bool := t.isNode && t.kind == k

theorem isChild_iff {t : Tree} : t.isChild k = true ↔ ∃ s ts, t = .node k s ts := by
  cases t with
  | token => simp [isChild, isNode]
  | node k' s ts => simp [isChild, isNode, kind]

theorem find?_node_ne (h : (k' == k) = false) (s : Span) (ts us : List Tree) :
    (node k' s ts :: us).find? (isChild k) = us.find? (isChild k) :=
  List.find?_cons_of_neg (by simp [isChild, kind, h])

theorem find?_node (k : Kind) (s : Span) (ts us : List Tree) :
    (node k s ts :: us).find? (isChild k) = some (node k s ts) :=
  List.find?_cons_of_pos (isChild_iff.mpr ⟨s, ts, rfl⟩)

theorem find?_tokens (k : Kind) (ws : List Token) : (ws.map token).find? (isChild k) = none := by
  rw [List.find?_eq_none]
  intro t ht
  obtain ⟨w, -, rfl⟩ := List.mem_map.mp ht
  exact Bool.false_ne_true

end Tree

namespace Outline

theorem find?_weaveAll {ps : List Outline} (h : ∀ p ∈ ps, ¬ p.IsNode k) (f : Feed) :
    (weaveAll ps f).1.find? (Tree.isChild k) = none := by
  rw [List.find?_eq_none]
  intro t ht hk
  obtain ⟨s, ts, rfl⟩ := Tree.isChild_iff.mp hk
  obtain ⟨qs, _, hp, -⟩ := node_of_mem_weaveAll ht
  exact h _ hp rfl

theorem exists_isChild {ps : List Outline} (h : ∃ p ∈ ps, p.IsNode k) (f : Feed) :
    ∃ t ∈ (weaveAll ps f).1, t.isChild k = true := by
  obtain ⟨p, hp, hk⟩ := h
  cases p with
  | word | gap => exact hk.elim
  | node k' qs =>
    cases hk
    obtain ⟨s, g, hmem⟩ := exists_mem_weaveAll hp f
    exact ⟨_, hmem, Tree.isChild_iff.mpr ⟨_, _, rfl⟩⟩

theorem IsNode.unique {p : Outline} (h : p.IsNode k) (h' : p.IsNode k') : k = k' := by
  cases p with
  | word | gap => exact h.elim
  | node => exact h.symm.trans h'

/-- The declarator of a function definition comes before its body, and has a name. -/
theorem FunctionParts.split {ps : List Outline} (h : FunctionParts ps) {f : Feed}
    (hu : (weaveAll ps f).1.find? (Tree.isChild .declarator) = some u)
    (hb : (weaveAll ps f).1.find? (Tree.isChild .compoundStmt) = some b) :
    ∃ front between handlers g, (∀ p ∈ handlers, p.IsNode .catchClause) ∧
      (weaveAll ps f).1 = front ++ u :: (between ++ b :: (weaveAll handlers g).1) ∧
      ∃ name ∈ u.parts, name.isChild .qualifiedName = true := by
  obtain ⟨hnamed, hbefore, hbody, hhandlers⟩ := h
  rename_i specifiers declared before body handlers
  obtain ⟨blank₁, s₁, g₁, f₁, h₁⟩ := weaveAll_cons_node .declSpecifiers specifiers
    (.node .declarator declared :: (before ++ body ++ handlers)) f
  obtain ⟨blank₂, s₂, g₂, f₂, h₂⟩ := weaveAll_cons_node .declarator declared
    (before ++ body ++ handlers) f₁
  have h₃ := congrArg Prod.fst (weaveAll_append (before ++ body) handlers f₂)
  have h₄ := congrArg Prod.fst (weaveAll_append before body f₂)
  generalize (weaveAll (before ++ body) f₂).2 = f₃ at h₃
  generalize (weaveAll before f₂).2 = f₄ at h₄
  have hbefore' : ∀ p ∈ before, ¬ p.IsNode .compoundStmt := by
    rintro p hp hk
    rcases hbefore p hp with rfl | hi
    · exact hk
    · exact absurd (hi.unique hk) (by decide)
  have hhandlers' : ∀ p ∈ handlers, ¬ p.IsNode .compoundStmt := fun p hp hk =>
    absurd ((hhandlers p hp).unique hk) (by decide)
  rw [h₁, h₂, h₃, h₄] at hu hb ⊢
  rw [List.find?_append, Tree.find?_tokens, Option.none_or, Tree.find?_node_ne (by decide),
    List.find?_append, Tree.find?_tokens, Option.none_or] at hu hb
  rw [Tree.find?_node, Option.some.injEq] at hu
  rw [Tree.find?_node_ne (by decide), List.append_assoc, List.find?_append,
    find?_weaveAll hbefore', Option.none_or] at hb
  subst hu
  rcases hbody with rfl | ⟨ps, rfl⟩
  · exact absurd ((find?_weaveAll hhandlers' f₃).symm.trans hb) nofun
  · obtain ⟨blank₃, s₃, g₃, f₅, h₅⟩ := weaveAll_cons_node .compoundStmt ps [] f₄
    rw [h₅] at hb ⊢
    rw [List.find?_append, List.find?_append, Tree.find?_tokens, Option.none_or,
      Tree.find?_node, Option.some_or, Option.some.injEq] at hb
    subst hb
    refine ⟨blank₁.map .token ++ .node .declSpecifiers s₁ (weaveAll specifiers g₁).1 ::
      blank₂.map .token, (weaveAll before f₂).1 ++ blank₃.map .token, handlers, f₃, hhandlers,
      ?_, exists_isChild hnamed g₂⟩
    simp [weaveAll]

end Outline

theorem Grammar.Reads.enough (h : Grammar.Reads tokens s) :
    Outline.wordsOf s.built.reverse ≤ (Outline.Feed.words ⟨0, tokens⟩).length := by
  rw [Outline.wordsOf_reverse, h.built, h.taken, Grammar.length_wordsOf]
  exact Nat.le_refl _

namespace IsTreeOf

/-- The nodes below the root are in the trees that are woven of what the grammar built. -/
theorem below (h : IsTreeOf text (.node k s ts)) (hk : k ≠ .sourceFile)
    (hreads : Grammar.Reads (tokenize text) final) :
    ∃ t ∈ (Outline.weaveAll final.built.reverse ⟨0, tokenize text⟩).1,
      .node k s ts ∈ t.preorder := by
  rw [IsTreeOf, parse, parseTokens_tree hreads, Outline.weaveRoot, Tree.preorder_node,
    List.mem_cons, List.flatMap_append, List.mem_append] at h
  rcases h with h | h | h
  · cases h
    exact absurd rfl hk
  · exact List.mem_flatMap.mp h
  · obtain ⟨t, ht, h⟩ := List.mem_flatMap.mp h
    obtain ⟨w, -, rfl⟩ := List.mem_map.mp ht
    cases List.mem_singleton.mp h

/-- They are in the tree of one of the outlines, for which there are words. -/
theorem woven (h : IsTreeOf text (.node k s ts)) (hk : k ≠ .sourceFile)
    (hreads : Grammar.Reads (tokenize text) final) :
    ∃ p ∈ final.built, ∃ (f : Outline.Feed) (t : Tree), t ∈ (Outline.weave p f.trivia.2).1 ∧
      p.words ≤ f.words.length ∧ .node k s ts ∈ t.preorder := by
  obtain ⟨t, ht, h⟩ := h.below hk hreads
  rcases Outline.of_mem_weaveAll ht with ⟨w, -, rfl⟩ | ⟨p, hp, g, ht, hg⟩
  · cases List.mem_singleton.mp h
  · exact ⟨p, List.mem_reverse.mp hp, g, t, ht, hg hreads.enough, h⟩

/-- The nodes below the root are woven of parts in the form of their kind. -/
theorem form (h : IsTreeOf text (.node k s ts)) (hk : k ≠ .sourceFile) :
    ∃ (ps : List Outline) (f : Outline.Feed), Outline.HasForm k ps ∧
      Outline.wordsOf ps ≤ f.words.length ∧ ts = (Outline.weaveAll ps f.trivia.2).1 := by
  obtain ⟨final, hreads⟩ := Grammar.exists_reads (tokenize text)
  have hstart : (Grammar.State.start (Grammar.wordsOf .none (tokenize text))).Shaped :=
    List.forall_mem_nil _
  have hshaped : final.Shaped := Grammar.sourceFile_shapes _ hstart _ _ hreads.run
  obtain ⟨p, hp, f, t, ht, hwords, hmem⟩ := h.woven hk hreads
  exact (hshaped p hp).form ht hwords hmem

theorem functionParts (h : IsTreeOf text (.node .functionDef s ts)) :
    ∃ ps f, Outline.FunctionParts ps ∧ ts = (Outline.weaveAll ps f).1 := by
  obtain ⟨ps, f, hform, -, hts⟩ := h.form (by decide)
  exact ⟨ps, f.trivia.2, hform, hts⟩

/-- A class or an enumeration with a body and a namespace begin with a token. -/
theorem headed (h : IsTreeOf text (.node k s ts)) (hk : k.isHeaded = true) :
    ∃ w rest, ts = .token w :: rest := by
  obtain ⟨ps, f, hform, hwords, rfl⟩ := h.form (by rintro rfl; cases hk)
  have hword : ∃ rest, ps = .word :: rest := by
    unfold Outline.HasForm at hform
    split at hform
    · cases hk
    · exact hform
    · exact hform
    · exact hform
    · cases hk
    · cases hk
    · simp_all [Kind.isHeaded]
  obtain ⟨rest, rfl⟩ := hword
  obtain ⟨w, -, ts, hts⟩ := Outline.weaveAll_word hwords
  exact ⟨w, ts, hts⟩

/-- In a function definition the declarator stands before the body, and behind the body stand
handlers and trivia, or nothing. -/
theorem function_split (h : IsTreeOf text t) (hk : t.kind = .functionDef)
    (hu : t.child? .declarator = some u) (hb : t.child? .compoundStmt = some b) :
    ∃ front between behind, t.parts = front ++ u :: (between ++ b :: behind) ∧
      (∃ name ∈ u.parts, name.isChild .qualifiedName = true) ∧
      (∀ p ∈ behind, (∃ w, w.isTrivia = true ∧ p = .token w) ∨ p.isChild .catchClause = true) ∧
      (t.child? .catchClause = none → behind = []) := by
  cases t with
  | token w => cases hu
  | node k s ts =>
    cases hk
    obtain ⟨ps, f, hps, rfl⟩ := h.functionParts
    obtain ⟨front, between, handlers, g, hhandlers, hparts, hname⟩ := hps.split hu hb
    refine ⟨front, between, _, hparts, hname, fun p hp => ?_, fun hnone => ?_⟩
    · refine (Outline.of_mem_weaveAll hp).imp_right fun ⟨q, hq, g', hp, _⟩ => ?_
      cases q with
      | word | gap => exact (hhandlers _ hq).elim
      | node k' qs =>
        cases hhandlers _ hq
        obtain ⟨s', rfl⟩ := Outline.of_mem_weave_node hp
        exact Tree.isChild_iff.mpr ⟨s', _, rfl⟩
    · cases handlers with
      | nil => rfl
      | cons p handlers =>
        have hp : ∃ q ∈ p :: handlers, q.IsNode .catchClause :=
          ⟨p, List.mem_cons_self, hhandlers p List.mem_cons_self⟩
        obtain ⟨t, ht, hk⟩ := Outline.exists_isChild hp g
        have hmem : t ∈ (Outline.weaveAll ps f).1 := by simp [hparts, ht]
        exact absurd hk (List.find?_eq_none.mp hnone t hmem)

theorem declarator_before_body (h : IsTreeOf text t) (hk : t.kind = .functionDef)
    (hu : t.child? .declarator = some u) (hb : t.child? .compoundStmt = some b) :
    u.span.stop ≤ b.span.start := by
  obtain ⟨_, _, _, hparts, -⟩ := h.function_split hk hu hb
  exact h.tiled.stop_le_start hparts

end IsTreeOf

end CppRefactor
