import CppRefactor.Proofs.Syntax.Errors
import CppRefactor.Proofs.Syntax.Gluing
import CppRefactor.Syntax.View.Name

/-!
Template arguments as text. The list is split anew at commas, by a count of angle and round brackets
only. An argument comes out as it was parsed if that count sees none of its commas and is even at
its end; braces, square brackets and lone angle brackets can make it see too much or too little.
-/

namespace CppRefactor

namespace TemplateArguments

variable {parts : List Tree} {t close : Token} {run rest current : List Token} {depth : Nat}

/-- A comma between the parts of a list, not inside of one. -/
def isSeparator : Tree → Bool
  | .token t => t.kind == .comma
  | .node .. => false

/-- The runs of tokens between separators; `current` is what the first has already. -/
def runs (current : List Token) : List Tree → List (List Token)
  | [] => [current]
  | p :: ps =>
    if isSeparator p then current :: runs [] ps else runs (current ++ p.significant) ps

/-- Nothing behind a last separator is no argument. -/
def withoutEmptyLast (args : List (List Token)) : List (List Token) :=
  args.dropLast ++ (args.getLast?.filter (!·.isEmpty)).toList

/-- The arguments of a list, between its first part and its last. -/
def arguments (t : Tree) : List (List Token) := withoutEmptyLast (runs [] t.parts.tail.dropLast)

theorem runs_ne_nil (current : List Token) (parts : List Tree) : runs current parts ≠ [] := by
  induction parts generalizing current with
  | nil => exact List.cons_ne_nil _ _
  | cons p ps ih =>
    rw [runs]
    split
    · exact List.cons_ne_nil _ _
    · exact ih _

theorem withoutEmptyLast_cons {args : List (List Token)} (h : args ≠ []) (run : List Token) :
    withoutEmptyLast (run :: args) = run :: withoutEmptyLast args := by
  obtain ⟨arg, args, rfl⟩ := List.exists_cons_of_ne_nil h
  rfl

/-- How many brackets are open behind a token. -/
def step (depth : Nat) : Kind → Nat
  | .lt | .lParen => depth + 1
  | .gt | .rParen => depth - 1
  | _ => depth

/-- How many brackets are open behind tokens; nothing if a comma stands where none is. -/
def openBehind (depth : Nat) : List Token → Option Nat
  | [] => some depth
  | t :: ts =>
    if t.kind = .comma ∧ depth = 0 then none else openBehind (step depth t.kind) ts

/-- Every comma is in a bracket that is counted, and the count is even at the end. -/
def IsLevel (run : List Token) : Prop := openBehind 0 run = some 0

instance (run : List Token) : Decidable (IsLevel run) := inferInstanceAs (Decidable (_ = _))

/-- The count goes on over a token that neither separates nor ends the list. -/
theorem split_cons {t : Token} (hcomma : ¬ (t.kind = .comma ∧ depth = 0))
    (hend : depth ≠ 0 ∨ rest ≠ []) :
    split depth current (t :: rest) = split (step depth t.kind) (t :: current) rest := by
  have hlast : ¬ (rest = [] ∧ depth = 0) := fun h => hend.elim (· h.2) (· h.1)
  rw [split]
  unfold step
  split <;> simp_all

theorem split_append (h : openBehind depth run = some n) (hrest : rest ≠ []) :
    split depth current (run ++ rest) = split n (run.reverse ++ current) rest := by
  induction run generalizing depth current with
  | nil =>
    cases h
    rfl
  | cons t run ih =>
    rw [openBehind] at h
    split at h
    · cases h
    · rename_i hcomma
      have hne : run ++ rest ≠ [] := List.append_ne_nil_of_right_ne_nil run hrest
      rw [List.cons_append, split_cons hcomma (.inr hne), ih h, List.reverse_cons,
        List.append_assoc, List.singleton_append]

theorem split_starts (depth : Nat) (current rest : List Token) :
    ∃ arg args, split depth current rest = arg :: args ∧ current.reverse <+: arg := by
  have hgrow {t : Token} {current arg : List Token} (h : (t :: current).reverse <+: arg) :
      current.reverse <+: arg :=
    (List.reverse_prefix.mpr (List.suffix_cons t current)).trans h
  fun_induction split depth current rest
  case case1 | case2 | case4 => exact ⟨_, _, rfl, List.prefix_rfl⟩
  all_goals
    rename_i ih
    obtain ⟨arg, args, h, hstarts⟩ := ih
    exact ⟨arg, args, h, hgrow hstarts⟩

theorem split_ne_nil (depth : Nat) (current rest : List Token) :
    split depth current rest ≠ [] := by
  obtain ⟨arg, args, h, -⟩ := split_starts depth current rest
  exact h ▸ List.cons_ne_nil arg args

theorem split_comma (h : IsLevel run) (ht : t.kind = .comma) (rest : List Token) :
    split 0 [] (run ++ t :: rest) = run :: split 0 [] rest := by
  rw [split_append h (List.cons_ne_nil t rest), List.append_nil, split, ht]
  simp

theorem split_close (h : IsLevel run) (ht : t.kind = .gt) : split 0 [] (run ++ [t]) = [run] := by
  rw [split_append h (List.cons_ne_nil t []), List.append_nil, split, ht]
  simp

theorem split_of_openBehind_eq_none (h : openBehind depth run = none) (current rest : List Token) :
    ∃ front t back args, run = front ++ t :: back ∧
      split depth current (run ++ rest) = (current.reverse ++ front) :: args := by
  induction run generalizing depth current with
  | nil => cases h
  | cons t run ih =>
    rw [openBehind] at h
    split at h
    · rename_i hcomma
      refine ⟨[], t, run, split 0 [] (run ++ rest), rfl, ?_⟩
      rw [List.cons_append, split, hcomma.1, hcomma.2, List.append_nil]
      rfl
    · rename_i hcomma
      obtain ⟨front, u, back, args, rfl, hsplit⟩ := ih h (t :: current)
      refine ⟨t :: front, u, back, args, rfl, ?_⟩
      have hne : depth ≠ 0 ∨ front ++ u :: back ++ rest ≠ [] := .inr (by simp)
      rw [List.cons_append, split_cons hcomma hne, hsplit, List.reverse_cons, List.append_assoc,
        List.singleton_append]

/-- Where the count does not see an argument as it is, less or more comes out. -/
theorem split_of_not_level (h : ¬ IsLevel run) (t : Token) (rest : List Token) :
    ∃ arg args, split 0 [] (run ++ t :: rest) = arg :: args ∧
      ((∃ u more, run = arg ++ u :: more) ∨ ∃ more, arg = run ++ t :: more) := by
  cases hopen : openBehind 0 run with
  | none =>
    obtain ⟨front, u, more, args, hrun, hsplit⟩ := split_of_openBehind_eq_none hopen [] (t :: rest)
    exact ⟨front, args, hsplit, .inl ⟨u, more, hrun⟩⟩
  | some n =>
    have hn : n ≠ 0 := by
      rintro rfl
      exact h hopen
    have hcomma : ¬ (t.kind = .comma ∧ n = 0) := fun ht => hn ht.2
    obtain ⟨arg, args, hsplit, more, hmore⟩ :=
      split_starts (step n t.kind) (t :: (run.reverse ++ [])) rest
    refine ⟨arg, args, ?_, .inr ⟨more, ?_⟩⟩
    · rw [split_append hopen (List.cons_ne_nil t rest), split_cons hcomma (.inl hn), hsplit]
    · rw [← hmore, List.append_nil, List.reverse_cons, List.reverse_reverse, List.append_assoc,
        List.singleton_append]

theorem length_spellAfter_lt {t : Token} (ht : t.text.toList ≠ []) (last : Kind)
    (ts us : List Token) :
    (spellAfter last ts).toList.length < (spellAfter last (ts ++ t :: us)).toList.length := by
  induction ts generalizing last with
  | nil =>
    have hpos := List.length_pos_iff.mpr ht
    rw [List.nil_append, toList_spellAfter_cons, toList_spell_cons]
    simp only [spellAfter, String.toList_empty, List.length_append, List.length_nil]
    omega
  | cons u ts ih =>
    have hlt := ih u.kind
    rw [List.cons_append, toList_spellAfter_cons, toList_spellAfter_cons, toList_spell_cons,
      toList_spell_cons]
    simp only [List.length_append]
    omega

theorem length_spell_lt {t : Token} (ht : t.text.toList ≠ []) (ts us : List Token) :
    (spell ts).toList.length < (spell (ts ++ t :: us)).toList.length := by
  cases ts with
  | nil =>
    have hpos := List.length_pos_iff.mpr ht
    rw [List.nil_append, toList_spell_cons]
    simp only [spell, String.toList_empty, List.length_append, List.length_nil]
    omega
  | cons u ts =>
    have hlt := length_spellAfter_lt ht u.kind ts us
    rw [List.cons_append, toList_spell_cons, toList_spell_cons]
    simp only [List.length_append]
    omega

def spellings (args : List (List Token)) : List String := (withoutEmptyLast args).map spell

theorem spellings_cons {args : List (List Token)} (h : args ≠ []) (run : List Token) :
    spellings (run :: args) = spell run :: spellings args := by
  rw [spellings, withoutEmptyLast_cons h]
  rfl

/-- The first argument is spelled first; one that is left out would be spelled as nothing. -/
theorem headD_spellings (run : List Token) (args : List (List Token)) :
    (spellings (run :: args)).headD "" = spell run := by
  cases args with
  | nil => cases run <;> rfl
  | cons arg args => rfl

/-- An argument that the count does not see as it is comes out as something else. -/
theorem spellings_ne (h : ¬ IsLevel run) (hrun : ∀ u ∈ run, u.IsRead) (ht : t.IsRead)
    (rest : List Token) (args : List (List Token)) :
    spellings (split 0 [] (run ++ t :: rest)) ≠ spellings (run :: args) := by
  obtain ⟨arg, args', hsplit, hdiffers⟩ := split_of_not_level h t rest
  rw [hsplit]
  intro heq
  have hspell : spell arg = spell run := by
    rw [← headD_spellings arg args', heq, headD_spellings]
  rcases hdiffers with ⟨u, more, rfl⟩ | ⟨more, rfl⟩
  · have hlt := length_spell_lt (hrun u (by simp)).ne arg more
    rw [hspell] at hlt
    exact Nat.lt_irrefl _ hlt
  · have hlt := length_spell_lt ht.ne run more
    rw [hspell] at hlt
    exact Nat.lt_irrefl _ hlt

/-- The arguments come out as they were parsed if and only if the count sees each as it is. -/
theorem spellings_split_iff (hclose : close.kind = .gt)
    (hread : ∀ t ∈ current ++ (parts.flatMap Tree.significant ++ [close]), t.IsRead) :
    spellings (split 0 [] (current ++ (parts.flatMap Tree.significant ++ [close]))) =
      spellings (runs current parts) ↔ ∀ run ∈ runs current parts, IsLevel run := by
  induction parts generalizing current with
  | nil =>
    rw [runs, List.forall_mem_singleton]
    obtain ⟨hcurrent, hlast⟩ := List.forall_mem_append.mp hread
    refine ⟨fun heq => ?_, fun hlevel => ?_⟩
    · by_contra hnot
      exact spellings_ne hnot hcurrent (hlast close List.mem_cons_self) [] [] heq
    · rw [List.flatMap_nil, List.nil_append, split_close hlevel hclose]
  | cons p ps ih =>
    rw [runs]
    split
    · rename_i hcomma
      obtain ⟨t, rfl, ht⟩ : ∃ t : Token, p = .token t ∧ t.kind = .comma := by
        cases p with
        | token t => exact ⟨t, rfl, by simpa [isSeparator] using hcomma⟩
        | node => cases hcomma
      have hsignificant : (Tree.token t).significant = [t] := by
        simp [Tree.significant, Token.isTrivia, ht, Kind.isTrivia]
      rw [List.flatMap_cons, hsignificant, List.append_assoc] at hread ⊢
      obtain ⟨hcurrent, hrest⟩ := List.forall_mem_append.mp hread
      obtain ⟨htoken, hbehind⟩ := List.forall_mem_cons.mp hrest
      rw [List.forall_mem_cons]
      by_cases hlevel : IsLevel current
      · rw [List.singleton_append, split_comma hlevel ht, spellings_cons (split_ne_nil _ _ _),
          spellings_cons (runs_ne_nil _ _), List.cons.injEq]
        have htail := ih hbehind
        rw [List.nil_append] at htail
        simp [hlevel, htail]
      · exact iff_of_false (spellings_ne hlevel hcurrent htoken _ _) fun h => hlevel h.1
    · rw [List.flatMap_cons, List.append_assoc, ← List.append_assoc current] at hread ⊢
      exact ih hread

theorem forall_mem_withoutEmptyLast (args : List (List Token)) :
    (∀ run ∈ withoutEmptyLast args, IsLevel run) ↔ ∀ run ∈ args, IsLevel run := by
  cases args using List.reverseRecOn with
  | nil => rfl
  | append_singleton args last =>
    cases last with
    | nil =>
      have hleft : withoutEmptyLast (args ++ [[]]) = args := by simp [withoutEmptyLast]
      rw [hleft, List.forall_mem_append, List.forall_mem_singleton]
      exact (and_iff_left rfl).symm
    | cons t ts =>
      have hkept : withoutEmptyLast (args ++ [t :: ts]) = args ++ [t :: ts] := by
        simp [withoutEmptyLast]
      rw [hkept]

theorem significant_node (k : Kind) (s : Span) (ts : List Tree) :
    (Tree.node k s ts).significant = ts.flatMap Tree.significant := by
  rw [Tree.significant, Tree.leaves_node, List.filter_flatMap]
  rfl

/-- The texts of the arguments in a text without errors are those of the arguments as they were
parsed if and only if the count of brackets sees each argument as it is. -/
theorem texts_iff (h : IsTreeOf text (.node .templateArgList s ts))
    (hok : (parse text).errors = []) :
    texts (.node .templateArgList s ts) = (arguments (.node .templateArgList s ts)).map spell ↔
      ∀ run ∈ arguments (.node .templateArgList s ts), IsLevel run := by
  have hread := h.isRead
  obtain ⟨opener, inside, close, rfl, hopener, hclose⟩ := h.enclosed hok rfl
  have hcloses : close.isTrivia = false := by simp [Token.isTrivia, hclose, Kind.isTrivia]
  have hsignificant : (Tree.node .templateArgList s
      (.token opener :: (inside ++ [.token close]))).significant =
        opener :: (inside.flatMap Tree.significant ++ [close]) := by
    rw [significant_node]
    simp [Tree.significant, hopener, hcloses]
  have harguments : arguments (.node .templateArgList s
      (.token opener :: (inside ++ [.token close]))) = withoutEmptyLast (runs [] inside) := by
    simp [arguments, Tree.parts]
  rw [hsignificant] at hread
  rw [harguments, forall_mem_withoutEmptyLast,
    ← spellings_split_iff hclose (List.forall_mem_cons.mp hread).2, spellings, texts, hsignificant]
  rfl

/-- Commas in braces separate, and a lone angle bracket in parentheses hides the end of the list. -/
theorem texts_miscounted :
    (parse "A<\x7b1,2\x7d> x;").errors = [] ∧
    (∃ t ∈ (parse "A<\x7b1,2\x7d> x;").tree.preorder, t.kind = .templateArgList ∧
      (arguments t).map spell = ["\x7b1, 2\x7d"] ∧ texts t = ["\x7b1", "2\x7d"]) ∧
    (parse "A<(a<b)> x;").errors = [] ∧
    ∃ t ∈ (parse "A<(a<b)> x;").tree.preorder, t.kind = .templateArgList ∧
      (arguments t).map spell = ["(a<b)"] ∧ texts t = ["(a<b)>"] := by
  decide +kernel

end TemplateArguments

end CppRefactor
