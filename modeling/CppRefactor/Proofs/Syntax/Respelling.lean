import CppRefactor.Proofs.Syntax.Directives
import CppRefactor.Proofs.Syntax.Scans
import CppRefactor.Syntax.Spelling

/-!
Tokens that are spelled anew and read again. They come back, up to trivia, if and only if each of
them is still the first token of the spelling from it on, and for that only the three tokens behind
it matter.
-/

namespace CppRefactor

open Lexer

variable {t : Token} {ts us : List Token} {cs rest tail : List Char} {offset : Nat}

/-- Tokens as far as they are no trivia: their kinds and texts. -/
def forms (ts : List Token) : List (Kind × String) :=
  (ts.filter (!·.isTrivia)).map fun t => (t.kind, t.text)

theorem forms_cons (t : Token) (ts : List Token) :
    forms (t :: ts) = (if t.isTrivia then [] else [(t.kind, t.text)]) ++ forms ts := by
  unfold forms
  cases h : t.isTrivia <;> simp [h]

theorem forms_append (ts us : List Token) : forms (ts ++ us) = forms ts ++ forms us := by
  simp [forms]

theorem forms_flatMap (f : α → List Token) (as : List α) :
    forms (as.flatMap f) = as.flatMap fun a => forms (f a) := by
  induction as with
  | nil => rfl
  | cons a as ih => rw [List.flatMap_cons, forms_append, ih, List.flatMap_cons]

theorem forms_significant (t : Tree) : forms t.significant = forms t.leaves := by
  simp [forms, Tree.significant]

/-- The forms of the tokens of a text. -/
def readForms (cs : List Char) : List (Kind × String) := forms (tokens 0 0 cs)

theorem forms_tokens (offset : Nat) (cs : List Char) :
    forms (tokens offset 0 cs) = readForms cs := by
  have hmoved := tokens_movedBy 0 offset 0 cs
  rw [Nat.zero_add] at hmoved
  rw [readForms, hmoved, forms, forms, List.filter_map, List.map_map]
  rfl

theorem readForms_eq (h : cs ≠ []) :
    readForms cs =
      (if (scan cs).1.isTrivia then [] else [((scan cs).1, .ofList (cs.take (scan cs).2))]) ++
        readForms (cs.drop (scan cs).2) := by
  rw [readForms, tokens_cons 0 h, forms_cons, forms_tokens]
  rfl

/-- A token as a scan finds it in some text. -/
structure Token.IsRead (t : Token) : Prop where
  ne : t.text.toList ≠ []
  found : ∃ rest, scan (t.text.toList ++ rest) = (t.kind, t.text.toList.length)

theorem Lexer.Lexes.isRead (h : Lexes offset cs ts) : ∀ t ∈ ts, t.IsRead := by
  induction h with
  | done => exact nofun
  | @token cs t offset ts hcs hn ht hts ih =>
    subst ht
    refine List.forall_mem_cons.mpr ⟨⟨?_, cs.drop (scan cs).2, ?_⟩, ih⟩
    · rw [String.toList_ofList, Ne, List.take_eq_nil_iff, not_or]
      exact ⟨Nat.pos_iff_ne_zero.mp hn, hcs⟩
    · rw [String.toList_ofList, List.take_append_drop, List.length_take,
        Nat.min_eq_left (scan_le cs)]

theorem tokenize_isRead (text : String) : ∀ t ∈ tokenize text, t.IsRead :=
  (tokens_lexes 0 0 text.toList).isRead

theorem Token.IsRead.head (h : t.IsRead) (ht : t.isTrivia = false) :
    ∀ c ∈ t.text.toList.head?, isSpace c = false := by
  intro c hc
  obtain ⟨cs, hcs⟩ := List.head?_eq_some_iff.mp hc
  obtain ⟨rest, hfound⟩ := h.found
  rw [Bool.eq_false_iff]
  intro hspace
  rw [hcs, List.cons_append, scan_space hspace] at hfound
  have hkind : t.kind = .whitespace := (congrArg Prod.fst hfound).symm
  rw [Token.isTrivia, hkind] at ht
  cases ht

theorem toList_spell_cons (t : Token) (ts : List Token) :
    (spell (t :: ts)).toList = t.text.toList ++ (spellAfter t.kind ts).toList := by
  rw [spell, String.toList_append]

theorem toList_spellAfter_cons (last : Kind) (t : Token) (ts : List Token) :
    (spellAfter last (t :: ts)).toList =
      (if spaced last t.kind then [' '] else []) ++ (spell (t :: ts)).toList := by
  rw [spellAfter, toList_spell_cons, String.toList_append, String.toList_append, List.append_assoc]
  split <;> rfl

theorem toList_spellAfter_of_not_spaced {last : Kind} (h : spaced last t.kind = false)
    (ts : List Token) :
    (spellAfter last (t :: ts)).toList = t.text.toList ++ (spellAfter t.kind ts).toList := by
  rw [toList_spellAfter_cons, h, if_neg Bool.false_ne_true, List.nil_append, toList_spell_cons]

/-- Each token is the first one of the spelling of it and those behind it, before a tail. -/
def Clear (tail : List Char) : List Token → Prop
  | [] => True
  | t :: ts =>
    scan ((spell (t :: ts)).toList ++ tail) = (t.kind, t.text.toList.length) ∧ Clear tail ts

theorem clear_cons : Clear tail (t :: ts) ↔
    scan (t.text.toList ++ ((spellAfter t.kind ts).toList ++ tail)) =
      (t.kind, t.text.toList.length) ∧ Clear tail ts := by
  rw [Clear, toList_spell_cons, List.append_assoc]

theorem readForms_drop_run (cs : List Char) :
    readForms (cs.drop (run isSpace cs)) = readForms cs := by
  cases cs with
  | nil => rfl
  | cons c cs =>
    cases hc : isSpace c with
    | true =>
      rw [readForms_eq (List.cons_ne_nil c cs), scan_space hc]
      rfl
    | false => rw [run_cons_of_neg hc, List.drop_zero]

theorem readForms_space (cs : List Char) : readForms (' ' :: cs) = readForms cs := by
  rw [← readForms_drop_run (' ' :: cs), run_cons_of_pos rfl, List.drop_succ_cons,
    readForms_drop_run]

theorem readForms_token (hread : t.IsRead) (ht : t.isTrivia = false)
    (h : scan (t.text.toList ++ rest) = (t.kind, t.text.toList.length)) :
    readForms (t.text.toList ++ rest) = (t.kind, t.text) :: readForms rest := by
  have hkind : t.kind.isTrivia = false := ht
  rw [readForms_eq (List.append_ne_nil_of_left_ne_nil hread.ne rest), h]
  simp only [hkind, List.take_left, List.drop_left, String.ofList_toList]
  rfl

theorem readForms_spellAfter (last : Kind) (ts : List Token) (tail : List Char) :
    readForms ((spellAfter last ts).toList ++ tail) = readForms ((spell ts).toList ++ tail) := by
  cases ts with
  | nil => rfl
  | cons t ts =>
    rw [toList_spellAfter_cons, List.append_assoc]
    split
    · exact readForms_space _
    · rfl

theorem readForms_spellAfter_end (last : Kind) (ts : List Token) :
    readForms (spellAfter last ts).toList = readForms (spell ts).toList := by
  have h := readForms_spellAfter last ts []
  rwa [List.append_nil, List.append_nil] at h

theorem readForms_of_clear (hread : ∀ t ∈ ts, t.IsRead) (hts : ∀ t ∈ ts, t.isTrivia = false)
    (h : Clear tail ts) (last : Kind) :
    readForms ((spellAfter last ts).toList ++ tail) = forms ts ++ readForms tail := by
  induction ts generalizing last with
  | nil => rfl
  | cons t ts ih =>
    obtain ⟨ht, hts⟩ := List.forall_mem_cons.mp hts
    obtain ⟨hreadt, hread⟩ := List.forall_mem_cons.mp hread
    obtain ⟨hscan, h⟩ := clear_cons.mp h
    rw [readForms_spellAfter, toList_spell_cons, List.append_assoc,
      readForms_token hreadt ht hscan, ih hread hts h t.kind, forms_cons, ht]
    rfl

/-- The characters that are no spaces. -/
def ink (cs : List Char) : Nat := cs.countP (· ≠ ' ')

def inkOf (forms : List (Kind × String)) : Nat := ink (forms.flatMap fun f => f.2.toList)

@[simp] theorem ink_append (cs ds : List Char) : ink (cs ++ ds) = ink cs + ink ds :=
  List.countP_append

theorem inkOf_append (fs gs : List (Kind × String)) : inkOf (fs ++ gs) = inkOf fs + inkOf gs := by
  simp [inkOf]

theorem inkOf_readForms_le (cs : List Char) : inkOf (readForms cs) ≤ ink cs := by
  induction cs using scan_induction with
  | nil => exact Nat.le_refl 0
  | token cs hcs ih =>
    have hsplit : ink cs = ink (cs.take (scan cs).2) + ink (cs.drop (scan cs).2) := by
      rw [← ink_append, List.take_append_drop]
    rw [readForms_eq hcs, inkOf_append, hsplit]
    refine Nat.add_le_add ?_ ih
    split
    · exact Nat.zero_le _
    · simp [inkOf]

theorem ink_spellAfter (hts : ∀ t ∈ ts, t.isTrivia = false) (last : Kind) :
    ink (spellAfter last ts).toList = inkOf (forms ts) := by
  induction ts generalizing last with
  | nil => rfl
  | cons t ts ih =>
    obtain ⟨ht, hts⟩ := List.forall_mem_cons.mp hts
    have hspace : ink (if spaced last t.kind then [' '] else []) = 0 := by split <;> rfl
    rw [toList_spellAfter_cons, toList_spell_cons, ink_append, ink_append, hspace, ih hts,
      forms_cons, ht, inkOf_append]
    simp [inkOf]

/-- A text that goes on from a token that is no trivia is read without loss of ink only if no
trivia takes its front. -/
theorem not_trivia_of_ink (hread : t.IsRead) (ht : t.isTrivia = false)
    (h : inkOf (readForms (t.text.toList ++ rest)) = ink (t.text.toList ++ rest)) :
    (scan (t.text.toList ++ rest)).1.isTrivia = false := by
  rw [Bool.eq_false_iff]
  intro htrivia
  have hne := List.append_ne_nil_of_left_ne_nil hread.ne rest
  rw [readForms_eq hne, if_pos htrivia, List.nil_append] at h
  obtain ⟨c, cs, hcs⟩ := List.exists_cons_of_ne_nil hread.ne
  have hspace := hread.head ht c (by rw [hcs]; rfl)
  have hc : c ≠ ' ' := by
    rintro rfl
    cases hspace
  rw [hcs, List.cons_append] at h
  have hpos := scan_pos c (cs ++ rest)
  have hle := inkOf_readForms_le ((c :: (cs ++ rest)).drop (scan (c :: (cs ++ rest))).2)
  obtain ⟨n, hn⟩ := Nat.exists_eq_succ_of_ne_zero (Nat.pos_iff_ne_zero.mp hpos)
  have hsplit : ink (c :: (cs ++ rest)) =
      1 + ink ((cs ++ rest).take n) + ink ((cs ++ rest).drop n) := by
    rw [Nat.add_assoc, ← ink_append, List.take_append_drop]
    simp [ink, hc, Nat.add_comm]
  rw [hn, List.drop_succ_cons] at h hle
  omega

theorem clear_of_readForms (hread : ∀ t ∈ ts, t.IsRead) (hts : ∀ t ∈ ts, t.isTrivia = false)
    (last : Kind) (h : readForms (spellAfter last ts).toList = forms ts) : Clear [] ts := by
  induction ts generalizing last with
  | nil => trivial
  | cons t ts ih =>
    obtain ⟨ht, hrest⟩ := List.forall_mem_cons.mp hts
    obtain ⟨hreadt, hread⟩ := List.forall_mem_cons.mp hread
    rw [readForms_spellAfter_end, toList_spell_cons] at h
    have hink : inkOf (forms (t :: ts)) = ink (t.text.toList ++ (spellAfter t.kind ts).toList) := by
      rw [ink_append, ink_spellAfter hrest, forms_cons, ht, inkOf_append]
      simp [inkOf]
    have htrivia := not_trivia_of_ink hreadt ht (h ▸ hink)
    rw [readForms_eq (List.append_ne_nil_of_left_ne_nil hreadt.ne _), htrivia, forms_cons, ht] at h
    obtain ⟨hfirst, hrests⟩ := List.cons.inj h
    obtain ⟨hkind, htext⟩ := Prod.mk.inj hfirst
    have htake := congrArg String.toList htext
    rw [String.toList_ofList] at htake
    have hlen := congrArg List.length htake
    rw [List.length_take, Nat.min_eq_left (scan_le _)] at hlen
    rw [hlen, List.drop_left] at hrests
    refine clear_cons.mpr ⟨?_, ih hread hrest t.kind hrests⟩
    rw [List.append_nil]
    exact Prod.ext hkind hlen

theorem readForms_spell_iff (hread : ∀ t ∈ ts, t.IsRead) (hts : ∀ t ∈ ts, t.isTrivia = false) :
    readForms (spell ts).toList = forms ts ↔ Clear [] ts := by
  rw [← readForms_spellAfter_end .error]
  refine ⟨clear_of_readForms hread hts .error, fun h => ?_⟩
  have hback := readForms_of_clear hread hts h .error
  rwa [List.append_nil, show readForms [] = [] from rfl, List.append_nil] at hback

theorem spellAfter_append (last : Kind) (ts us : List Token) :
    (spellAfter last ts).toList <+: (spellAfter last (ts ++ us)).toList := by
  induction ts generalizing last with
  | nil => exact List.nil_prefix
  | cons t ts ih =>
    rw [List.cons_append, toList_spellAfter_cons, toList_spellAfter_cons, toList_spell_cons,
      toList_spell_cons, List.prefix_append_right_inj, List.prefix_append_right_inj]
    exact ih t.kind

theorem length_le_spellAfter (hread : ∀ t ∈ ts, t.IsRead) (last : Kind) :
    ts.length ≤ (spellAfter last ts).toList.length := by
  induction ts generalizing last with
  | nil => exact Nat.zero_le _
  | cons t ts ih =>
    obtain ⟨ht, hts⟩ := List.forall_mem_cons.mp hread
    have hpos := List.length_pos_iff.mpr ht.ne
    have hle := ih hts t.kind
    rw [toList_spellAfter_cons, toList_spell_cons]
    simp only [List.length_append, List.length_cons]
    omega

theorem scan_window (hread : ∀ u ∈ us, u.IsRead) (t : Token) :
    scan (spell (t :: us.take 3)).toList = (t.kind, t.text.toList.length) ↔
      scan (spell (t :: us)).toList = (t.kind, t.text.toList.length) := by
  by_cases hlen : us.length ≤ 3
  · rw [List.take_of_length_le hlen]
  · have hstarts := spellAfter_append t.kind (us.take 3) (us.drop 3)
    rw [List.take_append_drop] at hstarts
    obtain ⟨more, hmore⟩ := hstarts
    have hsplit : (spell (t :: us)).toList = (spell (t :: us.take 3)).toList ++ more := by
      rw [toList_spell_cons, toList_spell_cons, List.append_assoc, hmore]
    have hthree : (us.take 3).length ≤ (spellAfter t.kind (us.take 3)).toList.length :=
      length_le_spellAfter (fun u hu => hread u (List.mem_of_mem_take hu)) t.kind
    have hle : t.text.toList.length + 3 ≤ (spell (t :: us.take 3)).toList.length := by
      rw [List.length_take, Nat.min_eq_left (Nat.le_of_not_le hlen)] at hthree
      rw [toList_spell_cons, List.length_append]
      omega
    rw [hsplit]
    generalize (spell (t :: us.take 3)).toList = front at hle
    constructor
    · intro h
      have hlocal : scan (front ++ more) = scan (front ++ []) :=
        scan_local (by rwa [List.append_nil, h])
      rw [hlocal, List.append_nil, h]
    · intro h
      have hlocal : scan (front ++ []) = scan (front ++ more) := scan_local (by rwa [h])
      rw [← List.append_nil front, hlocal, h]

/-- Each token is the first one of its spelling with the three tokens behind it. -/
def ClearAhead : List Token → Prop
  | [] => True
  | t :: ts =>
    scan (spell (t :: ts.take 3)).toList = (t.kind, t.text.toList.length) ∧ ClearAhead ts

instance decidableClearAhead : (ts : List Token) → Decidable (ClearAhead ts)
  | [] => isTrue trivial
  | t :: ts =>
    have := decidableClearAhead ts
    inferInstanceAs (Decidable (scan (spell (t :: ts.take 3)).toList = _ ∧ ClearAhead ts))

theorem clearAhead_iff (hread : ∀ t ∈ ts, t.IsRead) : ClearAhead ts ↔ Clear [] ts := by
  induction ts with
  | nil => exact Iff.rfl
  | cons t ts ih =>
    obtain ⟨-, hts⟩ := List.forall_mem_cons.mp hread
    rw [ClearAhead, Clear, List.append_nil, scan_window hts t, ih hts]

end CppRefactor
