import CppRefactor.Syntax.Lexer

/-!
The tokens of a text: scans of it, one behind the other, that together spell it.
-/

namespace CppRefactor

/-- Tokens that stand one behind the other from an offset on, none of them empty. -/
def Consecutive : Nat → List Token → Prop
  | _, [] => True
  | offset, t :: ts => t.offset = offset ∧ t.text ≠ "" ∧ Consecutive t.stop ts

namespace Lexer

theorem run_pos (h : p c = true) : 0 < run p (c :: cs) := by
  simp [run, h]

theorem literalAt_pos (h : literalAt skip cs = some found) : 0 < found.2 := by
  unfold literalAt at h
  split at h
  · cases h
    exact Nat.lt_of_lt_of_le (Nat.succ_pos skip) (Nat.le_add_right _ _)
  · cases h
    exact Nat.lt_of_lt_of_le (Nat.succ_pos skip) (Nat.le_add_right _ _)
  · cases h

theorem suffixed_pos (h : isDigit c = true) : 0 < suffixed isDigit (c :: cs) :=
  Nat.lt_of_lt_of_le (run_pos h) (Nat.le_add_right _ _)

theorem integer_pos (h : c.isDigit = true) : 0 < integer (c :: cs) := by
  have hd : isDigitOrQuote c = true := by simp [isDigitOrQuote, h]
  unfold integer
  split
  · split
    · omega
    · split
      · omega
      · rename_i he _ _
        cases he
        exact suffixed_pos hd
  · exact suffixed_pos hd

theorem number_pos (h : c.isDigit = true) : 0 < (number (c :: cs)).2 := by
  have hn : 0 < integer (c :: cs) := integer_pos h
  simp only [number]
  split
  · rename_i hm
    exact Nat.lt_trans hn hm
  · exact hn

theorem float_pos (cs : List Char) : 0 < float ('.' :: cs) := by
  have hw : run isDigitOrQuote ('.' :: cs) = 0 := rfl
  simp only [float, hw, List.drop_zero]
  omega

theorem punctuation_pos : ∀ spelled ∈ punctuation, 0 < spelled.1.length := by decide

theorem punctuationAt_pos (cs : List Char) : 0 < ((punctuationAt cs).getD (.error, 1)).2 := by
  cases hp : punctuationAt cs with
  | none => exact Nat.one_pos
  | some found =>
    obtain ⟨spelled, hf, rfl⟩ := Option.map_eq_some_iff.mp hp
    exact punctuation_pos spelled (List.mem_of_find?_eq_some hf)

theorem scan_pos (c : Char) (cs : List Char) : 0 < (scan (c :: cs)).2 := by
  simp only [scan]
  split
  · rename_i hl
    exact literalAt_pos hl
  · by_cases hs : isSpace c = true
    · rw [if_pos hs]
      exact run_pos hs
    · rw [if_neg hs]
      by_cases hi : Text.startsIdentifier c = true
      · rw [if_pos hi]
        exact run_pos (Text.continuesIdentifier_of_startsIdentifier hi)
      · rw [if_neg hi]
        by_cases hd : c.isDigit = true
        · rw [if_pos hd]
          exact number_pos hd
        · rw [if_neg hd]
          split
          · exact run_pos rfl
          · exact Nat.lt_of_lt_of_le Nat.two_pos (Nat.le_add_right _ _)
          · exact Nat.lt_of_lt_of_le Nat.one_pos (Nat.le_add_right _ _)
          · split
            · exact float_pos _
            · exact punctuationAt_pos _
          · exact punctuationAt_pos _

/-- What holds of characters if it holds of those that are left behind the first token. -/
@[elab_as_elim]
theorem scan_induction {motive : List Char → Prop} (nil : motive [])
    (token : ∀ cs, cs ≠ [] → motive (cs.drop (scan cs).2) → motive cs) (cs : List Char) :
    motive cs := by
  induction hn : cs.length using Nat.strongRecOn generalizing cs with
  | ind n ih =>
    cases cs with
    | nil => exact nil
    | cons c cs =>
      have hpos := scan_pos c cs
      refine token _ (List.cons_ne_nil c cs) (ih _ ?_ _ rfl)
      rw [List.length_drop, ← hn, List.length_cons]
      omega

theorem tokens_drop (offset skip : Nat) (cs : List Char) :
    tokens offset skip cs = tokens offset 0 (cs.drop skip) := by
  induction cs generalizing skip with
  | nil => rw [List.drop_nil, tokens, tokens]
  | cons c cs ih =>
    cases skip with
    | zero => rfl
    | succ skip => exact ih skip

/-- The first token is what a scan finds, and the others are those of what is left. -/
theorem tokens_cons (offset : Nat) (h : cs ≠ []) :
    let t : Token := ⟨(scan cs).1, offset, .ofList (cs.take (scan cs).2)⟩
    tokens offset 0 cs = t :: tokens t.stop 0 (cs.drop (scan cs).2) := by
  cases cs with
  | nil => exact absurd rfl h
  | cons c cs =>
    have hn := scan_pos c cs
    have htake : c :: cs.take ((scan (c :: cs)).2 - 1) = (c :: cs).take (scan (c :: cs)).2 := by
      rw [← List.take_succ_cons, Nat.sub_one_add_one_eq_of_pos hn]
    have hdrop : cs.drop ((scan (c :: cs)).2 - 1) = (c :: cs).drop (scan (c :: cs)).2 := by
      rw [← List.drop_succ_cons (a := c), Nat.sub_one_add_one_eq_of_pos hn]
    rw [tokens]
    simp only [htake]
    rw [tokens_drop, hdrop]
    rfl

/-- The tokens of characters from an offset on: what a scan finds, and those of what is left. -/
inductive Lexes : Nat → List Char → List Token → Prop
  | done : Lexes offset [] []
  | token (hcs : cs ≠ []) (hn : 0 < (scan cs).2)
      (ht : t = ⟨(scan cs).1, offset, .ofList (cs.take (scan cs).2)⟩)
      (hts : Lexes t.stop (cs.drop (scan cs).2) ts) : Lexes offset cs (t :: ts)

theorem tokens_lexes (offset skip : Nat) (cs : List Char) :
    Lexes offset (cs.drop skip) (tokens offset skip cs) := by
  rw [tokens_drop]
  induction cs.drop skip using scan_induction generalizing offset with
  | nil =>
    rw [tokens]
    exact .done
  | token cs hcs ih =>
    have hpos : 0 < (scan cs).2 := by
      cases cs with
      | nil => exact absurd rfl hcs
      | cons c cs => exact scan_pos c cs
    rw [tokens_cons offset hcs]
    exact .token hcs hpos rfl (ih _)

theorem Lexes.consecutive (h : Lexes offset cs ts) : Consecutive offset ts := by
  induction h with
  | done => exact trivial
  | token hcs hn ht hts ih =>
    subst ht
    refine ⟨rfl, ?_, ih⟩
    intro he
    have hl := congrArg String.toList he
    simp only [String.toList_ofList, String.toList_empty, List.take_eq_nil_iff] at hl
    rcases hl with hl | hl
    · omega
    · exact hcs hl

theorem Lexes.spells (h : Lexes offset cs ts) : String.join (ts.map (·.text)) = .ofList cs := by
  induction h with
  | done => rfl
  | token hcs hn ht hts ih =>
    subst ht
    rw [List.map_cons, String.join_cons, ih, ← String.ofList_append, List.take_append_drop]

end Lexer

theorem tokenize_consecutive (text : String) : Consecutive 0 (tokenize text) :=
  (Lexer.tokens_lexes 0 0 text.toList).consecutive

theorem tokenize_spells (text : String) : String.join ((tokenize text).map (·.text)) = text := by
  have h := (Lexer.tokens_lexes 0 0 text.toList).spells
  rwa [List.drop_zero, String.ofList_toList] at h

end CppRefactor
