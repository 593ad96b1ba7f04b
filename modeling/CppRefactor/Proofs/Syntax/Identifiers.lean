import CppRefactor.Proofs.Syntax.Tokens
import Mathlib.Data.List.TakeWhile

/-!
Texts that are one identifier: a letter or an underscore, then characters of identifiers, and no
keyword.
-/

namespace CppRefactor

/-- The text is one token, which is an identifier. -/
def IsIdentifier (s : String) : Prop := tokenize s = [⟨.ident, 0, s⟩]

instance (s : String) : Decidable (IsIdentifier s) :=
  inferInstanceAs (Decidable (tokenize s = [⟨.ident, 0, s⟩]))

/-- A keyword is of its own kind, and none begins as the names of accessors do. -/
theorem Kind.keyword?_spelling (h : Kind.keyword? s = some k) :
    k.isKeyword = true ∧ s.toList.take 3 ≠ "get".toList ∧ s.toList.take 3 ≠ "set".toList := by
  unfold Kind.keyword? at h
  split at h <;> cases h <;> decide

namespace Lexer

variable {c : Char} {cs : List Char}

theorem literalAt_kind (h : literalAt skip cs = some found) :
    found.1 ≠ .ident ∧ found.1 ≠ .preproc := by
  unfold literalAt at h
  split at h
  · cases h
    dsimp only
    split <;> exact ⟨nofun, nofun⟩
  · cases h
    dsimp only
    split <;> exact ⟨nofun, nofun⟩
  · cases h

theorem number_kind (cs : List Char) : (number cs).1 ≠ .ident ∧ (number cs).1 ≠ .preproc := by
  unfold number
  dsimp only
  split <;> exact ⟨nofun, nofun⟩

theorem punctuation_kind :
    ∀ spelled ∈ punctuation, spelled.2 ≠ .ident ∧ spelled.2 ≠ .preproc := by decide

theorem punctuationAt_kind (cs : List Char) :
    ((punctuationAt cs).getD (.error, 1)).1 ≠ .ident ∧
      ((punctuationAt cs).getD (.error, 1)).1 ≠ .preproc := by
  cases hp : punctuationAt cs with
  | none => exact ⟨nofun, nofun⟩
  | some found =>
    obtain ⟨spelled, hf, rfl⟩ := Option.map_eq_some_iff.mp hp
    exact punctuation_kind spelled (List.mem_of_find?_eq_some hf)

/-- A token that is an identifier or a directive is told by its first character. -/
inductive Begins : List Char → Prop
  | word {c : Char} {cs : List Char} (hc : Text.startsIdentifier c = true)
      (hscan : scan (c :: cs) = identifier (c :: cs)) : Begins (c :: cs)
  | hash (cs : List Char) : Begins ('#' :: cs)
  | other {cs : List Char} (h : (scan cs).1 ≠ .ident ∧ (scan cs).1 ≠ .preproc) : Begins cs

theorem begins (cs : List Char) : Begins cs := by
  have hscan := scan.eq_def cs
  split at hscan
  · rename_i hl
    exact .other (hscan ▸ literalAt_kind hl)
  · split at hscan
    · exact .other (hscan ▸ ⟨nofun, nofun⟩)
    · split at hscan
      · exact .other (hscan ▸ ⟨nofun, nofun⟩)
      · split at hscan
        · rename_i hc
          exact .word hc hscan
        · split at hscan
          · exact .other (hscan ▸ number_kind _)
          · split at hscan
            · exact .other (hscan ▸ ⟨nofun, nofun⟩)
            · exact .other (hscan ▸ ⟨nofun, nofun⟩)
            · exact .hash _
            · split at hscan
              · exact .other (hscan ▸ ⟨nofun, nofun⟩)
              · exact .other (hscan ▸ punctuationAt_kind _)
            · exact .other (hscan ▸ punctuationAt_kind _)

theorem take_run (p : Char → Bool) (cs : List Char) : cs.take (run p cs) = cs.takeWhile p :=
  (List.prefix_iff_eq_take.mp (List.takeWhile_prefix p)).symm

theorem keyword?_of_identifier (h : (identifier cs).1 = .ident) :
    Kind.keyword? (.ofList (cs.take (run Text.continuesIdentifier cs))) = none := by
  unfold identifier at h
  dsimp only at h
  cases hk : Kind.keyword? (.ofList (cs.take (run Text.continuesIdentifier cs))) with
  | none => rfl
  | some kind =>
    rw [hk] at h
    obtain rfl : kind = .ident := h
    exact nomatch (Kind.keyword?_spelling hk).1

theorem identifier_ne_preproc (cs : List Char) : (identifier cs).1 ≠ .preproc := by
  unfold identifier
  dsimp only
  cases hk : Kind.keyword? (.ofList (cs.take (run Text.continuesIdentifier cs))) with
  | none => exact nofun
  | some kind =>
    rintro rfl
    exact nomatch (Kind.keyword?_spelling hk).1

theorem literalAt_word (h : ∀ d ∈ cs, Text.continuesIdentifier d = true) (skip : Nat) :
    literalAt skip cs = none := by
  unfold literalAt
  split
  · rename_i hdrop
    have hquote := h '"' (List.mem_of_mem_drop (hdrop ▸ List.mem_cons_self))
    exact absurd hquote (by decide)
  · rename_i hdrop
    have hquote := h '\'' (List.mem_of_mem_drop (hdrop ▸ List.mem_cons_self))
    exact absurd hquote (by decide)
  · rfl

theorem scan_word (hc : Text.startsIdentifier c = true)
    (h : ∀ d ∈ c :: cs, Text.continuesIdentifier d = true) :
    scan (c :: cs) = identifier (c :: cs) := by
  have hspace : isSpace c = false := by
    rw [Bool.eq_false_iff]
    intro hspace
    simp only [isSpace, Bool.or_eq_true, beq_iff_eq] at hspace
    rcases hspace with (((rfl | rfl) | rfl) | rfl) | rfl <;> exact nomatch hc
  rw [scan.eq_def, literalAt_word h]
  simp only [hspace, hc, if_true, Bool.false_eq_true, if_false]

end Lexer

open Lexer in
theorem isIdentifier_iff {s : String} : IsIdentifier s ↔
    (∃ c ∈ s.toList.head?, Text.startsIdentifier c = true) ∧
      (∀ c ∈ s.toList, Text.continuesIdentifier c = true) ∧ Kind.keyword? s = none := by
  unfold IsIdentifier tokenize
  cases hs : s.toList with
  | nil => simp [tokens]
  | cons c cs =>
    have htokens := tokens_cons 0 (List.cons_ne_nil c cs)
    constructor
    · intro h
      obtain ⟨hfirst, -⟩ := List.cons.inj (htokens.symm.trans h)
      obtain ⟨hkind, -, htext⟩ := Token.mk.inj hfirst
      cases begins (c :: cs) with
      | hash => cases hkind
      | other hother => exact absurd hkind hother.1
      | word hc hscan =>
        rw [hscan] at hkind htext
        have htake : (c :: cs).take (run Text.continuesIdentifier (c :: cs)) = c :: cs := by
          have hlist := congrArg String.toList htext
          rwa [String.toList_ofList, hs] at hlist
        have hkeyword := keyword?_of_identifier hkind
        rw [htake, ← hs, String.ofList_toList] at hkeyword
        rw [take_run] at htake
        exact ⟨⟨c, rfl, hc⟩, List.takeWhile_eq_self_iff.mp htake, hkeyword⟩
    · rintro ⟨⟨first, hfirst, hc⟩, hall, hkeyword⟩
      obtain rfl : c = first := Option.some.inj hfirst
      have hrun : run Text.continuesIdentifier (c :: cs) = (c :: cs).length :=
        congrArg List.length (List.takeWhile_eq_self_iff.mpr hall)
      rw [htokens, scan_word hc hall, identifier, hrun, List.take_length, List.drop_length, ← hs,
        String.ofList_toList, hkeyword, tokens]
      rfl

end CppRefactor
