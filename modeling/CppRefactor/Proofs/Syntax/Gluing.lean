import CppRefactor.Proofs.Syntax.Apart
import CppRefactor.Proofs.Syntax.Respelling

/-!
Which tokens glue: written without a space between them, they are not read again as they were. A
spelling without such neighbours is read back as the tokens it is made of.
-/

namespace CppRefactor

namespace Lexer

variable {c : Char} {cs t orig rest : List Char} {k : Kind} {n : Nat} {spelled : List Char × Kind}

theorem punctuation_sorted : punctuation.Pairwise fun a b => b.1.length ≤ a.1.length := by decide

theorem punctuation_distinct : ∀ a ∈ punctuation, ∀ b ∈ punctuation, a.1 = b.1 → a = b := by
  decide +kernel

theorem find?_longest (h : punctuation.find? (fun s => s.1.isPrefixOf cs) = some spelled) :
    ∀ other ∈ punctuation, other.1 <+: cs → other.1.length ≤ spelled.1.length := by
  obtain ⟨-, before, behind, hsplit, hbefore⟩ := List.find?_eq_some_iff_append.mp h
  intro other hother hstarts
  have hsorted := hsplit ▸ punctuation_sorted
  rw [hsplit] at hother
  rcases List.mem_append.mp hother with hother | hother
  · have hno := hbefore other hother
    rw [List.isPrefixOf_iff_prefix.mpr hstarts] at hno
    cases hno
  · rcases List.mem_cons.mp hother with rfl | hother
    · exact Nat.le_refl _
    · exact (List.pairwise_cons.mp (List.pairwise_append.mp hsorted).2.1).1 other hother

theorem punctuationAt_longest (h : spelled ∈ punctuation) (hstarts : spelled.1 <+: cs) :
    ∃ found ∈ punctuation, punctuationAt cs = some (found.2, found.1.length) ∧ found.1 <+: cs ∧
      spelled.1.length ≤ found.1.length := by
  cases hfind : punctuation.find? (fun s => s.1.isPrefixOf cs) with
  | none =>
    have hno := List.find?_eq_none.mp hfind spelled h
    exact absurd (List.isPrefixOf_iff_prefix.mpr hstarts) hno
  | some found =>
    refine ⟨found, List.mem_of_find?_eq_some hfind, ?_, ?_, find?_longest hfind spelled h hstarts⟩
    · exact congrArg (Option.map _) hfind
    · have hfound := List.find?_some hfind
      exact List.isPrefixOf_iff_prefix.mp hfound

theorem punctuationAt_eq (h : spelled ∈ punctuation)
    (hno : ∀ longer ∈ punctuation, spelled.1 <+: longer.1 →
      spelled.1.length < longer.1.length → ¬longer.1 <+: spelled.1 ++ rest) :
    punctuationAt (spelled.1 ++ rest) = some (spelled.2, spelled.1.length) := by
  obtain ⟨found, hfound, hat, hstarts, hle⟩ :=
    punctuationAt_longest h (List.prefix_append spelled.1 rest)
  have hsame : spelled.1 <+: found.1 :=
    List.prefix_of_prefix_length_le (List.prefix_append spelled.1 rest) hstarts hle
  have hlen : found.1.length ≤ spelled.1.length :=
    Nat.le_of_not_lt fun hlt => hno found hfound hsame hlt hstarts
  have heq := hsame.eq_of_length (Nat.le_antisymm hle hlen)
  rw [hat, punctuation_distinct found hfound spelled h heq.symm]

/-- What may not follow a punctuation directly: the two would be read as another token. -/
def gluing : List (String × String) :=
  [(":", ":"), ("-", ">"), ("-", "-"), ("-", "="), ("=", "="), ("!", "="), ("<", "<"), ("<", "="),
   (">", "="), (">", ">="), ("<<", "="), ("&", "&"), ("&", "="), ("|", "|"), ("|", "="),
   ("+", "+"), ("+", "="), ("*", "="), ("/", "="), ("/", "/"), ("/", "*"), ("%", "="), ("^", "="),
   (".", ".."), (".", "0"), (".", "1"), (".", "2"), (".", "3"), (".", "4"), (".", "5"), (".", "6"),
   (".", "7"), (".", "8"), (".", "9")]

theorem gluing_complete : ∀ spelled ∈ punctuation, ∀ longer ∈ punctuation,
    spelled.1 <+: longer.1 → spelled.1.length < longer.1.length →
      ∃ pair ∈ gluing, pair.1.toList = spelled.1 ∧
        pair.2.toList <+: longer.1.drop spelled.1.length := by
  decide +kernel

theorem gluing_sound : ∀ pair ∈ gluing,
    (∃ longer ∈ punctuation, 0 < pair.1.toList.length ∧
      pair.1.toList.length < longer.1.length ∧ longer.1 <+: pair.1.toList ++ pair.2.toList) ∨
    pair = ("/", "/") ∨ pair = ("/", "*") ∨
    pair.1 = "." ∧ pair.2.toList.head?.any Char.isDigit = true := by
  decide +kernel

theorem gluing_next : ∀ pair ∈ gluing,
    ' ' ∉ pair.2.toList ∧ 0 < pair.2.toList.length ∧
      (pair.2.toList.length = 1 ∨ pair = (">", ">=") ∨ pair = (".", "..")) := by
  decide +kernel

theorem punctuation_mark (h : spelled ∈ punctuation) :
    (∀ c ∈ spelled.1.head?, isQuote c = false ∧ isSpace c = false ∧
      Text.startsIdentifier c = false ∧ Text.continuesIdentifier c = false ∧
      c.isDigit = false ∧ c ≠ '#') ∧
    ∀ d ∈ spelled.1.tail.head?, d ≠ '/' ∧ d ≠ '*' ∧ d.isDigit = false := by
  have hall : ∀ spelled ∈ punctuation,
      spelled.1.head?.all (fun c => !(isQuote c || isSpace c || Text.startsIdentifier c ||
        Text.continuesIdentifier c || c.isDigit || c == '#')) = true ∧
      spelled.1.tail.head?.all (fun d => !(d == '/' || d == '*' || d.isDigit)) = true := by
    decide +kernel
  simpa [Option.all_eq_true, and_assoc] using hall spelled h

theorem gluing_digit (h : c.isDigit = true) :
    ∃ pair ∈ gluing, pair.1 = "." ∧ pair.2.toList = [c] := by
  have hc := of_ascii
    (fun c => !c.isDigit || gluing.any fun pair => pair.1 == "." && pair.2.toList == [c])
    (by decide +kernel) (toNat_lt_of_isDigit h)
  simpa [h] using hc

theorem isMark_punctuation (h : spelled ∈ punctuation) (hs : spelled.1 = c :: cs)
    (hrest : cs = [] → ∀ d ∈ rest.head?, (c = '/' → d ≠ '/' ∧ d ≠ '*') ∧
      (c = '.' → d.isDigit = false)) : IsMark c (cs ++ rest) := by
  obtain ⟨hhead, htail⟩ := punctuation_mark h
  rw [hs] at hhead htail
  obtain ⟨hquote, hspace, hword, -, hdigit, hhash⟩ := hhead c rfl
  have hnext (d : Char) (hd : d ∈ (cs ++ rest).head?) :
      (c = '/' → d ≠ '/' ∧ d ≠ '*') ∧ (c = '.' → d.isDigit = false) := by
    cases cs with
    | nil => exact hrest rfl d hd
    | cons e cs =>
      obtain ⟨hslash, hstar, hdigit⟩ := htail d hd
      exact ⟨fun _ => ⟨hslash, hstar⟩, fun _ => hdigit⟩
  exact ⟨hquote, hspace, hword, hdigit, hhash, fun hc d hd => (hnext d hd).1 hc,
    fun hc d hd => (hnext d hd).2 hc⟩

theorem prefix_of_head (h : c ∈ rest.head?) : [c] <+: rest := by
  obtain ⟨more, rfl⟩ := List.head?_eq_some_iff.mp h
  exact List.prefix_append [c] more

theorem scan_punctuation (h : spelled ∈ punctuation)
    (hno : ∀ pair ∈ gluing, pair.1.toList = spelled.1 → ¬pair.2.toList <+: rest) :
    scan (spelled.1 ++ rest) = (spelled.2, spelled.1.length) := by
  have hpunctuation : punctuationAt (spelled.1 ++ rest) = some (spelled.2, spelled.1.length) := by
    refine punctuationAt_eq h fun longer hlonger hsame hlt hstarts => ?_
    obtain ⟨pair, hpair, hfront, hnext⟩ := gluing_complete spelled h longer hlonger hsame hlt
    refine hno pair hpair hfront (hnext.trans ?_)
    obtain ⟨more, hmore⟩ := hsame
    rw [← hmore, List.drop_left]
    rwa [← hmore, List.prefix_append_right_inj] at hstarts
  have hpos := punctuation_pos spelled h
  cases hs : spelled.1 with
  | nil =>
    rw [hs] at hpos
    cases hpos
  | cons c cs =>
    have hmark : IsMark c (cs ++ rest) := by
      refine isMark_punctuation h hs fun hcs d hd => ⟨fun hc => ⟨?_, ?_⟩, fun hc => ?_⟩
      · rintro rfl
        exact hno ("/", "/") (by decide) (by rw [hs, hc, hcs]; rfl) (prefix_of_head hd)
      · rintro rfl
        exact hno ("/", "*") (by decide) (by rw [hs, hc, hcs]; rfl) (prefix_of_head hd)
      · refine Bool.eq_false_iff.mpr fun hdigit => ?_
        obtain ⟨pair, hpair, hpoint, hnext⟩ := gluing_digit hdigit
        exact hno pair hpair (by rw [hpoint, hs, hc, hcs]; rfl) (hnext ▸ prefix_of_head hd)
    have hscan := (Scans.mark hmark).scan_eq
    rw [hs] at hpunctuation
    rwa [← List.cons_append, hpunctuation] at hscan

theorem lt_scan_glued {pair : String × String} (h : pair ∈ gluing)
    (hrest : pair.2.toList <+: rest) :
    pair.1.toList.length < (scan (pair.1.toList ++ rest)).2 := by
  obtain ⟨more, rfl⟩ := hrest
  rcases gluing_sound pair h with
    ⟨longer, hlonger, hpos, hlt, hstarts⟩ | rfl | rfl | ⟨hpoint, hnext⟩
  · rw [← List.append_assoc]
    obtain ⟨more', hmore⟩ := hstarts
    rw [← hmore, List.append_assoc]
    obtain ⟨found, -, hat, -, hle⟩ :=
      punctuationAt_longest hlonger (List.prefix_append longer.1 (more' ++ more))
    cases hs : longer.1 with
    | nil =>
      rw [hs] at hlt
      cases hlt
    | cons c cs =>
      rw [hs] at hat hlt hle
      have hmark : IsMark c (cs ++ (more' ++ more)) := by
        refine isMark_punctuation hlonger hs fun hcs => ?_
        rw [hcs, List.length_singleton] at hlt
        omega
      rw [List.cons_append] at hat ⊢
      rw [(Scans.mark hmark).scan_eq, hat]
      exact Nat.lt_of_lt_of_le hlt hle
  · have hscan : scan ("/".toList ++ ("/".toList ++ more)) =
        (.lineComment, run (· != '\n') ('/' :: '/' :: more)) := rfl
    rw [hscan, run_cons_of_pos rfl, run_cons_of_pos rfl]
    exact Nat.le_add_left 2 _
  · have hscan : scan ("/".toList ++ ("*".toList ++ more)) = (.error, 2 + comment false more) := rfl
    rw [hscan]
    exact Nat.le_add_right 2 _
  · obtain ⟨d, hd, hdigit⟩ := (Option.any_eq_true _ _).mp hnext
    obtain ⟨ds, hds⟩ := List.head?_eq_some_iff.mp hd
    rw [hpoint, hds]
    have hscan := (Scans.point hdigit (ds ++ more)).scan_eq
    exact hscan ▸ one_lt_float_point hdigit (ds ++ more)

theorem punctuation_kinds : ∀ spelled ∈ punctuation,
    spelled.2.isWord = false ∧ spelled.2 ≠ .error := by decide

theorem mark_cases (h : (punctuationAt cs).getD (.error, 1) = (k, n)) :
    k = .error ∨ (cs.take n, k) ∈ punctuation := by
  cases hat : punctuationAt cs with
  | none =>
    rw [hat] at h
    exact .inl (Prod.mk.inj h).1.symm
  | some found =>
    rw [hat] at h
    obtain rfl : found = (k, n) := h
    obtain ⟨spelled, hfind, hfound⟩ := Option.map_eq_some_iff.mp hat
    obtain ⟨rfl, rfl⟩ := Prod.mk.inj hfound
    have hfront := List.find?_some hfind
    have hstarts := List.isPrefixOf_iff_prefix.mp hfront
    rw [← List.prefix_iff_eq_take.mp hstarts]
    exact .inr (List.mem_of_find?_eq_some hfind)

theorem number_of_digits (h : ∀ d ∈ c :: t, isDigitOrQuote d = true)
    (hn : (number (c :: t ++ orig)).2 = (c :: t).length) :
    (number (c :: t ++ orig)).1 = .intNumber := by
  have hrun : (c :: t).length ≤ whole (c :: t ++ orig) := length_le_run h orig
  have hfloat : float (c :: t ++ orig) = 0 ∨ whole (c :: t ++ orig) < float (c :: t ++ orig) :=
    floatBehind_eq_zero_or _ _
  unfold number at hn ⊢
  dsimp only at hn ⊢
  split at hn
  · dsimp only at hn
    omega
  · rename_i hlt
    rw [if_neg hlt]

/-- A word is read before a rest where nothing goes on; behind bare digits that is no point. -/
theorem scan_stops (hscan : scan (t ++ orig) = (k, t.length)) (ht : t ≠ []) (hk : k.isWord = true)
    (hstops : Stops rest)
    (hpoint : k = .intNumber → (∀ d ∈ t, isDigitOrQuote d = true) → '.' ∉ rest.head?) :
    scan (t ++ rest) = (k, t.length) := by
  obtain ⟨c, t, rfl⟩ := List.exists_cons_of_ne_nil ht
  have hscans := scans (c :: t ++ orig)
  generalize hfound : scan (c :: t ++ orig) = found at hscans
  have hends : Ends 1 (c :: t) rest found.2 := by
    rw [← hfound, hscan]
    exact .inr ⟨Nat.le_refl _, hstops⟩
  rw [hscan] at hfound
  refine Scans.scan_eq (hfound ▸ ?_)
  generalize htail : t ++ orig = tail at hscans
  rw [List.cons_append, htail] at hscans
  cases hscans with
  | literal hl =>
    subst htail hfound
    refine .literal (literalAt_local (t := c :: t) hl (.inl ⟨?_, Nat.le_refl _⟩))
    rintro rfl
    cases hk
  | space =>
    obtain rfl : k = .whitespace := congrArg Prod.fst hfound
    cases hk
  | word hc hnone =>
    subst htail
    have hword : identifier (c :: t ++ rest) = identifier (c :: t ++ orig) := identifier_ends hends
    exact hword ▸ .word hc (literalAt_eq_none (t := c :: t) hnone (.inr hstops))
  | number hc =>
    subst htail
    have hnumber : number (c :: t ++ rest) = number (c :: t ++ orig) := by
      refine number_stops (congrArg Prod.snd hfound).symm hstops fun hall => hpoint ?_ hall
      exact (congrArg Prod.fst hfound).trans (number_of_digits hall (congrArg Prod.snd hfound).symm)
    exact hnumber ▸ .number hc (t ++ rest)
  | line =>
    obtain rfl : k = .lineComment := congrArg Prod.fst hfound
    cases hk
  | block =>
    obtain rfl : k = .error := congrArg Prod.fst hfound
    cases hk
  | directive =>
    obtain rfl : k = .preproc := congrArg Prod.fst hfound
    cases hk
  | @point d hd cs =>
    have hone := one_lt_float_point hd cs
    cases t with
    | nil =>
      have hlen : 1 = float ('.' :: d :: cs) := congrArg Prod.snd hfound
      omega
    | cons e t =>
      obtain ⟨rfl, rfl⟩ := List.cons.inj htail
      have hfloat : float ('.' :: e :: t ++ rest) = float ('.' :: e :: t ++ orig) :=
        float_point_stops (congrArg Prod.snd hfound).symm hstops
      exact hfloat ▸ .point hd (t ++ rest)
  | mark h =>
    rcases mark_cases hfound.symm with rfl | hspelled
    · cases hk
    · rw [(punctuation_kinds _ hspelled).1] at hk
      cases hk

theorem kind_cases (h : Scans cs found) :
    found.1.isTrivia = true ∨ found.1 = .error ∨ found.1.isWord = true ∨
      (cs.take found.2, found.1) ∈ punctuation := by
  cases h with
  | literal hl =>
    obtain ⟨pre, -, quote, body, -, -, rfl⟩ := literalAt_iff.mp hl
    simp only [literal]
    split
    · split <;> exact .inr (.inr (.inl rfl))
    · exact .inr (.inl rfl)
  | done => exact .inr (.inl rfl)
  | space => exact .inl rfl
  | word hc hnone =>
    refine .inr (.inr (.inl ?_))
    unfold identifier
    dsimp only
    cases hk : Kind.keyword? _ with
    | none => rfl
    | some kind => simp [Kind.isWord, (Kind.keyword?_spelling hk).1]
  | number hc =>
    unfold number
    dsimp only
    split <;> exact .inr (.inr (.inl rfl))
  | line => exact .inl rfl
  | block => exact .inr (.inl rfl)
  | directive => exact .inl rfl
  | point hd => exact .inr (.inr (.inl rfl))
  | mark h => exact (mark_cases rfl).elim (fun h => .inr (.inl h)) fun h => .inr (.inr (.inr h))

end Lexer

open Lexer

variable {t u : Token} {ts us : List Token} {rest tail : List Char} {last : Kind}

/-- A token as a scan finds it that is neither trivia nor an error. -/
structure Token.IsPlain (t : Token) : Prop extends t.IsRead where
  significant : t.isTrivia = false
  sound : t.kind ≠ .error

theorem Token.IsPlain.punctuation (h : t.IsPlain) (hword : t.kind.isWord = false) :
    (t.text.toList, t.kind) ∈ Lexer.punctuation := by
  obtain ⟨rest, hfound⟩ := h.found
  have hcases := kind_cases (scans (t.text.toList ++ rest))
  rw [hfound, List.take_left, hword] at hcases
  have hsignificant : t.kind.isTrivia = false := h.significant
  simpa [hsignificant, h.sound] using hcases

/-- The second token glues to the first: it goes on with it, or its point belongs to a number. -/
def Token.glues (t u : Token) : Bool :=
  gluing.any (fun pair => t.text == pair.1 && pair.2.toList.isPrefixOf u.text.toList) ||
    t.kind == .intNumber && t.text.toList.all isDigitOrQuote && u.text.toList.head? == some '.'

/-- Three points in a row make an ellipsis, the last of them may begin a number. -/
def dotted (t u : Token) (us : List Token) : Bool :=
  t.text == "." && u.text == "." && us.head?.any fun v => v.text.toList.head? == some '.'

/-- Some neighbours that are written without a space glue. -/
def glued : List Token → Bool
  | t :: u :: us => !spaced t.kind u.kind && (t.glues u || dotted t u us) || glued (u :: us)
  | _ => false

theorem Token.glues_of_gluing {pair : String × String} (h : pair ∈ gluing) (ht : t.text = pair.1)
    (hu : pair.2.toList <+: u.text.toList) : t.glues u = true := by
  rw [Token.glues, Bool.or_eq_true]
  exact .inl (List.any_eq_true.mpr ⟨pair, h, by simp [ht, List.isPrefixOf_iff_prefix.mpr hu]⟩)

/-- A plain token is read before a rest that begins with a space at most. -/
theorem Token.IsPlain.scan_blank (h : t.IsPlain) (hrest : ∀ c ∈ rest.head?, c = ' ') :
    scan (t.text.toList ++ rest) = (t.kind, t.text.toList.length) := by
  cases hword : t.kind.isWord with
  | true =>
    obtain ⟨orig, hfound⟩ := h.found
    refine scan_stops hfound h.ne hword (fun c hc => ?_) fun _ _ hpoint => ?_
    · rw [hrest c hc]
      decide
    · exact absurd (hrest '.' hpoint) (by decide)
  | false =>
    refine scan_punctuation (h.punctuation hword) fun pair hpair _ hstarts => ?_
    obtain ⟨hspace, hpos, -⟩ := gluing_next pair hpair
    obtain ⟨c, cs, hcs⟩ := List.exists_cons_of_length_pos hpos
    obtain ⟨more, rfl⟩ := hstarts
    rw [hcs] at hspace hrest
    exact hspace (hrest c rfl ▸ List.mem_cons_self)

theorem Token.IsPlain.stops (h : u.IsPlain) (hword : u.kind.isWord = false) (rest : List Char) :
    Stops (u.text.toList ++ rest) := by
  obtain ⟨c, cs, hcs⟩ := List.exists_cons_of_ne_nil h.ne
  have hmark := (punctuation_mark (h.punctuation hword)).1
  rw [hcs] at hmark ⊢
  intro d hd
  obtain rfl : c = d := Option.some.inj hd
  obtain ⟨hquote, -, -, hcontinues, -⟩ := hmark c rfl
  simp only [isQuote, Bool.or_eq_false_iff, beq_eq_false_iff_ne] at hquote
  exact ⟨hcontinues, hquote.2, hquote.1⟩

theorem next_of_head (hts : ∀ t ∈ ts, t.IsPlain) (htail : ∀ c ∈ tail.head?, c = ' ') {c : Char}
    (hc : c ∈ ((spellAfter last ts).toList ++ tail).head?) (hspace : c ≠ ' ') :
    ∃ u us, ts = u :: us ∧ spaced last u.kind = false ∧ c ∈ u.text.toList.head? := by
  cases ts with
  | nil => exact absurd (htail c hc) hspace
  | cons u us =>
    obtain ⟨d, ds, hd⟩ := List.exists_cons_of_ne_nil (hts u List.mem_cons_self).ne
    rw [toList_spellAfter_cons, toList_spell_cons, hd] at hc
    cases hspaced : spaced last u.kind with
    | true =>
      rw [hspaced] at hc
      exact absurd (Option.some.inj hc).symm hspace
    | false =>
      rw [hspaced] at hc
      exact ⟨u, us, rfl, hspaced, hd ▸ hc⟩

theorem eq_singleton_of_prefix {a b : Char} {cs : List Char} (hstarts : [a, b] <+: cs ++ rest)
    (hpos : 0 < cs.length) (hlt : cs.length < 2) : cs = [a] ∧ b ∈ rest.head? := by
  obtain ⟨more, hmore⟩ := hstarts
  match cs with
  | [c] =>
    obtain ⟨rfl, rfl⟩ := List.cons.inj hmore
    exact ⟨rfl, rfl⟩
  | c :: d :: cs =>
    simp only [List.length_cons] at hlt
    omega

/-- Neither a pair nor a third token makes what glues to a punctuation. -/
theorem not_prefix_of_glued {pair : String × String} (hts : ∀ v ∈ u :: us, v.IsPlain)
    (htail : ∀ c ∈ tail.head?, c = ' ') (hpair : pair ∈ gluing) (ht : pair.1.toList = t.text.toList)
    (hglues : t.glues u = false) (hdotted : dotted t u us = false)
    (h : glued (u :: us) = false) :
    ¬pair.2.toList <+: u.text.toList ++ ((spellAfter u.kind us).toList ++ tail) := by
  intro hstarts
  have hfront : t.text = pair.1 := (String.toList_inj.mp ht).symm
  have hno : ¬pair.2.toList <+: u.text.toList := fun hu =>
    Bool.false_ne_true (hglues.symm.trans (Token.glues_of_gluing hpair hfront hu))
  obtain ⟨hu, hus⟩ := List.forall_mem_cons.mp hts
  have hshort : u.text.toList <+: pair.2.toList :=
    (List.prefix_or_prefix_of_prefix hstarts (List.prefix_append _ _)).resolve_left hno
  have hlt : u.text.toList.length < pair.2.toList.length := by
    refine Nat.lt_of_le_of_ne hshort.length_le fun hlen => hno ?_
    exact hshort.eq_of_length hlen ▸ List.prefix_rfl
  have hpos := List.length_pos_iff.mpr hu.ne
  rcases (gluing_next pair hpair).2.2 with hone | rfl | rfl
  · omega
  · obtain ⟨htext, hnext⟩ : u.text.toList = ['>'] ∧ '=' ∈ _ :=
      eq_singleton_of_prefix hstarts hpos hlt
    obtain ⟨v, vs, rfl, hspaced, hv⟩ := next_of_head hus htail hnext (by decide)
    have hpair : (">", "=") ∈ gluing := by decide
    have hglues : u.glues v = true :=
      Token.glues_of_gluing hpair (String.toList_inj.mp htext) (prefix_of_head hv)
    rw [glued, hspaced, hglues] at h
    cases h
  · obtain ⟨htext, hnext⟩ : u.text.toList = ['.'] ∧ '.' ∈ _ :=
      eq_singleton_of_prefix hstarts hpos hlt
    obtain ⟨v, vs, rfl, hspaced, hv⟩ := next_of_head hus htail hnext (by decide)
    have hu : u.text = "." := String.toList_inj.mp htext
    rw [dotted, hfront, hu] at hdotted
    simp [Option.mem_def.mp hv] at hdotted

theorem scan_of_not_glued (ht : t.IsPlain) (hts : ∀ v ∈ u :: us, v.IsPlain)
    (htail : ∀ c ∈ tail.head?, c = ' ') (hspaced : spaced t.kind u.kind = false)
    (hglues : t.glues u = false) (hdotted : dotted t u us = false)
    (h : glued (u :: us) = false) :
    scan (t.text.toList ++ (u.text.toList ++ ((spellAfter u.kind us).toList ++ tail))) =
      (t.kind, t.text.toList.length) := by
  have hu := hts u List.mem_cons_self
  cases hword : t.kind.isWord with
  | true =>
    have hnext : u.kind.isWord = false := by
      rw [spaced, hword, Bool.true_and, Bool.or_eq_false_iff] at hspaced
      exact hspaced.1
    obtain ⟨orig, hfound⟩ := ht.found
    refine scan_stops hfound ht.ne hword (hu.stops hnext _) fun hkind hall hpoint => ?_
    have hhead : u.text.toList.head? = some '.' := by
      obtain ⟨c, cs, hcs⟩ := List.exists_cons_of_ne_nil hu.ne
      rw [hcs] at hpoint ⊢
      exact hpoint
    rw [Token.glues, hkind, List.all_eq_true.mpr hall, hhead] at hglues
    simp at hglues
  | false =>
    refine scan_punctuation (ht.punctuation hword) fun pair hpair hfront => ?_
    exact not_prefix_of_glued hts htail hpair hfront hglues hdotted h

/-- Tokens that do not glue are read from their spelling, before what begins with a space at
most. -/
theorem clear_of_glued (hts : ∀ t ∈ ts, t.IsPlain) (htail : ∀ c ∈ tail.head?, c = ' ')
    (h : glued ts = false) : Clear tail ts := by
  induction ts with
  | nil => trivial
  | cons t ts ih =>
    obtain ⟨ht, hrest⟩ := List.forall_mem_cons.mp hts
    cases ts with
    | nil => exact clear_cons.mpr ⟨ht.scan_blank htail, trivial⟩
    | cons u us =>
      rw [glued, Bool.or_eq_false_iff] at h
      obtain ⟨hpair, hglued⟩ := h
      refine clear_cons.mpr ⟨?_, ih hrest hglued⟩
      cases hspaced : spaced t.kind u.kind with
      | true =>
        rw [toList_spellAfter_cons, hspaced]
        exact ht.scan_blank fun c hc => (Option.some.inj hc).symm
      | false =>
        rw [hspaced, Bool.not_false, Bool.true_and, Bool.or_eq_false_iff] at hpair
        rw [toList_spellAfter_of_not_spaced hspaced, List.append_assoc]
        exact scan_of_not_glued ht hrest htail hspaced hpair.1 hpair.2 hglued

theorem Token.IsPlain.kind_of_point (h : u.IsPlain) (hu : u.text = ".") : u.kind = .dot := by
  obtain ⟨orig, hfound⟩ := h.found
  rw [hu] at hfound
  have hpoint : scan ('.' :: orig) = (u.kind, 1) := hfound
  by_cases hdigit : ∃ d ∈ orig.head?, d.isDigit = true
  · obtain ⟨d, hd, hdigit⟩ := hdigit
    obtain ⟨ds, rfl⟩ := List.head?_eq_some_iff.mp hd
    have hone := one_lt_float_point hdigit ds
    rw [(Scans.point hdigit ds).scan_eq] at hpoint
    rw [(Prod.mk.inj hpoint).2] at hone
    exact absurd hone (by decide)
  · have hmark : IsMark '.' orig := by
      refine ⟨by decide, by decide, by decide, by decide, by decide, nofun, fun _ d hd => ?_⟩
      exact Bool.eq_false_iff.mpr fun hd' => hdigit ⟨d, hd, hd'⟩
    rw [(Scans.mark hmark).scan_eq] at hpoint
    have hdot : ∀ spelled ∈ Lexer.punctuation, spelled.1 = ['.'] → spelled.2 = .dot := by decide
    exact hdot _ ((mark_cases hpoint).resolve_left h.sound) rfl

/-- Before a point, bare digits are read as the beginning of a floating-point number. -/
theorem scan_digits_point {cs fraction : List Char} (hcs : cs ≠ [])
    (hall : ∀ c ∈ cs, isDigitOrQuote c = true) :
    scan (cs ++ '.' :: fraction) ≠ (.intNumber, cs.length) := by
  obtain ⟨c, cs, rfl⟩ := List.exists_cons_of_ne_nil hcs
  intro hscan
  cases hdigit : c.isDigit with
  | true =>
    have hfloat := length_lt_float_point hall fraction
    have hle := (le_number (c :: cs ++ '.' :: fraction)).2
    have hnumber := (Scans.number hdigit (cs ++ '.' :: fraction)).scan_eq
    rw [← List.cons_append, hscan] at hnumber
    rw [← hnumber] at hle
    omega
  | false =>
    obtain rfl : c = '\'' := by
      have hc := hall c List.mem_cons_self
      rw [isDigitOrQuote, hdigit, Bool.false_or, beq_iff_eq] at hc
      exact hc
    have hliteral := literalAt_iff.mpr
      ⟨[], List.mem_cons_self, '\'', cs ++ '.' :: fraction, rfl, rfl, rfl⟩
    have hkind := congrArg Prod.fst ((Scans.literal hliteral).scan_eq.symm.trans hscan)
    simp only [literal] at hkind
    split at hkind <;> cases hkind

theorem scan_ne_of_gluing {pair : String × String} (h : pair ∈ gluing) (ht : t.text = pair.1)
    (hrest : pair.2.toList <+: rest) :
    scan (t.text.toList ++ rest) ≠ (t.kind, t.text.toList.length) := by
  intro hscan
  have hlt := lt_scan_glued h hrest
  rw [← ht, hscan] at hlt
  exact Nat.lt_irrefl _ hlt

theorem scan_ne_of_glues (ht : t.IsPlain) (h : t.glues u = true) (rest : List Char) :
    scan (t.text.toList ++ (u.text.toList ++ rest)) ≠ (t.kind, t.text.toList.length) := by
  rw [Token.glues, Bool.or_eq_true, List.any_eq_true] at h
  rcases h with ⟨pair, hpair, h⟩ | h
  · rw [Bool.and_eq_true, beq_iff_eq, List.isPrefixOf_iff_prefix] at h
    exact scan_ne_of_gluing hpair h.1 (h.2.trans (List.prefix_append ..))
  · simp only [Bool.and_eq_true, beq_iff_eq, List.all_eq_true] at h
    obtain ⟨⟨hkind, hall⟩, hpoint⟩ := h
    obtain ⟨fraction, hu⟩ := List.head?_eq_some_iff.mp hpoint
    rw [hu, hkind, List.cons_append]
    exact scan_digits_point ht.ne hall

theorem scan_ne_of_dotted (hu : u.IsPlain) (h : dotted t u us = true) (tail : List Char) :
    scan (t.text.toList ++ (u.text.toList ++ ((spellAfter u.kind us).toList ++ tail))) ≠
      (t.kind, t.text.toList.length) := by
  rw [dotted, Bool.and_eq_true, Bool.and_eq_true, beq_iff_eq, beq_iff_eq] at h
  obtain ⟨⟨hfirst, hsecond⟩, hthird⟩ := h
  cases us with
  | nil => cases hthird
  | cons v vs =>
    have hspaced : spaced u.kind v.kind = false := by
      rw [hu.kind_of_point hsecond]
      rfl
    have hv : v.text.toList.head? = some '.' := by simpa using hthird
    obtain ⟨more, hv⟩ := List.head?_eq_some_iff.mp hv
    rw [toList_spellAfter_of_not_spaced hspaced, hv, hsecond]
    have hpair : (".", "..") ∈ gluing := by decide
    exact scan_ne_of_gluing hpair hfirst ⟨_, rfl⟩

theorem glued_of_clear (hts : ∀ t ∈ ts, t.IsPlain) (h : Clear tail ts) : glued ts = false := by
  induction ts with
  | nil => rfl
  | cons t ts ih =>
    obtain ⟨ht, hrest⟩ := List.forall_mem_cons.mp hts
    cases ts with
    | nil => rfl
    | cons u us =>
      obtain ⟨hscan, hclear⟩ := clear_cons.mp h
      have hglued := ih hrest hclear
      rw [glued, hglued, Bool.or_false, Bool.eq_false_iff]
      intro hglues
      rw [Bool.and_eq_true, Bool.not_eq_true', Bool.or_eq_true] at hglues
      obtain ⟨hspaced, hglues⟩ := hglues
      rw [toList_spellAfter_of_not_spaced hspaced, List.append_assoc] at hscan
      rcases hglues with hglues | hdotted
      · exact scan_ne_of_glues ht hglues _ hscan
      · exact scan_ne_of_dotted (hrest u List.mem_cons_self) hdotted tail hscan

namespace Tree

mutual

theorem token_mem_preorder {t : Tree} {w : Token} (h : w ∈ t.leaves) : .token w ∈ t.preorder := by
  cases t with
  | token t =>
    cases List.mem_singleton.mp h
    exact List.mem_singleton_self _
  | node k s ts =>
    rw [leaves_node] at h
    rw [preorder_node]
    exact List.mem_cons_of_mem _ (token_mem_flatMap_preorder h)

theorem token_mem_flatMap_preorder {ts : List Tree} {w : Token} (h : w ∈ ts.flatMap leaves) :
    .token w ∈ ts.flatMap preorder := by
  cases ts with
  | nil => cases h
  | cons t ts =>
    rw [List.flatMap_cons, List.mem_append] at h ⊢
    exact h.imp token_mem_preorder token_mem_flatMap_preorder

end

/-- Spelled anew, a tree is read as its tokens were, up to trivia. -/
def ReadsBack (t : Tree) : Prop := forms (tokenize t.spelling) = forms t.leaves

instance (t : Tree) : Decidable t.ReadsBack :=
  inferInstanceAs (Decidable (forms (tokenize t.spelling) = forms t.leaves))

/-- No token of the tree is an error. -/
def Sound (t : Tree) : Prop := ∀ w ∈ t.significant, w.kind ≠ .error

instance (t : Tree) : Decidable t.Sound :=
  inferInstanceAs (Decidable (∀ w ∈ t.significant, w.kind ≠ .error))

theorem Sound.part {t p : Tree} (h : t.Sound) (hp : p ∈ t.parts) : p.Sound := by
  intro w hw
  obtain ⟨hleaf, hsignificant⟩ := List.mem_filter.mp hw
  have hin := mem_preorder_trans (mem_preorder_of_mem_parts hp) (token_mem_preorder hleaf)
  exact h w (List.mem_filter.mpr ⟨mem_leaves hin, hsignificant⟩)

end Tree

namespace IsTreeOf

variable {text text' : String} {t t' : Tree}

theorem isRead (h : IsTreeOf text t) : ∀ w ∈ t.significant, w.IsRead := by
  intro w hw
  have htoken := Tree.mem_preorder_trans h (Tree.token_mem_preorder (List.mem_filter.mp hw).1)
  have hleaf := Tree.mem_leaves htoken
  rw [parse, parseTokens_leaves] at hleaf
  exact tokenize_isRead text w hleaf

theorem isPlain (h : IsTreeOf text t) (hsound : t.Sound) : ∀ w ∈ t.significant, w.IsPlain :=
  fun w hw => ⟨h.isRead w hw, by simpa using (List.mem_filter.mp hw).2, hsound w hw⟩

theorem readsBack_iff_clear (h : IsTreeOf text t) : t.ReadsBack ↔ Clear [] t.significant := by
  have hsignificant : ∀ w ∈ t.significant, w.isTrivia = false :=
    fun w hw => by simpa using (List.mem_filter.mp hw).2
  rw [Tree.ReadsBack, ← forms_significant]
  exact readForms_spell_iff h.isRead hsignificant

/-- A node is read back from its spelling if and only if each token of it is the first one of its
spelling with the three tokens behind it; without errors, if and only if no neighbours in it that
are written without a space glue. So nodes spelled alike have the same tokens. -/
theorem readsBack_iff (h : IsTreeOf text t) :
    (t.ReadsBack ↔ ClearAhead t.significant) ∧
      (t.Sound → (t.ReadsBack ↔ glued t.significant = false)) ∧
      ∀ text' t', IsTreeOf text' t' → t.Sound → t'.Sound → glued t.significant = false →
        glued t'.significant = false → t.spelling = t'.spelling →
          forms t.leaves = forms t'.leaves := by
  have hglued {text : String} {t : Tree} (h : IsTreeOf text t) (hsound : t.Sound) :
      t.ReadsBack ↔ glued t.significant = false := by
    rw [h.readsBack_iff_clear]
    exact ⟨glued_of_clear (h.isPlain hsound), clear_of_glued (h.isPlain hsound) nofun⟩
  refine ⟨h.readsBack_iff_clear.trans (clearAhead_iff h.isRead).symm, hglued h, ?_⟩
  intro text' t' h' hsound hsound' hclear hclear' hspelling
  have hback : t.ReadsBack := (hglued h hsound).mpr hclear
  have hback' : t'.ReadsBack := (hglued h' hsound').mpr hclear'
  unfold Tree.ReadsBack at hback hback'
  rw [← hback, ← hback', hspelling]

/-- Words, brackets and operators that do not glue. -/
theorem readsBack_declaration :
    ∃ t, IsTreeOf "const std :: string & f(int x , int y = - + 1.5);" t ∧ t.kind = .simpleDecl ∧
      t.spelling = "const std::string&f(int x, int y=-+1.5);" ∧ t.Sound ∧
      glued t.significant = false ∧ t.ReadsBack := by
  have hexists : ∃ t ∈ (parse "const std :: string & f(int x , int y = - + 1.5);").tree.preorder,
      t.kind = .simpleDecl ∧ t.spelling = "const std::string&f(int x, int y=-+1.5);" ∧
      t.Sound ∧ glued t.significant = false := by decide +kernel
  obtain ⟨t, ht, hkind, hspelling, hsound, hclear⟩ := hexists
  exact ⟨t, ht, hkind, hspelling, hsound, hclear, ((readsBack_iff ht).2.1 hsound).mpr hclear⟩

/-- A sum with a sign glues: `a + +b` is spelled as an increment. -/
theorem readsBack_sign : ∃ t ∈ (parse "int x = a + +b;").tree.preorder,
    t.kind = .expr ∧ t.spelling = "a++b" ∧ ¬t.ReadsBack := by
  decide +kernel

end IsTreeOf

end CppRefactor
