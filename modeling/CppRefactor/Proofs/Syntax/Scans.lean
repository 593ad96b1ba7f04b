import CppRefactor.Proofs.Syntax.Identifiers
import CppRefactor.Proofs.Syntax.LineFeeds
import CppRefactor.Proofs.Syntax.Numbers

/-!
What a scan finds, by what is at the front of the text, and how far it looks for that: at most three
characters behind the token.
-/

namespace CppRefactor.Lexer

variable {c d quote : Char} {cs t orig rest : List Char} {n : Nat} {found : Kind × Nat}

/-- What can stand before the quote of a literal. -/
def encodingPrefixes : List (List Char) := [[], ['u'], ['U'], ['L'], ['u', '8']]

def isQuote (c : Char) : Bool := c == '"' || c == '\''

/-- A quoted literal behind an encoding prefix. -/
def literal (skip : Nat) (quote : Char) (cs : List Char) : Kind × Nat :=
  (if (quoted quote cs).1 then if quote = '"' then .stringLit else .charLit else .error,
    skip + 1 + (quoted quote cs).2)

theorem literalAt_iff : literalAt (encodingPrefix cs) cs = some found ↔
    ∃ pre ∈ encodingPrefixes, ∃ quote body, isQuote quote = true ∧ cs = pre ++ quote :: body ∧
      found = literal pre.length quote body := by
  constructor
  · intro h
    have hmem : cs.take (encodingPrefix cs) ∈ encodingPrefixes ∧
        (cs.take (encodingPrefix cs)).length = encodingPrefix cs := by
      unfold encodingPrefix
      split <;> exact ⟨by simp [encodingPrefixes], rfl⟩
    have hsplit := List.take_append_drop (encodingPrefix cs) cs
    unfold literalAt at h
    split at h
    · rename_i body hdrop
      rw [hdrop] at hsplit
      cases h
      exact ⟨_, hmem.1, '"', body, rfl, hsplit.symm, by rw [hmem.2]; rfl⟩
    · rename_i body hdrop
      rw [hdrop] at hsplit
      cases h
      exact ⟨_, hmem.1, '\'', body, rfl, hsplit.symm, by rw [hmem.2]; rfl⟩
    · cases h
  · rintro ⟨pre, hpre, quote, body, hquote, rfl, rfl⟩
    simp only [isQuote, Bool.or_eq_true, beq_iff_eq] at hquote
    simp only [encodingPrefixes, List.mem_cons, List.not_mem_nil, or_false] at hpre
    rcases hpre with rfl | rfl | rfl | rfl | rfl <;> rcases hquote with rfl | rfl <;> rfl

@[elab_as_elim]
theorem quoted_induction {motive : List Char → Prop} (quote : Char) (nil : motive [])
    (backslash : motive ['\\']) (broken : ∀ cs, motive ('\\' :: '\n' :: cs))
    (escape : ∀ c cs, c ≠ '\n' → motive cs → motive ('\\' :: c :: cs))
    (close : ∀ cs, quote ≠ '\\' → motive (quote :: cs))
    (feed : ∀ cs, '\n' ≠ quote → motive ('\n' :: cs))
    (plain : ∀ c cs, c ≠ '\\' → c ≠ quote → c ≠ '\n' → motive cs → motive (c :: cs))
    (cs : List Char) : motive cs := by
  induction cs using quoted.induct quote with
  | case1 => exact nil
  | case2 => exact backslash
  | case3 cs => exact broken cs
  | case4 c cs hc closed n hquoted ih => exact escape c cs hc ih
  | case5 cs hesc => exact close cs hesc
  | case6 cs hesc hq => exact feed cs hq
  | case7 c cs hesc hq hc closed n hquoted ih => exact plain c cs hesc hq hc ih

theorem quoted_broken (quote : Char) (cs : List Char) :
    quoted quote ('\\' :: '\n' :: cs) = (false, 0) := by
  simp [quoted]

theorem quoted_escape (hc : c ≠ '\n') (quote : Char) (cs : List Char) :
    quoted quote ('\\' :: c :: cs) = ((quoted quote cs).1, (quoted quote cs).2 + 2) := by
  simp [quoted, hc]

theorem quoted_close (hesc : quote ≠ '\\') (cs : List Char) :
    quoted quote (quote :: cs) = (true, 1) := by
  simp [quoted]

theorem quoted_feed (hq : '\n' ≠ quote) (cs : List Char) :
    quoted quote ('\n' :: cs) = (false, 0) := by
  simp [quoted, hq]

theorem quoted_plain (hesc : c ≠ '\\') (hq : c ≠ quote) (hc : c ≠ '\n') (cs : List Char) :
    quoted quote (c :: cs) = ((quoted quote cs).1, (quoted quote cs).2 + 1) := by
  simp [quoted, hq, hc]

theorem quoted_pos (h : (quoted quote cs).1 = true) : 0 < (quoted quote cs).2 := by
  induction cs using quoted_induction quote with
  | nil => cases h
  | backslash => cases h
  | broken cs =>
    rw [quoted_broken] at h
    cases h
  | escape c cs hc ih =>
    rw [quoted_escape hc]
    exact Nat.succ_pos _
  | close cs hesc =>
    rw [quoted_close hesc]
    exact Nat.one_pos
  | feed cs hq =>
    rw [quoted_feed hq] at h
    cases h
  | plain c cs hesc hq hc ih =>
    rw [quoted_plain hesc hq hc]
    exact Nat.succ_pos _

/-- A literal that is closed does not depend on what is behind it; one that is not looks two
characters ahead, for a backslash and what it escapes. -/
theorem quoted_local
    (h : (quoted quote (t ++ orig)).1 = true ∧ (quoted quote (t ++ orig)).2 ≤ t.length ∨
      (quoted quote (t ++ orig)).2 + 2 ≤ t.length) :
    quoted quote (t ++ rest) = quoted quote (t ++ orig) := by
  induction t using quoted_induction quote with
  | nil =>
    rcases h with ⟨hclosed, hle⟩ | hle
    · exact absurd hle (Nat.not_le.mpr (quoted_pos hclosed))
    · exact absurd hle (Nat.not_succ_le_zero _)
  | backslash =>
    have htwo (hclosed : (quoted quote ('\\' :: orig)).1 = true) :
        2 ≤ (quoted quote ('\\' :: orig)).2 := by
      cases orig with
      | nil => cases hclosed
      | cons c orig =>
        by_cases hc : c = '\n'
        · subst hc
          rw [quoted_broken] at hclosed
          cases hclosed
        · rw [quoted_escape hc]
          exact Nat.le_add_left 2 _
    rw [List.singleton_append, List.length_singleton] at h
    rcases h with ⟨hclosed, hle⟩ | hle
    · exact absurd (Nat.le_trans (htwo hclosed) hle) (by decide)
    · omega
  | broken cs => exact (quoted_broken quote _).trans (quoted_broken quote _).symm
  | escape c cs hc ih =>
    simp only [List.cons_append, quoted_escape hc, List.length_cons] at h ⊢
    rw [ih (h.imp (And.imp_right fun h => by omega) fun h => by omega)]
  | close cs hesc => exact (quoted_close hesc _).trans (quoted_close hesc _).symm
  | feed cs hq => exact (quoted_feed hq _).trans (quoted_feed hq _).symm
  | plain c cs hesc hq hc ih =>
    simp only [List.cons_append, quoted_plain hesc hq hc, List.length_cons] at h ⊢
    rw [ih (h.imp (And.imp_right fun h => by omega) fun h => by omega)]

theorem append_cases {pre body : List Char} (h : t ++ rest = pre ++ c :: body) :
    (∃ front, pre = t ++ front ∧ rest = front ++ c :: body) ∨
      ∃ front, t = pre ++ c :: front ∧ body = front ++ rest := by
  rcases List.append_eq_append_iff.mp h with ⟨front, hpre, hrest⟩ | ⟨front, ht, hbody⟩
  · exact .inl ⟨front, hpre, hrest⟩
  · cases front with
    | nil =>
      rw [List.append_nil] at ht
      exact .inl ⟨[], by simp [ht], hbody.symm⟩
    | cons d front =>
      obtain ⟨rfl, rfl⟩ := List.cons.inj hbody
      exact .inr ⟨front, ht, rfl⟩

theorem literalAt_local (hfound : literalAt (encodingPrefix (t ++ orig)) (t ++ orig) = some found)
    (h : found.1 ≠ .error ∧ found.2 ≤ t.length ∨ found.2 + 2 ≤ t.length) :
    literalAt (encodingPrefix (t ++ rest)) (t ++ rest) = some found := by
  obtain ⟨pre, hpre, quote, body, hquote, hcs, rfl⟩ := literalAt_iff.mp hfound
  simp only [literal] at h
  rcases append_cases hcs with ⟨front, rfl, -⟩ | ⟨front, rfl, rfl⟩
  · simp only [List.length_append] at h
    omega
  refine literalAt_iff.mpr ⟨pre, hpre, quote, front ++ rest, hquote, by simp, ?_⟩
  simp only [List.length_append, List.length_cons] at h
  have hquoted : quoted quote (front ++ rest) = quoted quote (front ++ orig) := by
    refine quoted_local (h.imp (fun h => ⟨?_, by omega⟩) fun h => by omega)
    by_contra hopen
    exact h.1 (if_neg hopen)
  rw [literal, literal, hquoted]

theorem encodingPrefixes_word : ∀ pre ∈ encodingPrefixes,
    pre.length < 3 ∧ pre.all Text.continuesIdentifier = true := by decide

theorem literalAt_eq_none (hnone : literalAt (encodingPrefix (t ++ orig)) (t ++ orig) = none)
    (h : 3 ≤ t.length ∨ Stops rest) :
    literalAt (encodingPrefix (t ++ rest)) (t ++ rest) = none := by
  rw [Option.eq_none_iff_forall_ne_some] at hnone ⊢
  intro found hfound
  obtain ⟨pre, hpre, quote, body, hquote, hcs, rfl⟩ := literalAt_iff.mp hfound
  rcases append_cases hcs with ⟨front, rfl, rfl⟩ | ⟨front, rfl, rfl⟩
  · obtain ⟨hlen, hword⟩ := encodingPrefixes_word _ hpre
    rw [List.length_append] at hlen
    have hstops := h.resolve_left (by omega)
    cases front with
    | nil =>
      simp only [isQuote, Bool.or_eq_true, beq_iff_eq] at hquote
      exact hquote.elim (hstops quote rfl).2.2 (hstops quote rfl).2.1
    | cons c front =>
      have hc := List.all_eq_true.mp hword c (by simp)
      rw [(hstops c rfl).1] at hc
      cases hc
  · exact hnone _ (literalAt_iff.mpr ⟨pre, hpre, quote, front ++ orig, hquote, by simp, rfl⟩)

theorem literalAt_plain (hquote : isQuote c = false) (hword : Text.startsIdentifier c = false)
    (cs : List Char) : literalAt (encodingPrefix (c :: cs)) (c :: cs) = none := by
  rw [Option.eq_none_iff_forall_ne_some]
  intro found hfound
  obtain ⟨pre, hpre, quote, body, hquote', hcs, -⟩ := literalAt_iff.mp hfound
  cases pre with
  | nil =>
    obtain rfl := (List.cons.inj hcs).1
    exact Bool.false_ne_true (hquote.symm.trans hquote')
  | cons d pre =>
    obtain rfl := (List.cons.inj hcs).1
    have hstarts : ∀ pre ∈ encodingPrefixes, pre.head?.all Text.startsIdentifier = true := by decide
    exact Bool.false_ne_true (hword.symm.trans (hstarts _ hpre))

theorem comment_local {starred : Bool} (h : comment starred (t ++ orig) + 1 ≤ t.length) :
    comment starred (t ++ rest) = comment starred (t ++ orig) := by
  induction t generalizing starred with
  | nil => exact absurd h (Nat.not_succ_le_zero _)
  | cons c t ih =>
    simp only [List.cons_append, comment, List.length_cons] at h ⊢
    split
    · rfl
    · rename_i hc
      rw [if_neg hc] at h
      rw [ih (by omega)]

theorem directive_local (h : directive (t ++ orig) + 2 ≤ t.length) :
    directive (t ++ rest) = directive (t ++ orig) := by
  induction t using directive_induction with
  | nil => exact absurd h (Nat.not_succ_le_zero _)
  | backslash =>
    rw [List.length_singleton] at h
    omega
  | escape c cs ih =>
    simp only [List.cons_append, directive_escape, List.length_cons] at h ⊢
    rw [ih (by omega)]
  | feed cs => exact (directive_feed _).trans (directive_feed _).symm
  | plain c cs hesc hend ih =>
    simp only [List.cons_append, directive_plain hesc hend, List.length_cons] at h ⊢
    rw [ih (by omega)]

theorem run_local {p : Char → Bool} (h : run p (t ++ orig) + 1 ≤ t.length) :
    run p (t ++ rest) = run p (t ++ orig) := by
  induction t with
  | nil => exact absurd h (Nat.not_succ_le_zero _)
  | cons c t ih =>
    cases hc : p c with
    | true =>
      rw [List.cons_append, run_cons_of_pos hc, List.length_cons] at h
      rw [List.cons_append, List.cons_append, run_cons_of_pos hc, run_cons_of_pos hc,
        ih (by omega)]
    | false =>
      rw [List.cons_append, List.cons_append, run_cons_of_neg hc, run_cons_of_neg hc]

theorem identifier_ends (h : Ends 1 t rest (identifier (t ++ orig)).2) :
    identifier (t ++ rest) = identifier (t ++ orig) := by
  have hrun : run Text.continuesIdentifier (t ++ rest) = run Text.continuesIdentifier (t ++ orig) :=
    run_ends (fun _ => .inl) h
  have hle : run Text.continuesIdentifier (t ++ orig) ≤ t.length := h.le
  unfold identifier
  dsimp only
  rw [hrun, List.take_append_of_le_length hle, List.take_append_of_le_length hle]

theorem punctuation_length : ∀ spelled ∈ punctuation, spelled.1.length ≤ 3 := by decide

theorem punctuationAt_local (h : 3 ≤ t.length) :
    punctuationAt (t ++ rest) = punctuationAt (t ++ orig) := by
  refine congrArg (Option.map _) (List.find?_congr fun spelled hspelled => ?_)
  have hle := Nat.le_trans (punctuation_length spelled hspelled) h
  have hfront (ds : List Char) : spelled.1.isPrefixOf (t ++ ds) = spelled.1.isPrefixOf t := by
    rw [Bool.eq_iff_iff, List.isPrefixOf_iff_prefix, List.isPrefixOf_iff_prefix]
    exact ⟨fun h => List.prefix_of_prefix_length_le h (List.prefix_append t ds) hle,
      fun h => h.trans (List.prefix_append t ds)⟩
  exact (hfront rest).trans (hfront orig).symm

/-- A character that begins no token but a punctuation. -/
structure IsMark (c : Char) (rest : List Char) : Prop where
  quote : isQuote c = false
  space : isSpace c = false
  word : Text.startsIdentifier c = false
  digit : c.isDigit = false
  directive : c ≠ '#'
  comment : c = '/' → ∀ d ∈ rest.head?, d ≠ '/' ∧ d ≠ '*'
  point : c = '.' → ∀ d ∈ rest.head?, d.isDigit = false

/-- What a scan finds, by what is at the front. -/
inductive Scans : List Char → Kind × Nat → Prop
  | literal {cs : List Char} {found : Kind × Nat}
      (h : literalAt (encodingPrefix cs) cs = some found) : Scans cs found
  | done : Scans [] (.error, 0)
  | space {c : Char} (hc : isSpace c = true) (cs : List Char) :
      Scans (c :: cs) (.whitespace, run isSpace (c :: cs))
  | word {c : Char} {cs : List Char} (hc : Text.startsIdentifier c = true)
      (hnone : literalAt (encodingPrefix (c :: cs)) (c :: cs) = none) :
      Scans (c :: cs) (identifier (c :: cs))
  | number {c : Char} (hc : c.isDigit = true) (cs : List Char) : Scans (c :: cs) (number (c :: cs))
  | line (cs : List Char) :
      Scans ('/' :: '/' :: cs) (.lineComment, run (· != '\n') ('/' :: '/' :: cs))
  | block (cs : List Char) : Scans ('/' :: '*' :: cs) (.error, 2 + comment false cs)
  | directive (cs : List Char) : Scans ('#' :: cs) (.preproc, 1 + directive cs)
  | point {d : Char} (hd : d.isDigit = true) (cs : List Char) :
      Scans ('.' :: d :: cs) (.floatNumber, float ('.' :: d :: cs))
  | mark {c : Char} {cs : List Char} (h : IsMark c cs) :
      Scans (c :: cs) ((punctuationAt (c :: cs)).getD (.error, 1))

theorem isDigit_apart (h : c.isDigit = true) :
    Text.startsIdentifier c = false ∧ isQuote c = false ∧ isSpace c = false := by
  have hc := of_ascii (fun c => !c.isDigit || !(Text.startsIdentifier c || isQuote c || isSpace c))
    (by decide +kernel) (toNat_lt_of_isDigit h)
  simpa [h, and_assoc] using hc

theorem isSpace_of_startsIdentifier (h : Text.startsIdentifier c = true) : isSpace c = false := by
  rw [Bool.eq_false_iff]
  intro hspace
  simp only [isSpace, Bool.or_eq_true, beq_iff_eq] at hspace
  rcases hspace with (((rfl | rfl) | rfl) | rfl) | rfl <;> exact absurd h (by decide)

theorem scans (cs : List Char) : Scans cs (scan cs) := by
  cases hliteral : literalAt (encodingPrefix cs) cs with
  | some found =>
    rw [scan.eq_def, hliteral]
    exact .literal hliteral
  | none =>
    rw [scan.eq_def, hliteral]
    cases cs with
    | nil => exact .done
    | cons c cs =>
      have hquote : isQuote c = false := by
        rw [Bool.eq_false_iff]
        intro hquote
        have hsome := literalAt_iff.mpr ⟨[], List.mem_cons_self, c, cs, hquote, rfl, rfl⟩
        exact Option.some_ne_none _ (hsome.symm.trans hliteral)
      dsimp only
      cases hspace : isSpace c with
      | true => exact .space hspace cs
      | false =>
        cases hword : Text.startsIdentifier c with
        | true => exact .word hword hliteral
        | false =>
          cases hdigit : c.isDigit with
          | true => exact .number hdigit cs
          | false =>
            simp only [Bool.false_eq_true, if_false]
            split
            · exact .line _
            · exact .block _
            · exact .directive _
            · split
              · rename_i hd
                exact .point hd _
              · rename_i hd
                refine .mark ⟨hquote, hspace, hword, hdigit, by decide,
                  fun hc => absurd hc (by decide), ?_⟩
                rintro - d hd'
                obtain rfl := Option.some.inj hd'
                exact Bool.eq_false_iff.mpr hd
            · rename_i hhash hline hblock hpoint
              refine .mark ⟨hquote, hspace, hword, hdigit, hhash, ?_, ?_⟩
              · rintro hc d hd
                obtain ⟨cs, rfl⟩ := List.head?_eq_some_iff.mp hd
                refine ⟨?_, ?_⟩
                · rintro rfl
                  exact hline cs hc rfl
                · rintro rfl
                  exact hblock cs hc rfl
              · rintro hc d hd
                obtain ⟨cs, rfl⟩ := List.head?_eq_some_iff.mp hd
                exact (hpoint d cs hc rfl).elim

theorem Scans.scan_eq (h : Scans cs found) : scan cs = found := by
  cases h with
  | literal h => rw [scan.eq_def, h]
  | done => rfl
  | space hc cs => exact scan_space hc cs
  | word hc hnone =>
    rw [scan.eq_def, hnone]
    simp [isSpace_of_startsIdentifier hc, hc]
  | number hc cs =>
    obtain ⟨hword, hquote, hspace⟩ := isDigit_apart hc
    rw [scan.eq_def, literalAt_plain hquote hword cs]
    simp [hspace, hword, hc]
  | line cs => rfl
  | block cs => rfl
  | directive cs => rfl
  | @point d hd cs =>
    rw [scan.eq_def, literalAt_plain rfl rfl (d :: cs)]
    exact if_pos hd
  | @mark c cs h =>
    rw [scan.eq_def, literalAt_plain h.quote h.word cs]
    simp only [h.space, h.word, h.digit, Bool.false_eq_true, if_false]
    split
    · exact absurd rfl (h.comment rfl '/' rfl).1
    · exact absurd rfl (h.comment rfl '*' rfl).2
    · exact absurd rfl h.directive
    · rename_i d _
      simp [h.point rfl d rfl]
    · rfl

theorem IsMark.of_head {rest' : List Char} (h : IsMark c rest) (hhead : rest'.head? = rest.head?) :
    IsMark c rest' :=
  ⟨h.quote, h.space, h.word, h.digit, h.directive, hhead ▸ h.comment, hhead ▸ h.point⟩

theorem scans_local (hs : Scans (t ++ orig) found) (h : found.2 + 3 ≤ t.length) :
    Scans (t ++ rest) found := by
  match t with
  | [] => exact absurd h (Nat.not_succ_le_zero _)
  | [_] =>
    rw [List.length_singleton] at h
    omega
  | c :: d :: t =>
    simp only [List.cons_append] at hs ⊢
    cases hs with
    | literal hl =>
      exact .literal (literalAt_local (t := c :: d :: t) hl (.inr (by omega)))
    | space hc cs =>
      have hrun : run isSpace (c :: d :: t ++ rest) = run isSpace (c :: d :: t ++ orig) :=
        run_local (Nat.le_trans (by simp) h)
      exact hrun ▸ .space hc (d :: (t ++ rest))
    | word hc hnone =>
      have hword : identifier (c :: d :: t ++ rest) = identifier (c :: d :: t ++ orig) :=
        identifier_ends (.inl (Nat.le_trans (Nat.add_le_add_left (by decide) _) h))
      refine hword ▸ .word hc (literalAt_eq_none (t := c :: d :: t) hnone (.inl ?_))
      exact Nat.le_trans (Nat.le_add_left 3 _) h
    | number hc cs =>
      have hnumber : number (c :: d :: t ++ rest) = number (c :: d :: t ++ orig) := number_local h
      exact hnumber ▸ .number hc (d :: (t ++ rest))
    | line cs =>
      have hrun : run (· != '\n') ('/' :: '/' :: t ++ rest) =
          run (· != '\n') ('/' :: '/' :: t ++ orig) := run_local (Nat.le_trans (by simp) h)
      exact hrun ▸ .line (t ++ rest)
    | block cs =>
      have hcomment : comment false (t ++ rest) = comment false (t ++ orig) := by
        refine comment_local ?_
        simp only [List.length_cons] at h
        omega
      exact hcomment ▸ .block (t ++ rest)
    | directive cs =>
      have hdirective : directive (d :: t ++ rest) = directive (d :: t ++ orig) := by
        refine directive_local ?_
        simp only [List.length_cons, List.cons_append] at h ⊢
        omega
      exact hdirective ▸ .directive (d :: (t ++ rest))
    | point hd cs =>
      have hfloat : float ('.' :: d :: t ++ rest) = float ('.' :: d :: t ++ orig) :=
        float_point_local h
      exact hfloat ▸ .point hd (t ++ rest)
    | mark hm =>
      have hthree : 3 ≤ (c :: d :: t).length := Nat.le_trans (Nat.le_add_left 3 _) h
      have hpunctuation :
          punctuationAt (c :: d :: t ++ rest) = punctuationAt (c :: d :: t ++ orig) :=
        punctuationAt_local hthree
      exact hpunctuation ▸ .mark (hm.of_head rfl)

theorem scan_local (h : (scan (t ++ orig)).2 + 3 ≤ t.length) :
    scan (t ++ rest) = scan (t ++ orig) :=
  (scans_local (scans (t ++ orig)) h).scan_eq

end CppRefactor.Lexer
