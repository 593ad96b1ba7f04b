import CppRefactor.Proofs.Syntax.Numbers
import CppRefactor.Proofs.Text.LineStarts
import Mathlib.Data.List.Find

/-!
What a scan makes of a line feed. White space, block comments and directives can go over one. Any
other token ends before the first line feed, and what is behind that does not matter to it.
-/

namespace CppRefactor.Lexer

open Text (AtLineEnd)

variable {p : Char → Bool} {c quote : Char} {cs rest : List Char}

theorem run_le (p : Char → Bool) (cs : List Char) : run p cs ≤ cs.length :=
  (List.takeWhile_prefix p).length_le

theorem drop_run_le (p q : Char → Bool) (cs : List Char) :
    run p cs + run q (cs.drop (run p cs)) ≤ cs.length := by
  have hp := run_le p cs
  have hq := run_le q (cs.drop (run p cs))
  rw [List.length_drop] at hq
  omega

theorem suffixed_le (isDigit : Char → Bool) (cs : List Char) :
    suffixed isDigit cs ≤ cs.length :=
  drop_run_le isDigit isIntegerSuffix cs

theorem integer_le (cs : List Char) : integer cs ≤ cs.length := by
  have hdecimal := suffixed_le isDigitOrQuote cs
  unfold integer
  split
  · rename_i b digits
    have hhex := suffixed_le isHexOrQuote digits
    have hbinary := suffixed_le isBinaryOrQuote digits
    simp only [List.length_cons] at hdecimal ⊢
    split
    · omega
    · split
      · omega
      · exact hdecimal
  · exact hdecimal

theorem exponent_le (cs : List Char) : exponent cs ≤ cs.length := by
  unfold exponent
  split
  · rename_i e cs
    split
    · split
      · rename_i sign digits
        have hdigits := run_le Char.isDigit digits
        have hall := run_le Char.isDigit (sign :: digits)
        simp only [List.length_cons] at hall ⊢
        split
        · split <;> omega
        · split <;> omega
      · exact Nat.zero_le _
    · exact Nat.zero_le _
  · exact Nat.zero_le _

theorem floatSuffix_le (cs : List Char) : floatSuffix cs ≤ cs.length := by
  unfold floatSuffix
  split
  · rw [List.length_cons]
    split <;> omega
  · exact Nat.zero_le _

theorem floatTail_le (cs : List Char) : floatTail cs ≤ cs.length := by
  have hexponent := exponent_le cs
  have hsuffix := floatSuffix_le (cs.drop (exponent cs))
  rw [List.length_drop] at hsuffix
  unfold floatTail
  dsimp only
  omega

theorem float_le (cs : List Char) : float cs ≤ cs.length := by
  have hwhole := run_le isDigitOrQuote cs
  have hlength := cs.length_drop (i := run isDigitOrQuote cs)
  unfold float
  dsimp only
  split
  · rename_i fraction hdrop
    have hfraction := run_le isDigitOrQuote fraction
    have htail := floatTail_le (fraction.drop (run isDigitOrQuote fraction))
    rw [hdrop, List.length_cons] at hlength
    rw [List.length_drop] at htail
    omega
  · have htail := floatTail_le (cs.drop (run isDigitOrQuote cs))
    split
    · exact Nat.zero_le _
    · omega

theorem number_le (cs : List Char) : (number cs).2 ≤ cs.length := by
  unfold number
  dsimp only
  split
  · exact float_le cs
  · exact integer_le cs

theorem quoted_le (quote : Char) (cs : List Char) : (quoted quote cs).2 ≤ cs.length := by
  induction cs using quoted.induct quote with
  | case1 => exact Nat.zero_le _
  | case2 => exact Nat.zero_le _
  | case3 => simp [quoted]
  | case4 c cs hc ih =>
    simp only [quoted, if_neg hc, List.length_cons]
    omega
  | case5 cs hesc => simp [quoted]
  | case6 cs hesc hq => simp [quoted, hq]
  | case7 c cs hesc hq hc ih =>
    simp only [quoted, if_neg hq, if_neg hc, List.length_cons]
    omega

theorem directive_escape (c : Char) (cs : List Char) :
    directive ('\\' :: c :: cs) = 2 + directive cs := by
  rw [directive]

theorem directive_feed (cs : List Char) : directive ('\n' :: cs) = 0 := by
  simp [directive]

theorem directive_plain (hesc : c ≠ '\\') (hend : c ≠ '\n') (cs : List Char) :
    directive (c :: cs) = 1 + directive cs := by
  rw [directive, if_neg hend]
  · exact fun _ _ h _ => hesc h
  · exact fun h _ => hesc h

@[elab_as_elim]
theorem directive_induction {motive : List Char → Prop} (nil : motive [])
    (backslash : motive ['\\']) (escape : ∀ c cs, motive cs → motive ('\\' :: c :: cs))
    (feed : ∀ cs, motive ('\n' :: cs))
    (plain : ∀ c cs, c ≠ '\\' → c ≠ '\n' → motive cs → motive (c :: cs)) (cs : List Char) :
    motive cs := by
  induction cs using directive.induct with
  | case1 c cs ih => exact escape c cs ih
  | case2 => exact backslash
  | case3 cs => exact feed cs
  | case4 c cs hesc hlast hend ih =>
    refine plain c cs ?_ hend ih
    rintro rfl
    cases cs with
    | nil => exact hlast rfl rfl
    | cons d cs => exact hesc d cs rfl rfl
  | case5 => exact nil

theorem directive_le (cs : List Char) : directive cs ≤ cs.length := by
  induction cs using directive_induction with
  | nil => exact Nat.zero_le _
  | backslash => exact Nat.zero_le _
  | escape c cs ih =>
    simp only [directive_escape, List.length_cons]
    omega
  | feed cs =>
    rw [directive_feed]
    exact Nat.zero_le _
  | plain c cs hesc hend ih =>
    rw [directive_plain hesc hend, List.length_cons]
    omega

theorem comment_le (starred : Bool) (cs : List Char) : comment starred cs ≤ cs.length := by
  induction cs generalizing starred with
  | nil => exact Nat.zero_le _
  | cons c cs ih =>
    have hrest := ih (c == '*')
    rw [comment, List.length_cons]
    split <;> omega

theorem punctuationAt_le (cs : List Char) :
    ((punctuationAt (c :: cs)).getD (.error, 1)).2 ≤ (c :: cs).length := by
  cases hp : punctuationAt (c :: cs) with
  | none => exact Nat.succ_le_succ (Nat.zero_le _)
  | some found =>
    obtain ⟨spelled, hf, rfl⟩ := Option.map_eq_some_iff.mp hp
    have hfound := List.find?_some hf
    exact (List.isPrefixOf_iff_prefix.mp hfound).length_le

theorem literalAt_le (h : literalAt skip cs = some found) : found.2 ≤ cs.length := by
  have hlength := cs.length_drop (i := skip)
  unfold literalAt at h
  split at h
  · rename_i rest hdrop
    have hquoted := quoted_le '"' rest
    cases h
    rw [hdrop, List.length_cons] at hlength
    dsimp only
    omega
  · rename_i rest hdrop
    have hquoted := quoted_le '\'' rest
    cases h
    rw [hdrop, List.length_cons] at hlength
    dsimp only
    omega
  · cases h

theorem scan_le (cs : List Char) : (scan cs).2 ≤ cs.length := by
  simp only [scan]
  split
  · rename_i hl
    exact literalAt_le hl
  · split
    · exact Nat.zero_le _
    · rename_i c cs _
      split
      · exact run_le _ _
      · split
        · exact run_le _ _
        · split
          · exact number_le _
          · split
            · exact run_le _ _
            · exact Nat.le_trans (Nat.add_le_add_left (comment_le false _) 2)
                (Nat.le_of_eq (Nat.add_comm ..))
            · exact Nat.le_trans (Nat.add_le_add_left (directive_le _) 1)
                (Nat.le_of_eq (Nat.add_comm ..))
            · split
              · exact float_le ('.' :: _)
              · exact punctuationAt_le _
            · exact punctuationAt_le _

theorem drop_lineFeed (h : n ≤ cs.length) (rest : List Char) :
    (cs ++ '\n' :: rest).drop n = cs.drop n ++ '\n' :: rest :=
  List.drop_append_of_le_length h

theorem run_lineFeed (hp : p '\n' = false) (cs rest : List Char) :
    run p (cs ++ '\n' :: rest) = run p cs := by
  induction cs with
  | nil => simp [run, hp]
  | cons c cs ih =>
    unfold run at ih ⊢
    rw [List.cons_append, List.takeWhile_cons, List.takeWhile_cons]
    split
    · rw [List.length_cons, List.length_cons, ih]
    · rfl

/-- Nothing goes on at a line feed, whatever of the text a number takes. -/
theorem ends_lineFeed (h : n ≤ cs.length) (rest : List Char) : Ends 3 cs ('\n' :: rest) n := by
  refine .inr ⟨h, fun c hc => ?_⟩
  obtain rfl := Option.some.inj hc
  decide

theorem parted_lineFeed (cs rest : List Char) (n : Nat) : Parted cs ('\n' :: rest) n := by
  refine ⟨fun _ => nofun, fun m _ e _ _ s hs => ?_⟩
  obtain rfl := Option.some.inj hs
  rfl

theorem float_lineFeed (cs rest : List Char) : float (cs ++ '\n' :: rest) = float cs := by
  have hwhole : whole (cs ++ []) ≤ cs.length := by
    rw [List.append_nil]
    exact run_le isDigitOrQuote cs
  have hfloat : float (cs ++ []) ≤ cs.length := by
    rw [List.append_nil]
    exact float_le cs
  have h := float_ends hwhole hfloat (ends_lineFeed (Nat.le_refl _) rest)
    (parted_lineFeed cs rest _)
  rwa [List.append_nil] at h

theorem number_lineFeed (c : Char) (cs rest : List Char) :
    number (c :: cs ++ '\n' :: rest) = number (c :: cs) := by
  have hnumber : (number (c :: cs ++ [])).2 ≤ (c :: cs).length := by
    rw [List.append_nil]
    exact number_le (c :: cs)
  have h := number_ends hnumber (ends_lineFeed (Nat.le_refl _) rest)
    fun _ => parted_lineFeed (c :: cs) rest _
  rwa [List.append_nil] at h

theorem quoted_lineFeed (h : quote ≠ '\n') (cs rest : List Char) :
    quoted quote (cs ++ '\n' :: rest) = quoted quote cs := by
  induction cs using quoted.induct quote with
  | case1 => simp [quoted, h.symm]
  | case2 => simp [quoted]
  | case3 => simp [quoted]
  | case4 c cs hc ih => simp_all [quoted]
  | case5 cs hesc => simp [quoted]
  | case6 cs hesc hq => simp [quoted, hq]
  | case7 c cs hesc hq hc ih => simp_all [quoted]

theorem encodingPrefix_cons (c : Char) (cs : List Char) :
    encodingPrefix (c :: cs) =
      if c = 'u' then if cs.head? = some '8' then 2 else 1
      else if c = 'U' ∨ c = 'L' then 1 else 0 := by
  by_cases hu : c = 'u'
  · subst hu
    cases cs with
    | nil => rfl
    | cons d cs =>
      by_cases hd : d = '8'
      · subst hd
        rfl
      · simp [encodingPrefix, hd]
  · rw [if_neg hu]
    unfold encodingPrefix
    split <;> simp_all

theorem encodingPrefix_lineFeed (cs rest : List Char) :
    encodingPrefix (cs ++ '\n' :: rest) = encodingPrefix cs := by
  match cs with
  | [] => rfl
  | [c] => simp [encodingPrefix_cons]
  | c :: d :: cs => simp [encodingPrefix_cons]

theorem encodingPrefix_le (cs : List Char) : encodingPrefix cs ≤ cs.length := by
  unfold encodingPrefix
  split <;> simp

theorem literalAt_lineFeed (h : skip ≤ cs.length) (rest : List Char) :
    literalAt skip (cs ++ '\n' :: rest) = literalAt skip cs := by
  simp only [literalAt, drop_lineFeed h]
  cases cs.drop skip with
  | nil => rfl
  | cons c cs =>
    by_cases hd : c = '"'
    · subst hd
      simp [quoted_lineFeed]
    · by_cases hs : c = '\''
      · subst hs
        simp [quoted_lineFeed]
      · simp [hd, hs]

theorem identifier_lineFeed (cs rest : List Char) :
    identifier (cs ++ '\n' :: rest) = identifier cs := by
  have hrun := run_lineFeed (p := Text.continuesIdentifier) (by decide) cs rest
  have htake : (cs ++ '\n' :: rest).take (run Text.continuesIdentifier cs) =
      cs.take (run Text.continuesIdentifier cs) :=
    List.take_append_of_le_length (run_le Text.continuesIdentifier cs)
  simp only [identifier, hrun, htake]

theorem lineFeed_notMem_punctuation : ∀ spelled ∈ punctuation, '\n' ∉ spelled.1 := by decide

theorem isPrefixOf_lineFeed {spelling : List Char} (h : '\n' ∉ spelling) (cs rest : List Char) :
    spelling.isPrefixOf (cs ++ '\n' :: rest) = spelling.isPrefixOf cs := by
  induction spelling generalizing cs with
  | nil => simp
  | cons s spelling ih =>
    rw [List.mem_cons, not_or] at h
    cases cs with
    | nil => simp [List.isPrefixOf, Ne.symm h.1]
    | cons c cs => simp [List.isPrefixOf, ih h.2]

theorem punctuationAt_lineFeed (cs rest : List Char) :
    punctuationAt (cs ++ '\n' :: rest) = punctuationAt cs := by
  unfold punctuationAt
  refine congrArg (Option.map _) (List.find?_congr fun spelled h => ?_)
  exact isPrefixOf_lineFeed (lineFeed_notMem_punctuation spelled h) cs rest

theorem encodingPrefix_space (h : isSpace c = true) (cs : List Char) :
    encodingPrefix (c :: cs) = 0 := by
  rw [encodingPrefix_cons, if_neg, if_neg]
  · rintro (rfl | rfl) <;> cases h
  · rintro rfl
    cases h

theorem scan_space (h : isSpace c = true) (cs : List Char) :
    scan (c :: cs) = (.whitespace, run isSpace (c :: cs)) := by
  have hnone : literalAt 0 (c :: cs) = none := by
    unfold literalAt
    split
    · rename_i heq
      cases heq
      cases h
    · rename_i heq
      cases heq
      cases h
    · rfl
  rw [scan.eq_def, encodingPrefix_space h, hnone]
  exact if_pos h

theorem scan_directive (cs : List Char) : scan ('#' :: cs) = (.preproc, 1 + directive cs) := rfl

/-- White space, block comments and directives apart, what is behind a line feed does not matter to
a token before it. -/
theorem scan_lineFeed (hspace : isSpace c = false) (hdirective : c ≠ '#')
    (hcomment : c = '/' → cs.head? ≠ some '*') (rest : List Char) :
    scan (c :: cs ++ '\n' :: rest) = scan (c :: cs) := by
  have hliteral := literalAt_lineFeed (encodingPrefix_le (c :: cs)) rest
  rw [← encodingPrefix_lineFeed (c :: cs) rest] at hliteral
  rw [scan.eq_def, hliteral, encodingPrefix_lineFeed, scan.eq_def (c :: cs)]
  cases literalAt (encodingPrefix (c :: cs)) (c :: cs) with
  | some found => rfl
  | none =>
    have hidentifier := identifier_lineFeed (c :: cs) rest
    have hnumber := number_lineFeed c cs rest
    have hfloat := float_lineFeed (c :: cs) rest
    have hpunctuation := punctuationAt_lineFeed (c :: cs) rest
    have hline := run_lineFeed (p := (· != '\n')) rfl (c :: cs) rest
    simp only [List.cons_append] at *
    simp only [hspace, Bool.false_eq_true, if_false, hidentifier, hnumber]
    congr 2
    by_cases hslash : c = '/'
    · subst hslash
      cases cs with
      | nil => exact congrArg (Option.getD · (.error, 1)) hpunctuation
      | cons d cs =>
        have hstar : d ≠ '*' := fun hd => hcomment rfl (congrArg some hd)
        by_cases hd : d = '/'
        · subst hd
          exact congrArg (Prod.mk Kind.lineComment) hline
        · simp_all
    · by_cases hdot : c = '.'
      · subst hdot
        cases cs with
        | nil => exact congrArg (Option.getD · (.error, 1)) hpunctuation
        | cons d cs => simp_all
      · simp [hslash, hdot, hpunctuation]

theorem run_isSpace_lineFeed (h : ∃ c ∈ cs, isSpace c = false) (rest : List Char) :
    run isSpace (cs ++ '\n' :: rest) = run isSpace cs := by
  obtain ⟨c, hc, hspace⟩ := h
  unfold run
  rw [List.takeWhile_append, if_neg]
  intro hlength
  have hall := (List.takeWhile_prefix isSpace).eq_of_length hlength
  rw [← hall] at hc
  exact Bool.false_ne_true (hspace.symm.trans (List.mem_takeWhile_imp hc))

theorem comment_lineFeed {starred : Bool} (h : comment starred (cs ++ '\n' :: rest) ≤ cs.length)
    (rest' : List Char) :
    comment starred (cs ++ '\n' :: rest') = comment starred (cs ++ '\n' :: rest) := by
  induction cs generalizing starred with
  | nil => simp [comment] at h
  | cons c cs ih =>
    simp only [List.cons_append, comment, List.length_cons] at h ⊢
    split
    · rfl
    · rename_i hc
      rw [if_neg hc] at h
      rw [ih (by omega)]

theorem comment_stops (h : c ∈ (cs.drop (comment starred cs)).head?) : c = '/' := by
  induction cs generalizing starred with
  | nil => cases h
  | cons d cs ih =>
    rw [comment] at h
    split at h
    · rename_i hd
      rw [Bool.and_eq_true, decide_eq_true_eq] at hd
      exact (Option.some.inj h).symm.trans hd.1
    · rw [Nat.add_comm, List.drop_succ_cons] at h
      exact ih h

theorem directive_lineFeed (h : directive (cs ++ '\n' :: rest) ≤ cs.length) (rest' : List Char) :
    directive (cs ++ '\n' :: rest') = directive (cs ++ '\n' :: rest) := by
  induction cs using directive_induction with
  | nil => simp [directive_feed]
  | backslash =>
    simp only [List.cons_append, List.nil_append, directive_escape, List.length_singleton] at h
    omega
  | escape c cs ih =>
    simp only [List.cons_append, directive_escape, List.length_cons] at h ⊢
    rw [ih (by omega)]
  | feed cs => simp [directive_feed]
  | plain c cs hesc hend ih =>
    simp only [List.cons_append, directive_plain hesc hend, List.length_cons] at h ⊢
    rw [ih (by omega)]

/-- A directive goes up to a line feed, the end of the text or a backslash there. -/
theorem drop_directive (cs : List Char) :
    AtLineEnd (cs.drop (directive cs)) ∨ cs.drop (directive cs) = ['\\'] := by
  induction cs using directive_induction with
  | nil => exact .inl .bottom
  | backslash => exact .inr rfl
  | escape c cs ih =>
    rw [directive_escape, Nat.add_comm, List.drop_succ_cons, List.drop_succ_cons]
    exact ih
  | feed cs =>
    rw [directive_feed]
    exact .inl (.before cs)
  | plain c cs hesc hend ih =>
    rw [directive_plain hesc hend, Nat.add_comm, List.drop_succ_cons]
    exact ih

/-- How a token stands to a line feed behind it or inside of it. -/
inductive ScanOver (cs rest : List Char) : Prop
  /-- The token ends before the line feed, whatever is behind that. -/
  | within (hle : (scan (cs ++ '\n' :: rest)).2 ≤ cs.length)
      (hscan : ∀ rest', scan (cs ++ '\n' :: rest') = scan (cs ++ '\n' :: rest))
  /-- It is white space. -/
  | space (h : ∀ c ∈ cs, isSpace c = true)
  /-- It goes on as a directive or a comment does, up to where that stops. -/
  | across (hlt : cs.length < (scan (cs ++ '\n' :: rest)).2)
      (hstop : ∀ c ∈ ((cs ++ '\n' :: rest).drop (scan (cs ++ '\n' :: rest)).2).head?,
        c = '\n' ∨ c = '\\' ∨ c = '/')

theorem scanOver_space (h : isSpace c = true) (cs rest : List Char) :
    ScanOver (c :: cs) rest := by
  by_cases hall : ∀ d ∈ c :: cs, isSpace d = true
  · exact .space hall
  · have hex : ∃ d ∈ c :: cs, isSpace d = false := by
      simpa only [not_forall, exists_prop, Bool.not_eq_true] using hall
    have hscan (rest : List Char) :
        scan (c :: cs ++ '\n' :: rest) = (.whitespace, run isSpace (c :: cs)) := by
      rw [← run_isSpace_lineFeed hex rest]
      exact scan_space h _
    refine .within ?_ fun rest' => (hscan rest').trans (hscan rest).symm
    rw [hscan]
    exact run_le isSpace (c :: cs)

theorem scanOver_directive (cs rest : List Char) : ScanOver ('#' :: cs) rest := by
  have hscan (rest : List Char) :
      scan ('#' :: cs ++ '\n' :: rest) = (.preproc, 1 + directive (cs ++ '\n' :: rest)) := rfl
  by_cases hle : directive (cs ++ '\n' :: rest) ≤ cs.length
  · refine .within ?_ fun rest' => ?_
    · rw [hscan, List.length_cons]
      omega
    · rw [hscan, hscan, directive_lineFeed hle]
  · refine .across ?_ fun c hc => ?_
    · rw [hscan, List.length_cons]
      omega
    · rw [hscan, List.cons_append, Nat.add_comm, List.drop_succ_cons] at hc
      rcases drop_directive (cs ++ '\n' :: rest) with hend | hlast
      · exact .inl (hend.head hc)
      · rw [hlast] at hc
        exact .inr (.inl (Option.some.inj hc).symm)

theorem scanOver_comment (cs rest : List Char) : ScanOver ('/' :: '*' :: cs) rest := by
  have hscan (rest : List Char) : scan ('/' :: '*' :: cs ++ '\n' :: rest) =
      (.error, 2 + comment false (cs ++ '\n' :: rest)) := rfl
  by_cases hle : comment false (cs ++ '\n' :: rest) ≤ cs.length
  · refine .within ?_ fun rest' => ?_
    · rw [hscan]
      simp only [List.length_cons]
      omega
    · rw [hscan, hscan, comment_lineFeed hle]
  · refine .across ?_ fun c hc => ?_
    · rw [hscan]
      simp only [List.length_cons]
      omega
    · rw [hscan, List.cons_append, List.cons_append, Nat.add_comm, List.drop_succ_cons,
        List.drop_succ_cons] at hc
      exact .inr (.inr (comment_stops hc))

theorem scanOver (cs rest : List Char) : ScanOver cs rest := by
  cases cs with
  | nil => exact .space nofun
  | cons c cs =>
    by_cases hspace : isSpace c = true
    · exact scanOver_space hspace cs rest
    · by_cases hdirective : c = '#'
      · subst hdirective
        exact scanOver_directive cs rest
      · by_cases hcomment : c = '/' ∧ cs.head? = some '*'
        · obtain ⟨rfl, hstar⟩ := hcomment
          obtain ⟨cs, rfl⟩ := List.head?_eq_some_iff.mp hstar
          exact scanOver_comment cs rest
        · have hscan := scan_lineFeed (Bool.eq_false_iff.mpr hspace) hdirective
            (not_and.mp hcomment)
          refine .within ?_ fun rest' => (hscan rest').trans (hscan rest).symm
          rw [hscan]
          exact scan_le (c :: cs)

end CppRefactor.Lexer
