import CppRefactor.Proofs.Syntax.Identifiers
import CppRefactor.Proofs.Syntax.LineFeeds
import CppRefactor.Proofs.Text.LineStarts

/-!
The directives among the tokens of a text. One that only blanks stand before on its line is found
there whatever the lines before and behind it are, and what is put before or behind its line moves
the directives that follow but changes none.
-/

namespace CppRefactor

/-- A token as it is that much further behind. -/
def Token.movedBy (t : Token) (n : Nat) : Token := { t with offset := t.offset + n }

namespace Lexer

open Text (bytes AtLineStart AtLineEnd)

variable {c : Char} {cs ds line rest before after : List Char} {t : Token} {offset n : Nat}

theorem tokens_movedBy (offset n skip : Nat) (cs : List Char) :
    tokens (offset + n) skip cs = (tokens offset skip cs).map (·.movedBy n) := by
  induction cs generalizing offset skip with
  | nil => rw [tokens, tokens, List.map_nil]
  | cons c cs ih =>
    cases skip with
    | succ skip => exact ih offset skip
    | zero =>
      simp only [tokens, List.map_cons, Nat.add_right_comm offset n, ih]
      rfl

/-- Scanning token after token comes to the rest of a text. -/
inductive LeadsTo : List Char → List Char → Prop
  | refl (cs : List Char) : LeadsTo cs cs
  | scan {cs rest : List Char} (h : LeadsTo (cs.drop (scan cs).2) rest) : LeadsTo cs rest

theorem LeadsTo.suffix (h : LeadsTo cs rest) : rest <:+ cs := by
  induction h with
  | refl cs => exact List.suffix_rfl
  | scan _ ih => exact ih.trans (List.drop_suffix ..)

/-- The directives among the tokens of characters from an offset on. -/
def directives (offset : Nat) (cs : List Char) : List Token :=
  (tokens offset 0 cs).filter (·.kind == .preproc)

@[simp] theorem directives_nil (offset : Nat) : directives offset [] = [] := by
  rw [directives, tokens, List.filter_nil]

/-- The directives of a text: the first token, if it is one, and those behind it. -/
theorem directives_eq (offset : Nat) (h : cs ≠ []) :
    directives offset cs =
      (if (scan cs).1 == .preproc then [⟨.preproc, offset, .ofList (cs.take (scan cs).2)⟩]
        else []) ++
      directives (offset + bytes (cs.take (scan cs).2)) (cs.drop (scan cs).2) := by
  have hstop : Token.stop ⟨(scan cs).1, offset, .ofList (cs.take (scan cs).2)⟩ =
      offset + bytes (cs.take (scan cs).2) := by
    rw [Token.stop, ← Text.bytes_toList, String.toList_ofList]
  rw [directives, tokens_cons offset h, hstop, List.filter_cons]
  by_cases hkind : (scan cs).1 = .preproc
  · simp only [hkind]
    rfl
  · simp only [beq_eq_false_iff_ne.mpr hkind]
    rfl

theorem directives_of_ne (offset : Nat) (hcs : cs ≠ []) (h : (scan cs).1 ≠ .preproc) :
    directives offset cs =
      directives (offset + bytes (cs.take (scan cs).2)) (cs.drop (scan cs).2) := by
  rw [directives_eq offset hcs, if_neg (by simpa using h), List.nil_append]

theorem directives_movedBy (offset n : Nat) (cs : List Char) :
    directives (offset + n) cs = (directives offset cs).map (·.movedBy n) := by
  rw [directives, directives, tokens_movedBy, List.filter_map]
  rfl

theorem directives_hash (offset : Nat) (cs : List Char) :
    directives offset ('#' :: cs) =
      ⟨.preproc, offset, .ofList ('#' :: cs.take (directive cs))⟩ ::
        directives (offset + bytes ('#' :: cs.take (directive cs))) (cs.drop (directive cs)) := by
  rw [directives_eq offset (List.cons_ne_nil _ _), scan_directive]
  dsimp only
  rw [Nat.add_comm 1, List.take_succ_cons, List.drop_succ_cons]
  rfl

theorem eq_hash_of_scan (h : (scan cs).1 = .preproc) : ∃ rest, cs = '#' :: rest := by
  cases begins cs with
  | word hc hscan =>
    rw [hscan] at h
    exact absurd h (identifier_ne_preproc _)
  | hash rest => exact ⟨rest, rfl⟩
  | other hother => exact absurd h hother.2

theorem of_mem_directives (h : t ∈ directives offset cs) :
    ∃ before rest, cs = before ++ '#' :: rest ∧ LeadsTo cs ('#' :: rest) ∧
      t = ⟨.preproc, offset + bytes before, .ofList ('#' :: rest.take (directive rest))⟩ := by
  induction cs using scan_induction generalizing offset with
  | nil => simp at h
  | token cs hcs ih =>
    rw [directives_eq offset hcs] at h
    rcases List.mem_append.mp h with h | h
    · split at h
      · rename_i hkind
        obtain ⟨rest, rfl⟩ := eq_hash_of_scan (beq_iff_eq.mp hkind)
        refine ⟨[], rest, rfl, .refl _, ?_⟩
        rw [List.mem_singleton.mp h, scan_directive, Nat.add_comm 1, List.take_succ_cons]
        rfl
      · cases h
    · obtain ⟨before, rest, hdrop, hleads, rfl⟩ := ih h
      refine ⟨cs.take (scan cs).2 ++ before, rest, ?_, .scan hleads, ?_⟩
      · rw [List.append_assoc, ← hdrop, List.take_append_drop]
      · rw [Text.bytes_append, Nat.add_assoc]

/-- White space of the language in front of a text is none of its directives. -/
theorem directives_run (offset : Nat) (cs : List Char) :
    directives offset cs =
      directives (offset + bytes (cs.take (run isSpace cs))) (cs.drop (run isSpace cs)) := by
  cases cs with
  | nil => simp
  | cons c cs =>
    by_cases hc : isSpace c = true
    · have hscan := scan_space hc cs
      have hkind : (scan (c :: cs)).1 ≠ .preproc := by
        rw [hscan]
        exact nofun
      rw [directives_of_ne offset (List.cons_ne_nil c cs) hkind, hscan]
    · have hzero : run isSpace (c :: cs) = 0 := by simp [run, hc]
      rw [hzero]
      rfl

theorem directives_space (hc : isSpace c = true) (offset : Nat) (cs : List Char) :
    directives offset (c :: cs) = directives (offset + c.utf8Size) cs := by
  have hrun : run isSpace (c :: cs) = run isSpace cs + 1 := by simp [run, hc]
  rw [directives_run offset (c :: cs), directives_run (offset + c.utf8Size) cs, hrun,
    List.take_succ_cons, List.drop_succ_cons, Text.bytes_cons, Nat.add_assoc]

theorem isBlank_of_isSpace (h : isSpace c = true) : Text.isBlank c = true := by
  simp only [isSpace, Bool.or_eq_true, beq_iff_eq] at h
  rcases h with (((rfl | rfl) | rfl) | rfl) | rfl <;> rfl

theorem punctuationAt_eq_none (h : ∀ spelled ∈ punctuation, spelled.1.head? ≠ some c)
    (cs : List Char) : punctuationAt (c :: cs) = none := by
  rw [punctuationAt, Option.map_eq_none_iff, List.find?_eq_none]
  intro spelled hs hfront
  obtain ⟨rest, hrest⟩ := List.isPrefixOf_iff_prefix.mp hfront
  have hpos := punctuation_pos spelled hs
  refine h spelled hs ?_
  cases hspelling : spelled.1 with
  | nil => simp [hspelling] at hpos
  | cons d ds =>
    rw [hspelling] at hrest
    exact congrArg some (List.cons.inj hrest).1

/-- The code points of the blanks. -/
def blankCodes : List Nat :=
  [0x9, 0xA, 0xB, 0xC, 0xD, 0x20, 0x85, 0xA0, 0x1680, 0x2000, 0x2001, 0x2002, 0x2003, 0x2004,
    0x2005, 0x2006, 0x2007, 0x2008, 0x2009, 0x200A, 0x2028, 0x2029, 0x202F, 0x205F, 0x3000]

theorem mem_blankCodes (h : Text.isBlank c = true) : c.toNat ∈ blankCodes := by
  simp only [Text.isBlank, Bool.or_eq_true, Bool.and_eq_true, decide_eq_true_eq, beq_iff_eq] at h
  simp only [blankCodes, List.mem_cons, List.not_mem_nil]
  omega

theorem blankCodes_not_word : ∀ n ∈ blankCodes,
    Text.startsIdentifier (Char.ofNat n) = false ∧ (Char.ofNat n).isDigit = false := by
  decide +kernel

theorem punctuation_not_blank : ∀ spelled ∈ punctuation, ∀ c ∈ spelled.1.head?,
    Text.isBlank c = false := by
  have hall : punctuation.all fun spelled => spelled.1.head?.all fun c => !Text.isBlank c := by
    decide
  intro spelled hspelled c hc
  have hhead := List.all_eq_true.mp hall spelled hspelled
  exact (Bool.not_eq_true' _).mp ((Option.all_eq_true _ _).mp hhead c hc)

theorem scan_blank (h : Text.isBlank c = true) (hspace : isSpace c = false) (cs : List Char) :
    scan (c :: cs) = (.error, 1) := by
  have hne {d : Char} (hd : Text.isBlank d = false) : c ≠ d := by
    rintro rfl
    exact Bool.false_ne_true (hd.symm.trans h)
  have hword := blankCodes_not_word _ (mem_blankCodes h)
  rw [Char.ofNat_toNat] at hword
  have hpunctuation := punctuationAt_eq_none (c := c) (fun spelled hs hc =>
    hne (punctuation_not_blank spelled hs c hc) rfl) cs
  have hfront : encodingPrefix (c :: cs) = 0 := by
    rw [encodingPrefix_cons, if_neg (hne rfl), if_neg]
    exact not_or.mpr ⟨hne rfl, hne rfl⟩
  have hquote : c ≠ '"' := hne rfl
  have hapostrophe : c ≠ '\'' := hne rfl
  have hslash : c ≠ '/' := hne rfl
  have hhash : c ≠ '#' := hne rfl
  have hdot : c ≠ '.' := hne rfl
  simp [scan, hfront, literalAt, hquote, hapostrophe, hslash, hdot, hspace, hword,
    hpunctuation]

theorem directives_blank (h : Text.isBlank c = true) (offset : Nat) (cs : List Char) :
    directives offset (c :: cs) = directives (offset + c.utf8Size) cs := by
  by_cases hspace : isSpace c = true
  · exact directives_space hspace offset cs
  · have hscan := scan_blank h (Bool.eq_false_iff.mpr hspace) cs
    have hkind : (scan (c :: cs)).1 ≠ .preproc := by
      rw [hscan]
      exact nofun
    rw [directives_of_ne offset (List.cons_ne_nil c cs) hkind, hscan]
    rfl

theorem directives_append_blank (h : ∀ c ∈ cs, Text.isBlank c = true) (offset : Nat)
    (ds : List Char) : directives offset (cs ++ ds) = directives (offset + bytes cs) ds := by
  induction cs generalizing offset with
  | nil => rfl
  | cons c cs ih =>
    rw [List.cons_append, directives_blank (h c List.mem_cons_self),
      ih fun d hd => h d (.tail c hd), Text.bytes_cons, Nat.add_assoc]

theorem getLast?_tail_ne (h : (c :: cs).getLast? ≠ some d) : cs.getLast? ≠ some d := by
  cases cs with
  | nil => exact nofun
  | cons e cs => rwa [List.getLast?_cons_cons] at h

theorem directive_line (hline : '\n' ∉ line) (hlast : line.getLast? ≠ some '\\')
    (hend : AtLineEnd after) : directive (line ++ after) = line.length := by
  induction line using directive_induction with
  | nil =>
    cases hend with
    | bottom => rfl
    | before rest => exact directive_feed rest
  | backslash => exact absurd rfl hlast
  | escape c cs ih =>
    have hcs : '\n' ∉ cs := fun hmem => hline (.tail _ (.tail _ hmem))
    rw [List.cons_append, List.cons_append, directive_escape,
      ih hcs (getLast?_tail_ne (getLast?_tail_ne hlast))]
    simp only [List.length_cons]
    omega
  | feed cs => exact absurd List.mem_cons_self hline
  | plain c cs hesc hne ih =>
    rw [List.cons_append, directive_plain hesc hne,
      ih (fun hmem => hline (.tail _ hmem)) (getLast?_tail_ne hlast), List.length_cons]
    omega

theorem directives_line {blank : List Char} (hblank : ∀ c ∈ blank, Text.isBlank c = true)
    (hline : '\n' ∉ line) (hlast : line.getLast? ≠ some '\\') (hend : AtLineEnd after)
    (offset : Nat) :
    directives offset (blank ++ '#' :: line ++ after) =
      ⟨.preproc, offset + bytes blank, .ofList ('#' :: line)⟩ ::
        directives (offset + bytes (blank ++ '#' :: line)) after := by
  have hlength := directive_line hline hlast hend
  rw [List.append_assoc, directives_append_blank hblank, List.cons_append, directives_hash,
    hlength, List.take_left, List.drop_left, Text.bytes_append, Nat.add_assoc]

/-- A first token that ends before a line feed is taken from what is before that. -/
theorem directives_within {front : List Char} (h : (scan (front ++ '\n' :: cs)).2 ≤ front.length)
    (offset : Nat) :
    directives offset (front ++ '\n' :: cs) =
      (if (scan (front ++ '\n' :: cs)).1 == .preproc then
        [⟨.preproc, offset, .ofList (front.take (scan (front ++ '\n' :: cs)).2)⟩] else []) ++
      directives (offset + bytes (front.take (scan (front ++ '\n' :: cs)).2))
        (front.drop (scan (front ++ '\n' :: cs)).2 ++ '\n' :: cs) := by
  rw [directives_eq offset (List.append_ne_nil_of_right_ne_nil _ (List.cons_ne_nil _ _)),
    List.take_append_of_le_length h, List.drop_append_of_le_length h]

/-- What is left of a text behind its front, down to an end that it has. -/
theorem drop_eq_of_suffix {front middle tail : List Char} (hn : front.length ≤ n)
    (h : tail <:+ (front ++ (middle ++ tail)).drop n) :
    (front ++ (middle ++ tail)).drop n = middle.drop (n - front.length) ++ tail := by
  have hlength := h.length_le
  rw [List.drop_append, List.drop_eq_nil_of_le hn, List.nil_append] at hlength ⊢
  rw [List.length_drop, List.length_append] at hlength
  by_cases htail : tail = []
  · subst htail
    simp
  · have hpos := List.length_pos_iff.mpr htail
    exact List.drop_append_of_le_length (by omega)

/-- What is left of a text behind a token that takes a line feed with it does not begin like the end
of a directive or a comment, if it has the directive with only blanks before it on the next line. -/
theorem not_across {front blank : List Char} (hblank : ∀ c ∈ blank, Text.isBlank c = true)
    (hline : '\n' ∉ blank) (hlt : front.length < n)
    (hsuffix : '#' :: rest <:+ (front ++ '\n' :: (blank ++ '#' :: rest)).drop n) :
    ∃ c ∈ ((front ++ '\n' :: (blank ++ '#' :: rest)).drop n).head?,
      ¬ (c = '\n' ∨ c = '\\' ∨ c = '/') := by
  have hsplit : front ++ '\n' :: (blank ++ '#' :: rest) =
      (front ++ ['\n']) ++ (blank ++ '#' :: rest) := by simp
  rw [hsplit] at hsuffix ⊢
  rw [drop_eq_of_suffix (by simpa using Nat.succ_le_of_lt hlt) hsuffix]
  cases hleft : blank.drop (n - (front ++ ['\n']).length) with
  | nil => exact ⟨'#', rfl, by decide⟩
  | cons c left =>
    have hmem : c ∈ blank := (List.drop_suffix _ blank).subset (hleft ▸ List.mem_cons_self)
    refine ⟨c, rfl, ?_⟩
    rintro (rfl | rfl | rfl)
    · exact hline hmem
    · exact nomatch hblank _ hmem
    · exact nomatch hblank _ hmem

/-- A directive that only blanks stand before on its line sets the lines before apart from what is
there instead. -/
theorem directives_append_feed {front blank text : List Char}
    (hleads : LeadsTo text ('#' :: rest)) (htext : text = front ++ '\n' :: (blank ++ '#' :: rest))
    (hblank : ∀ c ∈ blank, Text.isBlank c = true) (hline : '\n' ∉ blank) (offset : Nat)
    (cs : List Char) :
    directives offset (front ++ '\n' :: cs) =
      directives offset (front ++ ['\n']) ++ directives (offset + bytes (front ++ ['\n'])) cs := by
  obtain ⟨hash, hhash⟩ : ∃ hash, hash = '#' :: rest := ⟨_, rfl⟩
  rw [← hhash] at hleads
  induction hleads generalizing front offset with
  | refl text =>
    have hlength := congrArg List.length (htext.symm.trans hhash)
    simp only [List.length_append, List.length_cons] at hlength
    omega
  | scan hrest ih =>
    subst htext hhash
    cases scanOver front (blank ++ '#' :: rest) with
    | space h =>
      have hskip (cs : List Char) : directives offset (front ++ '\n' :: cs) =
          directives (offset + bytes (front ++ ['\n'])) cs := by
        rw [← directives_append_blank, List.append_assoc, List.singleton_append]
        intro c hc
        rcases List.mem_append.mp hc with hc | hc
        · exact isBlank_of_isSpace (h c hc)
        · rw [List.mem_singleton.mp hc]
          rfl
      rw [hskip cs, hskip [], directives_nil, List.nil_append]
    | within hle hscan =>
      have hdrop := drop_lineFeed hle (blank ++ '#' :: rest)
      have hbehind (offset : Nat) := ih hdrop offset rfl
      have hfirst (cs : List Char) := directives_within ((hscan cs).symm ▸ hle) offset
      simp only [hscan] at hfirst
      rw [hfirst cs, hfirst [], hbehind, List.append_assoc, Nat.add_assoc, ← Text.bytes_append,
        ← List.append_assoc (List.take _ _), List.take_append_drop]
    | across hlt hstop =>
      obtain ⟨c, hc, hne⟩ := not_across hblank hline hlt hrest.suffix
      exact absurd (hstop c hc) hne

theorem directives_append_lineStart {front blank : List Char} (hfront : AtLineStart front)
    (hleads : LeadsTo (front ++ (blank ++ '#' :: rest)) ('#' :: rest))
    (hblank : ∀ c ∈ blank, Text.isBlank c = true) (hline : '\n' ∉ blank) (offset : Nat)
    (cs : List Char) :
    directives offset (front ++ cs) =
      directives offset front ++ directives (offset + bytes front) cs := by
  cases hfront with
  | top => simp
  | behind front =>
    rw [List.append_assoc, List.singleton_append]
    refine directives_append_feed hleads ?_ hblank hline offset cs
    rw [List.append_assoc, List.singleton_append]

theorem lineFeed_mem_of_drop_directive {between : List Char}
    (h : cs.drop (directive cs) = between ++ '#' :: rest) : '\n' ∈ between := by
  have hstop := drop_directive cs
  rw [h] at hstop
  cases between with
  | nil =>
    rcases hstop with hend | hlast
    · exact nomatch hend.head rfl
    · exact nomatch (List.cons.inj hlast).1
  | cons c between =>
    rcases hstop with hend | hlast
    · exact hend.head rfl ▸ List.mem_cons_self
    · exact absurd (List.cons.inj hlast).2 (by simp)

theorem directives_lines {text : String} {front : List Char} (h : text.toList = front ++ cs) :
    (directives (bytes front) cs).Pairwise fun s t =>
      (LineIndex.ofText text).lineOf s.offset < (LineIndex.ofText text).lineOf t.offset := by
  induction cs using scan_induction generalizing front with
  | nil => simp
  | token cs hcs ih =>
    have hnext : text.toList = front ++ cs.take (scan cs).2 ++ cs.drop (scan cs).2 := by
      rw [h, List.append_assoc, List.take_append_drop]
    have hrest := ih hnext
    rw [Text.bytes_append] at hrest
    rw [directives_eq _ hcs]
    split
    · rename_i hkind
      refine List.pairwise_cons.mpr ⟨fun t ht => ?_, hrest⟩
      obtain ⟨body, rfl⟩ := eq_hash_of_scan (beq_iff_eq.mp hkind)
      obtain ⟨between, rest, hdrop, -, rfl⟩ := of_mem_directives ht
      have hfeed : '\n' ∈ between := by
        rw [scan_directive, Nat.add_comm, List.drop_succ_cons] at hdrop
        exact lineFeed_mem_of_drop_directive hdrop
      rw [hdrop, ← List.append_assoc] at hnext
      have hpos := List.count_pos_iff.mpr hfeed
      rw [← Text.bytes_append, ← Text.bytes_append, LineIndex.lineOf_bytes h,
        LineIndex.lineOf_bytes hnext, List.count_append, List.count_append]
      omega
    · exact hrest

end Lexer

end CppRefactor
