import CppRefactor.Proofs.Grammar.Closers
import CppRefactor.Proofs.Grammar.Faults
import CppRefactor.Proofs.Syntax.Functions

/-!
The errors of a text: where they stand, and that the tree of a text without errors holds no skipped
words and has a closer wherever one belongs.
-/

namespace CppRefactor

theorem Tree.Tiles.starts (h : Tiles start ts stop) :
    (start :: (ts.map (·.span.start) ++ [stop])).Pairwise (· ≤ ·) := by
  induction ts generalizing start with
  | nil =>
    obtain rfl : start = stop := h
    simp
  | cons t ts ih =>
    obtain ⟨rfl, ht, hts⟩ := h
    obtain ⟨hbehind, hstarts⟩ := List.pairwise_cons.mp (ih hts)
    have hle : ∀ n ∈ ts.map (·.span.start) ++ [stop], t.span.start ≤ n :=
      fun n hn => Nat.le_trans ht.start_le_stop (hbehind n hn)
    refine List.pairwise_cons.mpr ⟨?_, List.pairwise_cons.mpr ⟨hle, hstarts⟩⟩
    exact List.forall_mem_cons.mpr ⟨Nat.le_refl _, hle⟩

theorem chars_tokenize (text : String) :
    (tokenize text).flatMap (·.text.toList) = text.toList := by
  have h := congrArg String.toList (tokenize_spells text)
  rwa [String.toList_join, List.flatMap_map] at h

theorem words_start (text : String) :
    (((tokenize text).filter (!·.isTrivia)).map (·.offset) ++ [text.utf8ByteSize]).Pairwise
      (· ≤ ·) := by
  obtain ⟨stop, htiles⟩ : ∃ stop, Tree.Tiles 0 ((tokenize text).map .token) stop := by
    have h := tokenize_consecutive text
    rw [← List.append_nil (tokenize text)] at h
    exact ⟨_, (Outline.advance_tiles h).1⟩
  have hstop : stop = text.utf8ByteSize := by
    have h := htiles.stop_eq
    rw [List.flatMap_map, Nat.zero_add] at h
    simp only [Tree.chars_token, chars_tokenize, Text.bytes_toList] at h
    exact h.symm
  have hstarts := (List.pairwise_cons.mp htiles.starts).2
  rw [hstop, List.map_map] at hstarts
  exact hstarts.sublist (.append (List.filter_sublist.map _) (.refl _))

/-- Where an error about the word behind the first `n` ones starts. -/
def errorStart (text : String) (n : Nat) : Nat :=
  ((((tokenize text).filter (!·.isTrivia)).map (·.offset))[n]?).getD text.utf8ByteSize

theorem errorStart_mono (text : String) (h : m ≤ n) : errorStart text m ≤ errorStart text n := by
  have hstarts := words_start text
  unfold errorStart
  generalize ((tokenize text).filter (!·.isTrivia)).map (·.offset) = starts at hstarts
  obtain ⟨hwords, -, hend⟩ := List.pairwise_append.mp hstarts
  by_cases hn : n < starts.length
  · have hm : m < starts.length := Nat.lt_of_le_of_lt h hn
    rw [List.getElem?_eq_getElem hn, List.getElem?_eq_getElem hm]
    rcases Nat.eq_or_lt_of_le h with rfl | hlt
    · exact Nat.le_refl _
    · exact List.pairwise_iff_getElem.mp hwords m n hm hn hlt
  · rw [List.getElem?_eq_none (Nat.le_of_not_lt hn)]
    by_cases hm : m < starts.length
    · rw [List.getElem?_eq_getElem hm]
      exact hend _ (List.getElem_mem hm) _ (List.mem_singleton_self _)
    · simp [List.getElem?_eq_none (Nat.le_of_not_lt hm)]

theorem parse_stop (text : String) : (parse text).tree.span.stop = text.utf8ByteSize := by
  have htext : (parse text).tree.text = text := (parse_lossless text).2.2.2.2
  have hstop := (parse_tiled text).stop_eq
  rw [← Tree.toList_text, htext, Text.bytes_toList] at hstop
  exact hstop.symm.trans (Nat.zero_add _)

theorem parse_errors (h : Grammar.Reads (tokenize text) s) :
    (parse text).errors = s.faults.reverse.map fun fault =>
      ⟨fault.complaint, ((((tokenize text).filter (!·.isTrivia))[fault.words]?).map Token.span).getD
        (.point text.utf8ByteSize)⟩ := by
  have hstop := parse_stop text
  simp only [parse, parseTokens, Grammar.outline, h.run] at hstop ⊢
  simp only [hstop, List.getElem?_toArray]

/-- What is woven of outlines without skipped words has no node of them. -/
theorem Outline.Sound.ne_error {p : Outline} (hp : p.Sound) {f : Feed}
    (ht : t ∈ (weave p f).1) (h : .node k s ts ∈ t.preorder) : k ≠ .error := by
  induction hp generalizing f t with
  | word =>
    obtain ⟨w, rfl⟩ := of_mem_next ht
    cases List.mem_singleton.mp h
  | gap => cases ht
  | @node k' ps hk _ ih =>
    obtain ⟨s', rfl⟩ := of_mem_weave_node ht
    rw [Tree.preorder_node, List.mem_cons] at h
    rcases h with h | h
    · cases h
      exact hk
    · obtain ⟨u, hu, h⟩ := List.mem_flatMap.mp h
      rcases of_mem_weaveAll hu with ⟨w, -, rfl⟩ | ⟨p, hp, g, hu, -⟩
      · cases List.mem_singleton.mp h
      · exact ih p hp hu h

/-- The trees begin with a token and end with one of that kind. -/
def Tree.Enclosed (closer : Kind) (ts : List Tree) : Prop :=
  ∃ opener inside last, ts = .token opener :: (inside ++ [.token last]) ∧
    opener.isTrivia = false ∧ last.kind = closer

namespace Outline

theorem enclosed_weaveAll {inside : List Outline} {f : Feed}
    (hlast : f.words[1 + wordsOf inside]? = some w) :
    Tree.Enclosed w.kind (weaveAll (.word :: (inside ++ [.word])) f.trivia.2).1 := by
  have hwords : wordsOf (.word :: inside) ≤ f.words.length :=
    Nat.le_of_lt (List.getElem?_eq_some_iff.mp hlast).1
  obtain ⟨opener, hopener, ts, hts⟩ := weaveAll_word hwords
  have hlast' : f.trivia.2.words[wordsOf (.word :: inside)]? = some w := by
    rw [f.trivia_words]
    exact hlast
  obtain ⟨blank, hblank⟩ := weaveAll_concat_word hlast'
  refine ⟨opener, ts ++ blank, w, ?_, by simpa using (List.mem_filter.mp hopener).2, rfl⟩
  rw [← List.cons_append, hblank, hts]
  rfl

mutual

/-- What is woven of a closed outline is enclosed if its kind has a closer. -/
theorem Closed.enclosed (p : Outline) {f : Feed} (hp : p.Closed (f.words.map Token.kind))
    (ht : t ∈ (weave p f.trivia.2).1) (h : .node k s ts ∈ t.preorder)
    (hk : k.closer? = some closer) : Tree.Enclosed closer ts := by
  cases p with
  | word =>
    obtain ⟨w, rfl⟩ := of_mem_next ht
    cases List.mem_singleton.mp h
  | gap => cases ht
  | node k' ps =>
    obtain ⟨s', rfl⟩ := of_mem_weave_node ht
    rw [Tree.preorder_node, List.mem_cons] at h
    rcases h with h | h
    · cases h
      obtain ⟨hlast, inside, rfl⟩ := hp.1 closer hk
      rw [List.getElem?_map, Option.map_eq_some_iff] at hlast
      obtain ⟨w, hw, rfl⟩ := hlast
      refine enclosed_weaveAll ?_
      simpa [Nat.add_comm] using hw
    · obtain ⟨u, hu, h⟩ := List.mem_flatMap.mp h
      rw [← f.trivia_words] at hp
      exact ClosedAll.enclosed ps hp.2 hu h hk

theorem ClosedAll.enclosed (ps : List Outline) {f : Feed}
    (hps : ClosedAll (f.words.map Token.kind) ps)
    (ht : t ∈ (weaveAll ps f).1) (h : .node k s ts ∈ t.preorder) (hk : k.closer? = some closer) :
    Tree.Enclosed closer ts := by
  cases ps with
  | nil => cases ht
  | cons p ps =>
    rcases List.mem_append.mp ht with ht | ht
    · rcases List.mem_append.mp ht with ht | ht
      · obtain ⟨w, -, rfl⟩ := List.mem_map.mp ht
        cases List.mem_singleton.mp h
      · exact Closed.enclosed p hps.1 ht h hk
    · have hrest : ClosedAll ((weave p f.trivia.2).2.words.map Token.kind) ps := by
        rw [weave_words, List.map_drop]
        exact hps.2
      exact ClosedAll.enclosed ps hrest ht h hk

end

end Outline

theorem Grammar.map_kind_wordsOf (gap : Gap) (ts : List Token) :
    (wordsOf gap ts).map Word.kind = (ts.filter (!·.isTrivia)).map Token.kind := by
  induction ts generalizing gap with
  | nil => rfl
  | cons t ts ih => by_cases ht : t.isTrivia = true <;> simp [wordsOf, ht, ih]

/-- In a text without errors nodes that have a closer begin with a token and end with it. -/
theorem IsTreeOf.enclosed (h : IsTreeOf text (.node k s ts)) (hok : (parse text).errors = [])
    (hk : k.closer? = some closer) : Tree.Enclosed closer ts := by
  obtain ⟨final, hreads⟩ := Grammar.exists_reads (tokenize text)
  have hfaults : final.faults = [] := by
    rw [parse_errors hreads] at hok
    simpa using hok
  obtain ⟨taken, hahead, hstands⟩ := Grammar.sourceFile_closes _ _ _ hreads.run
  have hclosed := ((hstands hfaults).2 [] ⟨rfl, trivial⟩).closed
  obtain ⟨t, ht, hmem⟩ := h.below (by rintro rfl; cases hk) hreads
  have hkinds : taken.map Grammar.Word.kind =
      (Outline.Feed.words ⟨0, tokenize text⟩).map Token.kind := by
    rw [hreads.ahead, List.append_nil] at hahead
    rw [← hahead]
    exact Grammar.map_kind_wordsOf .none _
  rw [List.nil_append, hkinds] at hclosed
  exact hclosed.enclosed _ ht hmem hk

/-- Errors come in the order of the text, each at a word or at the end. Without one no words were
skipped. -/
theorem parse_errors_stand (text : String) :
    ((parse text).errors.map (·.span.start)).Pairwise (· ≤ ·) ∧
    (∀ e ∈ (parse text).errors,
      (∃ t ∈ tokenize text, t.isTrivia = false ∧ e.span = t.span) ∨
        e.span = .point text.utf8ByteSize) ∧
    ((parse text).errors = [] → ∀ t, IsTreeOf text t → t.isNode = true → t.kind ≠ .error) := by
  obtain ⟨s, hs⟩ := Grammar.exists_reads (tokenize text)
  have hreports := Grammar.sourceFile_reports _ _ _ hs.run
  refine ⟨?_, fun e he => ?_, fun hnone t ht hnode => ?_⟩
  · have horder : s.InOrder := hreports.inOrder (List.pairwise_singleton _ _)
    have hfaults := List.pairwise_map.mp (List.pairwise_cons.mp horder).2
    have hstart : (parse text).errors.map (·.span.start) =
        s.faults.reverse.map fun fault => errorStart text fault.words := by
      rw [parse_errors hs, List.map_map]
      refine List.map_congr_left fun fault _ => ?_
      simp only [Function.comp_apply, errorStart, List.getElem?_map]
      cases ((tokenize text).filter (!·.isTrivia))[fault.words]? <;> rfl
    rw [hstart, List.pairwise_map, List.pairwise_reverse]
    exact hfaults.imp fun hle => errorStart_mono text hle
  · rw [parse_errors hs] at he
    obtain ⟨fault, -, rfl⟩ := List.mem_map.mp he
    cases hw : ((tokenize text).filter (!·.isTrivia))[fault.words]? with
    | none => exact .inr (by simp)
    | some w =>
      obtain ⟨hmem, hword⟩ := List.mem_filter.mp (List.mem_of_getElem? hw)
      exact .inl ⟨w, hmem, by simpa using hword, by simp⟩
  · have hfaults : s.faults = [] := by
      rw [parse_errors hs] at hnone
      simpa using hnone
    have hsound : s.Sound := (hreports.sound hfaults).2 nofun
    cases t with
    | token => cases hnode
    | node k span ts =>
      rintro rfl
      obtain ⟨p, hp, f, u, hu, -, hmem⟩ := ht.woven nofun hs
      exact (hsound p hp).ne_error hu hmem rfl

end CppRefactor
