import CppRefactor.Proofs.Text.Blanks
import CppRefactor.Proofs.Text.Slices

/-!
What indenting does to the lines of a text. A line that is not blank gets the base and the spaces
for the braces around it, and keeps what it has between its blanks. Nothing else of a line counts
for the depth, so that indented text is not moved again.
-/

namespace CppRefactor.Text

variable {base line : List Char} {lines : List (List Char)} {width depth : Nat}

theorem exists_trimChars (cs : List Char) :
    ∃ front back, code front = [] ∧ code back = [] ∧ cs = front ++ (trimChars cs ++ back) := by
  refine ⟨cs.takeWhile isBlank, takeLastWhile isBlank (trimFront cs), ?_, ?_, ?_⟩
  · exact code_eq_nil.mpr fun c hc => List.mem_takeWhile_imp hc
  · rw [code_eq_nil, takeLastWhile]
    intro c hc
    exact List.mem_takeWhile_imp (List.mem_reverse.mp hc)
  · have hback :
        trimBack (trimFront cs) ++ takeLastWhile isBlank (trimFront cs) = trimFront cs := by
      rw [trimBack, dropLastWhile, takeLastWhile, ← List.reverse_append,
        List.takeWhile_append_dropWhile, List.reverse_reverse]
    rw [trimChars, hback]
    exact List.takeWhile_append_dropWhile.symm

@[simp] theorem trimChars_trimChars (cs : List Char) : trimChars (trimChars cs) = trimChars cs := by
  obtain ⟨front, back, hfront, hback, hcs⟩ := exists_trimChars cs
  have h : trimChars cs = trimChars (front ++ (trimChars cs ++ back)) := congrArg trimChars hcs
  rw [trimChars_append_left hfront, trimChars_append_right hback] at h
  exact h.symm

theorem mem_of_mem_trimChars {cs : List Char} (h : c ∈ trimChars cs) : c ∈ cs := by
  obtain ⟨front, back, -, -, hcs⟩ := exists_trimChars cs
  rw [hcs]
  exact List.mem_append_right _ (List.mem_append_left _ h)

theorem joinLines_concat (hne : lines ≠ []) (last : List Char) :
    joinLines (lines ++ [last]) = joinLines lines ++ '\n' :: last := by
  induction lines with
  | nil => exact absurd rfl hne
  | cons first rest ih =>
    cases rest with
    | nil => simp [joinLines]
    | cons second rest =>
      have ih := ih (List.cons_ne_nil _ _)
      simp only [joinLines, List.cons_append, List.intercalate_cons_cons] at ih ⊢
      rw [ih, List.append_assoc, List.append_assoc, List.append_assoc]

theorem splitLines_lineFeed (cs : List Char) :
    splitLines (cs ++ ['\n']) = splitLines cs ++ [[]] := by
  rw [splitLines_eq, splitLines_eq, List.splitOn_append_cons_self, List.splitOn_nil]

theorem linesOf_lineFeed (cs : List Char) : linesOf (cs ++ ['\n']) = splitLines cs := by
  simp [linesOf, splitLines_lineFeed]

theorem linesOf_of_getLast? {cs : List Char} (hne : cs ≠ []) (h : cs.getLast? ≠ some '\n') :
    linesOf cs = splitLines cs := by
  have hlast : (splitLines cs).getLast? ≠ some [] := by
    intro hlast
    obtain ⟨init, hinit⟩ := List.getLast?_eq_some_iff.mp hlast
    have hcs := joinLines_splitLines cs
    rw [hinit] at hcs
    by_cases hnil : init = []
    · rw [hnil] at hcs
      exact hne hcs.symm
    · rw [joinLines_concat hnil] at hcs
      rw [← hcs, List.getLast?_concat] at h
      exact h rfl
  simp [linesOf, hlast]

/-- How many braces are open behind a line, if `depth` are open before it. -/
def depthBehind (depth : Nat) (line : List Char) : Nat :=
  depth + (bracesOf (trimChars line)).opened - (bracesOf (trimChars line)).closed

/-- How many braces are open where a line begins. -/
def depthAt (lines : List (List Char)) (n : Nat) : Nat := (lines.take n).foldl depthBehind 0

/-- A line behind the base and the spaces for the open braces that it does not close at once. -/
def indentLine (base : List Char) (width depth : Nat) (line : List Char) : List Char :=
  if (trimChars line).isEmpty then []
  else base ++ spaces (width * (depth - (bracesOf (trimChars line)).leading)) ++ trimChars line

theorem indentLines_cons (base : List Char) (width depth : Nat) (line : List Char)
    (lines : List (List Char)) :
    indentLines base width depth (line :: lines) =
      indentLine base width depth line ::
        indentLines base width (depthBehind depth line) lines := by
  rw [indentLines, indentLine, depthBehind]
  split
  · rename_i h
    rw [List.isEmpty_iff.mp h]
    rfl
  · rfl

theorem trimChars_indentLine (hbase : code base = []) (width depth : Nat) (line : List Char) :
    trimChars (indentLine base width depth line) = trimChars line := by
  rw [indentLine]
  split
  · rename_i h
    exact (List.isEmpty_iff.mp h).symm
  · have hfront : code (base ++ spaces (width * (depth - (bracesOf (trimChars line)).leading))) =
        [] := by
      rw [code_append, hbase, code_spaces, List.nil_append]
    rw [trimChars_append_left hfront, trimChars_trimChars]

theorem lineFeed_notMem_indentLine (hbase : '\n' ∉ base) (h : '\n' ∉ line) :
    '\n' ∉ indentLine base width depth line := by
  rw [indentLine]
  split
  · exact List.not_mem_nil
  · rw [List.mem_append, List.mem_append, not_or, not_or]
    refine ⟨⟨hbase, fun hspaces => ?_⟩, fun hline => h (mem_of_mem_trimChars hline)⟩
    cases List.eq_of_mem_replicate hspaces

theorem indentLines_eq_mapIdx (base : List Char) (width depth : Nat) (lines : List (List Char)) :
    indentLines base width depth lines =
      lines.mapIdx fun n => indentLine base width ((lines.take n).foldl depthBehind depth) := by
  induction lines generalizing depth with
  | nil => rfl
  | cons line lines ih =>
    rw [indentLines_cons, List.mapIdx_cons, ih]
    rfl

theorem length_indentLines (base : List Char) (width depth : Nat) (lines : List (List Char)) :
    (indentLines base width depth lines).length = lines.length := by
  rw [indentLines_eq_mapIdx, List.length_mapIdx]

theorem indentLines_ne_nil (base : List Char) (width depth : Nat) (h : lines ≠ []) :
    indentLines base width depth lines ≠ [] := by
  rw [← List.length_pos_iff, length_indentLines]
  exact List.length_pos_iff.mpr h

theorem indentLines_concat_nil (base : List Char) (width depth : Nat) (lines : List (List Char)) :
    indentLines base width depth (lines ++ [[]]) = indentLines base width depth lines ++ [[]] := by
  induction lines generalizing depth with
  | nil => rfl
  | cons line lines ih =>
    rw [List.cons_append, indentLines_cons, indentLines_cons, ih, List.cons_append]

theorem lineFeed_notMem_indentLines (hbase : '\n' ∉ base) (h : ∀ line ∈ lines, '\n' ∉ line) :
    ∀ line ∈ indentLines base width depth lines, '\n' ∉ line := by
  intro line hline
  rw [indentLines_eq_mapIdx] at hline
  obtain ⟨n, hn, rfl⟩ := List.mem_mapIdx.mp hline
  exact lineFeed_notMem_indentLine hbase (h _ (List.getElem_mem hn))

theorem map_trimChars_indentLines (hbase : code base = []) (width depth : Nat)
    (lines : List (List Char)) :
    (indentLines base width depth lines).map trimChars = lines.map trimChars := by
  induction lines generalizing depth with
  | nil => rfl
  | cons line lines ih =>
    rw [indentLines_cons, List.map_cons, List.map_cons, trimChars_indentLine hbase, ih]

theorem indentLines_map_trimChars (base : List Char) (width depth : Nat)
    (lines : List (List Char)) :
    indentLines base width depth (lines.map trimChars) = indentLines base width depth lines := by
  induction lines generalizing depth with
  | nil => rfl
  | cons line lines ih =>
    rw [List.map_cons, indentLines_cons, indentLines_cons, ih, indentLine, indentLine, depthBehind,
      depthBehind, trimChars_trimChars]

/-- The braces are read on trimmed lines, and indenting leaves those as they are. -/
theorem indentLines_indentLines (hbase : code base = []) (width depth : Nat)
    (lines : List (List Char)) :
    indentLines base width depth (indentLines base width depth lines) =
      indentLines base width depth lines := by
  calc indentLines base width depth (indentLines base width depth lines)
      = indentLines base width depth ((indentLines base width depth lines).map trimChars) :=
        (indentLines_map_trimChars ..).symm
    _ = indentLines base width depth (lines.map trimChars) := by
        rw [map_trimChars_indentLines hbase]
    _ = indentLines base width depth lines := indentLines_map_trimChars ..

/-- A line feed at the end of a text has an empty line behind it, and that one is not indented. -/
theorem toList_reindent (text base : String) (width : Nat) :
    (reindent text base width).toList =
      joinLines (indentLines base.toList width 0 (splitLines text.toList)) := by
  simp only [reindent, String.toList_ofList]
  obtain hnil | ⟨cs, c, hcs⟩ := text.toList.eq_nil_or_concat
  · rw [hnil]
    rfl
  · rw [List.concat_eq_append] at hcs
    rw [hcs]
    by_cases hc : c = '\n'
    · have hne := indentLines_ne_nil base.toList width 0 (splitLines_ne_nil cs)
      rw [hc, linesOf_lineFeed, splitLines_lineFeed, indentLines_concat_nil, joinLines_concat hne,
        List.getLast?_concat]
      rfl
    · have hlast : (cs ++ [c]).getLast? ≠ some '\n' := by simpa using hc
      rw [linesOf_of_getLast? (List.concat_ne_nil c cs) hlast, if_neg (by simpa using hlast)]

theorem splitLines_reindent {base : String} (hbase : '\n' ∉ base.toList) (text : String)
    (width : Nat) :
    splitLines (reindent text base width).toList =
      indentLines base.toList width 0 (splitLines text.toList) := by
  have hne : indentLines base.toList width 0 (splitLines text.toList) ≠ [] :=
    indentLines_ne_nil base.toList width 0 (splitLines_ne_nil _)
  rw [toList_reindent, splitLines_eq, joinLines, List.splitOn_intercalate _ _ hne]
  refine lineFeed_notMem_indentLines hbase fun line hline => ?_
  rw [splitLines_eq] at hline
  exact notMem_of_mem_splitOn hline

/-- The lines of a text that are not blank, without the blanks around them. -/
def codeLines (text : String) : List (List Char) :=
  ((text.toList.splitOn '\n').map trimChars).filter (!·.isEmpty)

/-- Every line of indented text stands at its depth. Indenting keeps the lines that say something
and all line feeds, and a second time it changes nothing. -/
theorem reindent_keeps_lines (text base : String) (width : Nat)
    (hbase : ∀ c ∈ base.toList, c = ' ' ∨ c = '\t') :
    (reindent text base width).toList.splitOn '\n' =
        (text.toList.splitOn '\n').mapIdx (fun n =>
          indentLine base.toList width (depthAt (text.toList.splitOn '\n') n)) ∧
      codeLines (reindent text base width) = codeLines text ∧
      (reindent text base width).toList.count '\n' = text.toList.count '\n' ∧
      reindent (reindent text base width) base width = reindent text base width := by
  have hblank : code base.toList = [] := by
    rw [code_eq_nil]
    intro c hc
    rcases hbase c hc with rfl | rfl <;> rfl
  have hfeed : '\n' ∉ base.toList := fun h => absurd (hbase _ h) (by decide)
  have hlines := splitLines_reindent hfeed text width
  refine ⟨?_, ?_, ?_, ?_⟩
  · rw [← splitLines_eq, ← splitLines_eq, hlines]
    exact indentLines_eq_mapIdx ..
  · rw [codeLines, codeLines, ← splitLines_eq, ← splitLines_eq, hlines,
      map_trimChars_indentLines hblank]
  · have hlength := length_indentLines base.toList width 0 (splitLines text.toList)
    rw [← hlines, splitLines_eq, splitLines_eq, length_splitOn, length_splitOn] at hlength
    exact Nat.succ.inj hlength
  · rw [← String.toList_inj, toList_reindent, hlines, indentLines_indentLines hblank,
      ← toList_reindent]

/-- Braces in quotes do not count, and no more are closed than are open. -/
theorem reindent_keeps_lines_block :
    (∀ c ∈ "\t".toList, c = ' ' ∨ c = '\t') ∧
      reindent " if (c == '\x7b') \x7b \n\n f();\r\n\x7d \x7d\n\tg();" "\t" 2 =
        "\tif (c == '\x7b') \x7b\n\n\t  f();\n\t\x7d \x7d\n\tg();" ∧
      codeLines "\tif (c == '\x7b') \x7b\n\n\t  f();\n\t\x7d \x7d\n\tg();" =
        codeLines " if (c == '\x7b') \x7b \n\n f();\r\n\x7d \x7d\n\tg();" ∧
      reindent "\tif (c == '\x7b') \x7b\n\n\t  f();\n\t\x7d \x7d\n\tg();" "\t" 2 =
        "\tif (c == '\x7b') \x7b\n\n\t  f();\n\t\x7d \x7d\n\tg();" := by
  have hbase : ∀ c ∈ "\t".toList, c = ' ' ∨ c = '\t' := List.forall_mem_singleton.mpr (.inr rfl)
  have htext : reindent " if (c == '\x7b') \x7b \n\n f();\r\n\x7d \x7d\n\tg();" "\t" 2 =
      "\tif (c == '\x7b') \x7b\n\n\t  f();\n\t\x7d \x7d\n\tg();" := by decide
  obtain ⟨-, hcode, -, hagain⟩ := reindent_keeps_lines
    " if (c == '\x7b') \x7b \n\n f();\r\n\x7d \x7d\n\tg();" "\t" 2 hbase
  rw [htext] at hcode hagain
  exact ⟨hbase, htext, hcode, hagain⟩

/-- A base that is not blank is put before itself. -/
example : reindent (reindent "x;" "//" 2) "//" 2 = "////x;" := by decide

end CppRefactor.Text
