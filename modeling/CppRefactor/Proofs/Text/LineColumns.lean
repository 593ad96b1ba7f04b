import CppRefactor.Proofs.Text.LineStarts
import CppRefactor.Proofs.Text.Lines

/-!
Offsets and places of a text stand for each other. Each offset up to the end of the text is on one
line, so that its place leads back to it, and a line number and a column lead to an offset only if
they are the place of it. The lines, each with its line feed, are the text cut behind its line
feeds.
-/

namespace CppRefactor

/-- Places go by the line, and on one line by the column. -/
instance : LT LineCol := ⟨fun p q => p.line < q.line ∨ p.line = q.line ∧ p.col < q.col⟩

theorem LineCol.lt_iff {p q : LineCol} :
    p < q ↔ p.line < q.line ∨ p.line = q.line ∧ p.col < q.col := Iff.rfl

namespace Text

/-- Every offset is the end of some characters, or inside of the character behind them. -/
theorem exists_front (h : o ≤ bytes cs) :
    ∃ front back, cs = front ++ back ∧ bytes front ≤ o ∧
      ∀ c ∈ back.head?, o < bytes front + c.utf8Size := by
  induction cs generalizing o with
  | nil => exact ⟨[], [], rfl, Nat.zero_le o, nofun⟩
  | cons c cs ih =>
    rw [bytes_cons] at h
    by_cases hc : o < c.utf8Size
    · refine ⟨[], c :: cs, rfl, Nat.zero_le o, fun d hd => ?_⟩
      cases hd
      simpa using hc
    · obtain ⟨front, back, rfl, hle, hlt⟩ := ih (o := o - c.utf8Size) (by omega)
      refine ⟨c :: front, back, rfl, ?_, fun d hd => ?_⟩
      · rw [bytes_cons]
        omega
      · have hd := hlt d hd
        rw [bytes_cons]
        omega

theorem exists_isLine_at (h : o ≤ bytes cs) :
    ∃ before line after, IsLine before line after cs ∧
      bytes before ≤ o ∧ o ≤ bytes (before ++ line) := by
  obtain ⟨front, back, rfl, hle, hlt⟩ := exists_front h
  obtain ⟨before, left, right, after, rfl, rfl, hline⟩ := exists_isLine front back
  refine ⟨before, left ++ right, after, hline, ?_, ?_⟩
  · rw [bytes_append] at hle
    omega
  · cases right with
    | cons c right =>
      have hc := hlt c rfl
      simp only [bytes_append, bytes_cons] at hc ⊢
      omega
    | nil =>
      cases hline.ends with
      | bottom =>
        simp only [bytes_append, bytes_nil] at h ⊢
        omega
      | before rest =>
        have hfeed : o < bytes (before ++ left) + 1 := hlt '\n' rfl
        rw [List.append_nil]
        omega

theorem exists_isLine_of_le_count (h : n ≤ cs.count '\n') :
    ∃ before line after, IsLine before line after cs ∧ before.count '\n' = n := by
  have hfront : ∃ front back, cs = front ++ back ∧ front.count '\n' = n := by
    induction cs generalizing n with
    | nil =>
      obtain rfl : n = 0 := Nat.le_zero.mp h
      exact ⟨[], [], rfl, rfl⟩
    | cons c cs ih =>
      cases n with
      | zero => exact ⟨[], c :: cs, rfl, rfl⟩
      | succ n =>
        by_cases hc : c = '\n'
        · subst hc
          rw [List.count_cons_self] at h
          obtain ⟨front, back, rfl, hcount⟩ := ih (Nat.le_of_succ_le_succ h)
          exact ⟨'\n' :: front, back, rfl, by rw [List.count_cons_self, hcount]⟩
        · rw [List.count_cons_of_ne hc] at h
          obtain ⟨front, back, rfl, hcount⟩ := ih h
          exact ⟨c :: front, back, rfl, by rw [List.count_cons_of_ne hc, hcount]⟩
  obtain ⟨front, back, rfl, hcount⟩ := hfront
  obtain ⟨before, left, right, after, rfl, rfl, hline⟩ := exists_isLine front back
  refine ⟨before, left ++ right, after, hline, ?_⟩
  have hleft : '\n' ∉ left := fun hmem => hline.unbroken (List.mem_append_left _ hmem)
  rw [← hcount, List.count_append, List.count_eq_zero.mpr hleft, Nat.add_zero]

theorem count_le_bytes (c : Char) (cs : List Char) : cs.count c ≤ bytes cs := by
  induction cs with
  | nil => exact Nat.le_refl 0
  | cons d cs ih =>
    have hd := d.utf8Size_pos
    have hcount : (d :: cs).count c ≤ cs.count c + 1 := by
      rw [List.count_cons]
      split <;> omega
    rw [bytes_cons]
    omega

end Text

namespace LineIndex

open Text (bytes IsLine)

variable {before line after : List Char} {text : String} {offset o a b : Nat} {p : LineCol}

theorem lineCol_isLine (h : IsLine before line after text.toList) (hlow : bytes before ≤ o)
    (hhigh : o ≤ bytes (before ++ line)) :
    (ofText text).lineCol o = ⟨before.count '\n', o - bytes before⟩ := by
  rw [lineCol, min_length h hhigh, lineOf_isLine h hlow hhigh, start, starts_getElem? h]
  rfl

theorem offset?_isLine (h : IsLine before line after text.toList) (col : Nat) :
    (ofText text).offset? ⟨before.count '\n', col⟩ =
      if bytes before + col ≤ bytes (before ++ line) then some (bytes before + col) else none := by
  simp only [offset?, starts_getElem? h, stop_isLine h, Option.bind_eq_bind, Option.bind_some,
    guard]
  split <;> rfl

theorem lineCount_ofText (text : String) :
    (ofText text).lineCount = text.toList.count '\n' + 1 := by
  rw [lineCount, ofText, List.length_cons, length_startsAfter]

theorem exists_isLine_of_lt {n : Nat} (h : n < (ofText text).lineCount) :
    ∃ before line after, IsLine before line after text.toList ∧ before.count '\n' = n := by
  rw [lineCount_ofText] at h
  exact Text.exists_isLine_of_le_count (Nat.le_of_lt_succ h)

theorem exists_isLine_offset (h : o ≤ text.utf8ByteSize) :
    ∃ before line after, IsLine before line after text.toList ∧
      bytes before ≤ o ∧ o ≤ bytes (before ++ line) :=
  Text.exists_isLine_at (h.trans_eq (Text.bytes_toList text).symm)

theorem offset?_lineCol (h : o ≤ text.utf8ByteSize) :
    (ofText text).offset? ((ofText text).lineCol o) = some o := by
  obtain ⟨before, line, after, hline, hlow, hhigh⟩ := exists_isLine_offset h
  rw [lineCol_isLine hline hlow hhigh, offset?_isLine hline, Nat.add_sub_cancel' hlow,
    if_pos hhigh]

theorem lineCol_of_offset? (h : (ofText text).offset? p = some o) :
    o ≤ text.utf8ByteSize ∧ (ofText text).lineCol o = p := by
  have hcount : p.line < (ofText text).lineCount := by
    obtain ⟨start, hstart, -⟩ := Option.bind_eq_some_iff.mp h
    exact (List.getElem?_eq_some_iff.mp hstart).1
  obtain ⟨before, line, after, hline, hbefore⟩ := exists_isLine_of_lt hcount
  obtain ⟨number, col⟩ := p
  obtain rfl : before.count '\n' = number := hbefore
  rw [offset?_isLine hline] at h
  split at h
  · rename_i hhigh
    cases h
    refine ⟨?_, ?_⟩
    · rw [← Text.bytes_toList, hline.split, ← List.append_assoc, Text.bytes_append]
      omega
    · rw [lineCol_isLine hline (Nat.le_add_right ..) hhigh, Nat.add_sub_cancel_left]
  · cases h

theorem lineOf_mono (index : LineIndex) (h : a ≤ b) : index.lineOf a ≤ index.lineOf b := by
  have hlength (starts : List Nat) :
      (starts.takeWhile (· ≤ a)).length ≤ (starts.takeWhile (· ≤ b)).length := by
    induction starts with
    | nil => exact Nat.le_refl 0
    | cons s starts ih =>
      by_cases hs : s ≤ a
      · simpa [List.takeWhile_cons, hs, Nat.le_trans hs h] using ih
      · simp [List.takeWhile_cons, hs]
  exact Nat.sub_le_sub_right (hlength index.starts) 1

theorem lineCol_lt (h : a < b) (hb : b ≤ text.utf8ByteSize) :
    (ofText text).lineCol a < (ofText text).lineCol b := by
  have hlength : (ofText text).length = text.utf8ByteSize := rfl
  have hmin : min a (ofText text).length = a ∧ min b (ofText text).length = b := by
    omega
  have hstart := start_lineOf_le text a
  rw [LineCol.lt_iff, lineCol, lineCol, hmin.1, hmin.2]
  rcases Nat.lt_or_eq_of_le (lineOf_mono (ofText text) (Nat.le_of_lt h)) with hline | hline
  · exact .inl hline
  · refine .inr ⟨hline, ?_⟩
    dsimp only
    rw [← hline]
    omega

theorem lt_of_mem_startsAfter (h : o ∈ startsAfter offset cs) : offset < o := by
  induction cs generalizing offset with
  | nil => cases h
  | cons c cs ih =>
    have hc := c.utf8Size_pos
    rw [startsAfter] at h
    split at h
    · rcases List.mem_cons.mp h with rfl | h
      · omega
      · exact Nat.lt_trans (by omega) (ih h)
    · exact Nat.lt_trans (by omega) (ih h)

theorem pairwise_startsAfter (offset : Nat) (cs : List Char) :
    (startsAfter offset cs).Pairwise (· < ·) := by
  induction cs generalizing offset with
  | nil => exact .nil
  | cons c cs ih =>
    rw [startsAfter]
    split
    · exact .cons (fun _ h => lt_of_mem_startsAfter h) (ih _)
    · exact ih _

theorem pairwise_starts (text : String) : (ofText text).starts.Pairwise (· < ·) :=
  .cons (fun _ h => lt_of_mem_startsAfter h) (pairwise_startsAfter 0 text.toList)

/-- A number that is not in a sorted list can be put into it at a place, the one a binary search for
it ends with. -/
structure FitsAt (starts : List Nat) (o i : Nat) : Prop where
  le : i ≤ starts.length
  front : ∀ s ∈ starts.take i, s < o
  back : ∀ s ∈ starts.drop i, o < s

theorem length_takeWhile_le {starts : List Nat} (hfront : ∀ s ∈ starts.take i, s ≤ o)
    (hback : ∀ s ∈ starts.drop i, o < s) (hi : i ≤ starts.length) :
    (starts.takeWhile (· ≤ o)).length = i := by
  have hnone : (starts.drop i).takeWhile (· ≤ o) = [] := by
    cases hdrop : starts.drop i with
    | nil => rfl
    | cons s rest =>
      have hs := hback s (hdrop ▸ List.mem_cons_self)
      exact List.takeWhile_cons_of_neg (by simpa using hs)
  rw [← List.take_append_drop i starts, List.takeWhile_append_of_pos (by simpa using hfront),
    hnone, List.append_nil, List.length_take_of_le hi]

theorem lineOf_found (h : (ofText text).starts[i]? = some o) : (ofText text).lineOf o = i := by
  have hsorted := List.pairwise_iff_getElem.mp (pairwise_starts text)
  obtain ⟨hi, rfl⟩ := List.getElem?_eq_some_iff.mp h
  have hlength : ((ofText text).starts.takeWhile (· ≤ (ofText text).starts[i])).length = i + 1 := by
    refine length_takeWhile_le (fun s hs => ?_) (fun s hs => ?_) hi
    · obtain ⟨j, hj, rfl⟩ := List.mem_take_iff_getElem.mp hs
      have hji : j ≤ i := Nat.le_of_lt_succ (Nat.lt_of_lt_of_le hj (Nat.min_le_left ..))
      rcases Nat.lt_or_eq_of_le hji with hji | rfl
      · exact Nat.le_of_lt (hsorted j i _ hi hji)
      · exact Nat.le_refl _
    · obtain ⟨j, hj, rfl⟩ := List.mem_drop_iff_getElem.mp hs
      exact hsorted i (i + 1 + j) hi _ (by omega)
  rw [lineOf, hlength, Nat.add_sub_cancel]

/-- Before the place where an offset fits in there is a line, since the first one starts at zero. -/
theorem lineOf_fitsAt (h : FitsAt (ofText text).starts o i) : (ofText text).lineOf o + 1 = i := by
  have hlength := length_takeWhile_le (fun s hs => Nat.le_of_lt (h.front s hs)) h.back h.le
  have hpos : i ≠ 0 := by
    rintro rfl
    exact absurd (h.back 0 List.mem_cons_self) (Nat.not_lt_zero o)
  rw [lineOf, hlength]
  omega

/-- A line with its line feed: from where it starts up to where the next one does. -/
def lineText (text : String) (n : Nat) : String :=
  let index := ofText text
  Text.slice text ⟨index.lineStart (index.start n), index.nextLineStart (index.start n)⟩

/-- Where a line starts; behind the last one that is the end of the text. -/
def bound (index : LineIndex) (n : Nat) : Nat := (index.starts[n]?).getD index.length

theorem nextLineStart_eq (index : LineIndex) (o : Nat) :
    index.nextLineStart o = index.bound (index.lineOf (min o index.length) + 1) := rfl

theorem bound_of_lt {index : LineIndex} (h : n < index.lineCount) :
    index.bound n = index.start n := by
  rw [bound, start, List.getElem?_eq_getElem h]
  rfl

theorem start_isLine (h : IsLine before line after text.toList) :
    (ofText text).start (before.count '\n') = bytes before := by
  rw [start, starts_getElem? h]
  rfl

theorem lineStart_start (h : n < (ofText text).lineCount) :
    (ofText text).lineStart ((ofText text).start n) = (ofText text).start n := by
  obtain ⟨before, line, after, hline, rfl⟩ := exists_isLine_of_lt h
  rw [start_isLine hline]
  exact lineStart_isLine hline (Nat.le_refl _) (by simp)

theorem nextLineStart_start (h : n < (ofText text).lineCount) :
    (ofText text).nextLineStart ((ofText text).start n) = (ofText text).bound (n + 1) := by
  obtain ⟨before, line, after, hline, rfl⟩ := exists_isLine_of_lt h
  have hhigh : bytes before ≤ bytes (before ++ line) := by simp
  rw [start_isLine hline, nextLineStart_eq, min_length hline hhigh,
    lineOf_isLine hline (Nat.le_refl _) hhigh]

/-- What stands from the start of a line up to the next one is the line and its line feed. -/
theorem bound_isLine (h : IsLine before line after text.toList) :
    (ofText text).bound (before.count '\n' + 1) = bytes before + bytes (line ++ after.take 1) := by
  have hhigh : bytes before ≤ bytes (before ++ line) := by simp
  have hnext : (ofText text).bound (before.count '\n' + 1) =
      (ofText text).nextLineStart (bytes before) := by
    rw [nextLineStart_eq, min_length h hhigh, lineOf_isLine h (Nat.le_refl _) hhigh]
  rw [hnext, ← Text.bytes_append]
  obtain ⟨hsplit, hstarts, hunbroken, hends⟩ := h
  cases hends with
  | bottom =>
    rw [nextLineStart_isLine_last ⟨hsplit, hstarts, hunbroken, .bottom⟩ (Nat.le_refl _) hhigh,
      ← Text.bytes_toList, hsplit]
    rfl
  | before rest =>
    exact nextLineStart_isLine ⟨hsplit, hstarts, hunbroken, .before rest⟩ (Nat.le_refl _) hhigh

theorem lineText_eq (h : n < (ofText text).lineCount) :
    lineText text n =
      Text.slice text ⟨(ofText text).bound n, (ofText text).bound (n + 1)⟩ := by
  rw [lineText, lineStart_start h, nextLineStart_start h, bound_of_lt h]

theorem lineText_isLine (h : IsLine before line after text.toList) :
    lineText text (before.count '\n') = .ofList (line ++ after.take 1) := by
  have hcount : before.count '\n' < (ofText text).lineCount := by
    rw [lineCount_ofText, h.split, List.count_append]
    omega
  have hsplit : text.toList = before ++ (line ++ after.take 1) ++ after.drop 1 := by
    rw [h.split, List.append_assoc, List.append_assoc, List.take_append_drop]
  rw [lineText_eq hcount, bound_of_lt hcount, start_isLine h, bound_isLine h]
  exact Text.slice_eq hsplit

theorem isBoundary_bound (text : String) (n : Nat) :
    Text.isBoundary text ((ofText text).bound n) = true := by
  by_cases hn : n < (ofText text).lineCount
  · rw [bound_of_lt hn, ← lineStart_start hn]
    exact isBoundary_lineStart text _
  · rw [bound, List.getElem?_eq_none (Nat.le_of_not_lt hn)]
    exact Text.isBoundary_iff.mpr
      ⟨text.toList, [], (List.append_nil _).symm, Text.bytes_toList text⟩

/-- The first lines together are the text up to where the next one starts. -/
theorem join_lineText (h : n ≤ (ofText text).lineCount) :
    String.join ((List.range n).map (lineText text)) =
      Text.slice text ⟨0, (ofText text).bound n⟩ := by
  induction n with
  | zero => exact (Text.slice_point text 0).symm
  | succ n ih =>
    obtain ⟨before, line, after, hline, hcount⟩ := exists_isLine_of_lt h
    have hbound : (ofText text).bound n ≤ (ofText text).bound (n + 1) := by
      rw [bound_of_lt h, ← hcount, start_isLine hline, bound_isLine hline]
      exact Nat.le_add_right ..
    rw [List.range_succ, List.map_append, String.join_append, ih (Nat.le_of_lt h),
      List.map_singleton, String.join_cons, String.join_nil, String.append_empty, lineText_eq h]
    exact Text.slice_append (isBoundary_bound text 0) (isBoundary_bound text n)
      (isBoundary_bound text (n + 1)) (Nat.zero_le _) hbound

theorem bound_lineCount (text : String) :
    (ofText text).bound (ofText text).lineCount = text.utf8ByteSize := by
  rw [bound, lineCount, List.getElem?_eq_none (Nat.le_refl _)]
  rfl

theorem join_lineText_lineCount (text : String) :
    String.join ((List.range (ofText text).lineCount).map (lineText text)) = text := by
  have hsplit : text.toList = [] ++ text.toList ++ [] := by simp
  have hwhole := Text.slice_eq hsplit
  rw [Text.bytes_nil, Nat.zero_add, Text.bytes_toList, String.ofList_toList] at hwhole
  rw [join_lineText (Nat.le_refl _), bound_lineCount, hwhole]

theorem lineFeed_lineText (h : n < (ofText text).lineCount) :
    '\n' ∉ (lineText text n).toList.dropLast := by
  obtain ⟨before, line, after, hline, rfl⟩ := exists_isLine_of_lt h
  rw [lineText_isLine hline, String.toList_ofList]
  intro hmem
  cases hline.ends with
  | bottom =>
    rw [List.take_nil, List.append_nil] at hmem
    exact hline.unbroken (List.dropLast_subset line hmem)
  | before rest =>
    rw [List.take_succ_cons, List.take_zero, List.dropLast_concat] at hmem
    exact hline.unbroken hmem

theorem le_of_mem_starts (h : o ∈ (ofText text).starts) : o ≤ text.utf8ByteSize := by
  rcases List.mem_cons.mp h with rfl | h
  · exact Nat.zero_le _
  · exact (le_of_mem_startsAfter h).trans_eq (by rw [Text.bytes_toList, Nat.zero_add])

theorem lineCol_le (text : String) (o : Nat) :
    ((ofText text).lineCol o).line ≤ text.utf8ByteSize ∧
      ((ofText text).lineCol o).col ≤ text.utf8ByteSize := by
  have hmin : min o text.utf8ByteSize ≤ text.utf8ByteSize := Nat.min_le_right ..
  have hclamp : (ofText text).lineCol o = (ofText text).lineCol (min o text.utf8ByteSize) := by
    have hlength : (ofText text).length = text.utf8ByteSize := rfl
    rw [lineCol, lineCol, hlength, Nat.min_eq_left hmin]
  obtain ⟨before, line, after, hline, hlow, hhigh⟩ := exists_isLine_offset hmin
  have hcount := Text.count_le_bytes '\n' before
  rw [hclamp, lineCol_isLine hline hlow hhigh]
  dsimp only
  omega

/-- In a text whose length fits in 32 bits all starts, lines and columns do. Offsets up to the end
and their places stand for each other, in the same order, and the line of an offset is the one that
a binary search leads to. The lines with their line feeds follow each other from the start of the
text to its end, are the text together, and have a line feed nowhere but at their ends. -/
theorem ofText_exact (text : String) (hsize : text.utf8ByteSize < UInt32.size) :
    let index := ofText text
    ((∀ o ∈ index.starts, o < UInt32.size) ∧
      ∀ o, (index.lineCol o).line < UInt32.size ∧ (index.lineCol o).col < UInt32.size) ∧
    (∀ o ≤ text.utf8ByteSize, index.offset? (index.lineCol o) = some o) ∧
    (∀ p o, index.offset? p = some o → o ≤ text.utf8ByteSize ∧ index.lineCol o = p) ∧
    (∀ a b, a < b → b ≤ text.utf8ByteSize → index.lineCol a < index.lineCol b) ∧
    ((∀ o i, index.starts[i]? = some o → index.lineOf o = i) ∧
      ∀ o i, FitsAt index.starts o i → index.lineOf o + 1 = i) ∧
    (index.lineStart (index.start 0) = 0 ∧
      (∀ n, n + 1 < index.lineCount →
        index.nextLineStart (index.start n) = index.lineStart (index.start (n + 1))) ∧
      index.nextLineStart (index.start (index.lineCount - 1)) = text.utf8ByteSize) ∧
    String.join ((List.range index.lineCount).map (lineText text)) = text ∧
    ∀ n < index.lineCount, '\n' ∉ (lineText text n).toList.dropLast := by
  have hpos : 0 < (ofText text).lineCount := Nat.succ_pos _
  have hlast : (ofText text).lineCount - 1 < (ofText text).lineCount := Nat.sub_one_lt_of_lt hpos
  have hnext (n : Nat) (hn : n + 1 < (ofText text).lineCount) :
      (ofText text).nextLineStart ((ofText text).start n) =
        (ofText text).lineStart ((ofText text).start (n + 1)) := by
    rw [nextLineStart_start (Nat.lt_of_succ_lt hn), lineStart_start hn, bound_of_lt hn]
  have hend : (ofText text).nextLineStart ((ofText text).start ((ofText text).lineCount - 1)) =
      text.utf8ByteSize := by
    rw [nextLineStart_start hlast, Nat.sub_add_cancel hpos, bound_lineCount]
  refine ⟨⟨fun o ho => ?_, fun o => ?_⟩, fun o => offset?_lineCol, fun p o => lineCol_of_offset?,
    fun a b => lineCol_lt, ⟨fun o i => lineOf_found, fun o i => lineOf_fitsAt⟩,
    ⟨lineStart_start hpos, hnext, hend⟩, join_lineText_lineCount text, fun n => lineFeed_lineText⟩
  · exact Nat.lt_of_le_of_lt (le_of_mem_starts ho) hsize
  · obtain ⟨hline, hcol⟩ := lineCol_le text o
    exact ⟨Nat.lt_of_le_of_lt hline hsize, Nat.lt_of_le_of_lt hcol hsize⟩

/-- An empty line, and a last one without a line feed. -/
theorem lineCol_across_lines :
    "ab\n\ncd".utf8ByteSize < UInt32.size ∧
      (ofText "ab\n\ncd").offset? ((ofText "ab\n\ncd").lineCol 5) = some 5 ∧
      String.join ((List.range (ofText "ab\n\ncd").lineCount).map (lineText "ab\n\ncd")) =
        "ab\n\ncd" := by
  have hsize : "ab\n\ncd".utf8ByteSize < UInt32.size := by decide
  obtain ⟨-, hback, -, -, -, -, hlines, -⟩ := ofText_exact "ab\n\ncd" hsize
  exact ⟨hsize, hback 5 (by decide), hlines⟩

end LineIndex

end CppRefactor
