import CppRefactor.Proofs.Text.Slices
import CppRefactor.Text.LineIndex
import Mathlib.Data.List.Induction

/-!
The lines of a text, each with the text before it and behind it. What a line index says of an offset
on a line is read off these parts.
-/

namespace CppRefactor

namespace Text

/-- Where a line begins: at the start of a text or behind a line feed. -/
inductive AtLineStart : List Char → Prop
  | top : AtLineStart []
  | behind (cs : List Char) : AtLineStart (cs ++ ['\n'])

/-- Where a line ends: before a line feed or at the end of a text. -/
inductive AtLineEnd : List Char → Prop
  | bottom : AtLineEnd []
  | before (cs : List Char) : AtLineEnd ('\n' :: cs)

/-- A line of a text, between what is before it and what is behind it. -/
structure IsLine (before line after cs : List Char) : Prop where
  split : cs = before ++ (line ++ after)
  starts : AtLineStart before
  unbroken : '\n' ∉ line
  ends : AtLineEnd after

theorem exists_lineStart (cs : List Char) :
    ∃ before line, cs = before ++ line ∧ AtLineStart before ∧ '\n' ∉ line := by
  induction cs using List.reverseRecOn with
  | nil => exact ⟨[], [], rfl, .top, List.not_mem_nil⟩
  | append_singleton cs c ih =>
    by_cases hc : c = '\n'
    · subst hc
      exact ⟨cs ++ ['\n'], [], (List.append_nil _).symm, .behind cs, List.not_mem_nil⟩
    · obtain ⟨before, line, rfl, hstart, hline⟩ := ih
      exact ⟨before, line ++ [c], List.append_assoc .., hstart, by simp [hline, Ne.symm hc]⟩

theorem exists_lineEnd (cs : List Char) :
    ∃ line after, cs = line ++ after ∧ '\n' ∉ line ∧ AtLineEnd after := by
  induction cs with
  | nil => exact ⟨[], [], rfl, List.not_mem_nil, .bottom⟩
  | cons c cs ih =>
    by_cases hc : c = '\n'
    · subst hc
      exact ⟨[], '\n' :: cs, rfl, List.not_mem_nil, .before cs⟩
    · obtain ⟨line, after, rfl, hline, hend⟩ := ih
      exact ⟨c :: line, after, rfl, by simp [hline, Ne.symm hc], hend⟩

theorem exists_isLine (front back : List Char) :
    ∃ before left right after, front = before ++ left ∧ back = right ++ after ∧
      IsLine before (left ++ right) after (front ++ back) := by
  obtain ⟨before, left, rfl, hstart, hleft⟩ := exists_lineStart front
  obtain ⟨right, after, rfl, hright, hend⟩ := exists_lineEnd back
  exact ⟨before, left, right, after, rfl, rfl, by simp, hstart, by simp [hleft, hright], hend⟩

theorem AtLineStart.eq_nil {before line : List Char} (h : AtLineStart (before ++ line))
    (hline : '\n' ∉ line) : line = [] := by
  induction line using List.reverseRecOn with
  | nil => rfl
  | append_singleton line c =>
    generalize hcs : before ++ (line ++ [c]) = cs at h
    cases h with
    | top => simp at hcs
    | behind cs =>
      rw [← List.append_assoc] at hcs
      have hc := (List.append_inj' hcs rfl).2
      exact absurd (by simp [hc]) hline

theorem AtLineEnd.head (h : AtLineEnd cs) (hc : c ∈ cs.head?) : c = '\n' := by
  cases h with
  | bottom => cases hc
  | before rest => exact (Option.some.inj hc).symm

end Text

namespace LineIndex

open Text (bytes IsLine AtLineStart AtLineEnd)

variable {before line left right after cs rest : List Char} {text : String} {offset : Nat}

theorem startsAfter_append (offset : Nat) (cs ds : List Char) :
    startsAfter offset (cs ++ ds) =
      startsAfter offset cs ++ startsAfter (offset + bytes cs) ds := by
  induction cs generalizing offset with
  | nil => rfl
  | cons c cs ih =>
    rw [List.cons_append, startsAfter, startsAfter, ih, Text.bytes_cons, Nat.add_assoc]
    split <;> rfl

theorem startsAfter_of_notMem (h : '\n' ∉ cs) (offset : Nat) : startsAfter offset cs = [] := by
  induction cs generalizing offset with
  | nil => rfl
  | cons c cs ih =>
    rw [List.mem_cons, not_or] at h
    rw [startsAfter, if_neg (Ne.symm h.1), ih h.2]

theorem length_startsAfter (offset : Nat) (cs : List Char) :
    (startsAfter offset cs).length = cs.count '\n' := by
  induction cs generalizing offset with
  | nil => rfl
  | cons c cs ih =>
    rw [startsAfter]
    split
    · rename_i hc
      rw [List.length_cons, ih, hc, List.count_cons_self]
    · rename_i hc
      rw [ih, List.count_cons_of_ne hc]

theorem le_of_mem_startsAfter (h : o ∈ startsAfter offset cs) : o ≤ offset + bytes cs := by
  induction cs generalizing offset with
  | nil => cases h
  | cons c cs ih =>
    rw [Text.bytes_cons, ← Nat.add_assoc]
    rw [startsAfter] at h
    split at h
    · rcases List.mem_cons.mp h with rfl | h
      · exact Nat.le_add_right ..
      · exact ih h
    · exact ih h

/-- The starts of the lines up to one of them, of which its start is the last. -/
theorem starts_before (h : AtLineStart before) :
    ∃ starts, 0 :: startsAfter 0 before = starts ++ [bytes before] ∧
      starts.length = before.count '\n' := by
  cases h with
  | top => exact ⟨[], rfl, rfl⟩
  | behind cs =>
    have hlast : startsAfter (0 + bytes cs) ['\n'] = [bytes (cs ++ ['\n'])] := by
      rw [startsAfter, if_pos rfl, Text.bytes_append, Nat.zero_add]
      rfl
    refine ⟨0 :: startsAfter 0 cs, ?_, ?_⟩
    · rw [startsAfter_append, hlast, List.cons_append]
    · rw [List.length_cons, length_startsAfter, List.count_append]
      rfl

/-- The starts of the lines of a text, up to one of them and behind it. -/
theorem starts_ofText (h : IsLine before line after text.toList) :
    (ofText text).starts =
      0 :: startsAfter 0 before ++ startsAfter (bytes (before ++ line)) after := by
  rw [ofText, h.split, startsAfter_append, startsAfter_append, startsAfter_of_notMem h.unbroken,
    Text.bytes_append, Nat.zero_add]
  rfl

theorem length_ofText (h : IsLine before line after text.toList) :
    (ofText text).length = bytes (before ++ line) + bytes after := by
  rw [ofText, ← Text.bytes_toList, h.split, ← List.append_assoc, Text.bytes_append]

theorem mem_starts {front back : List Char} (h : AtLineStart front)
    (htext : text.toList = front ++ back) : bytes front ∈ (ofText text).starts := by
  obtain ⟨starts, hstarts, -⟩ := starts_before h
  rw [ofText, htext, startsAfter_append, ← List.cons_append, hstarts]
  simp

theorem starts_getElem? (h : IsLine before line after text.toList) :
    (ofText text).starts[before.count '\n']? = some (bytes before) := by
  obtain ⟨starts, hstarts, hlength⟩ := starts_before h.starts
  rw [starts_ofText h, hstarts, ← hlength, List.append_assoc, List.getElem?_append_right
    (Nat.le_refl _), Nat.sub_self]
  rfl

theorem starts_getElem?_next (h : IsLine before line after text.toList) :
    (ofText text).starts[before.count '\n' + 1]? =
      (startsAfter (bytes (before ++ line)) after).head? := by
  obtain ⟨starts, hstarts, hlength⟩ := starts_before h.starts
  have hlen : (0 :: startsAfter 0 before).length = before.count '\n' + 1 := by
    rw [hstarts, List.length_append, hlength]
    rfl
  rw [starts_ofText h, ← hlen, List.getElem?_append_right (Nat.le_refl _), Nat.sub_self,
    List.head?_eq_getElem?]

/-- An offset on a line is on the line with the number of line feeds before it. -/
theorem lineOf_isLine (h : IsLine before line after text.toList) (hlow : bytes before ≤ offset)
    (hhigh : offset ≤ bytes (before ++ line)) :
    (ofText text).lineOf offset = before.count '\n' := by
  have hbefore : ∀ o ∈ 0 :: startsAfter 0 before, decide (o ≤ offset) = true := by
    intro o ho
    refine decide_eq_true ?_
    rcases List.mem_cons.mp ho with rfl | ho
    · exact Nat.zero_le offset
    · have hle := le_of_mem_startsAfter ho
      omega
  have hafter : (startsAfter (bytes (before ++ line)) after).takeWhile (· ≤ offset) = [] := by
    cases h.ends with
    | bottom => rfl
    | before rest =>
      rw [startsAfter, if_pos rfl, List.takeWhile_cons_of_neg]
      have hsize : ('\n').utf8Size = 1 := rfl
      simp only [decide_eq_true_eq, hsize]
      omega
  rw [lineOf, starts_ofText h, List.takeWhile_append_of_pos hbefore, hafter, List.append_nil,
    List.length_cons, length_startsAfter]
  rfl

theorem lineOf_bytes {front back : List Char} (h : text.toList = front ++ back) :
    (ofText text).lineOf (bytes front) = front.count '\n' := by
  obtain ⟨before, left, right, after, rfl, rfl, hline⟩ := Text.exists_isLine front back
  rw [← h] at hline
  have hleft : '\n' ∉ left := fun hmem => hline.unbroken (List.mem_append_left _ hmem)
  rw [lineOf_isLine hline (by simp) (by simp), List.count_append, List.count_eq_zero.mpr hleft,
    Nat.add_zero]

theorem min_length (h : IsLine before line after text.toList)
    (hhigh : offset ≤ bytes (before ++ line)) : min offset (ofText text).length = offset := by
  rw [length_ofText h]
  omega

theorem lineStart_isLine (h : IsLine before line after text.toList)
    (hlow : bytes before ≤ offset) (hhigh : offset ≤ bytes (before ++ line)) :
    (ofText text).lineStart offset = bytes before := by
  rw [lineStart, min_length h hhigh, lineOf_isLine h hlow hhigh, start, starts_getElem? h]
  rfl

theorem stop_isLine (h : IsLine before line after text.toList) :
    (ofText text).stop (before.count '\n') = bytes (before ++ line) := by
  have hnext := starts_getElem?_next h
  have hlength := length_ofText h
  unfold stop
  cases h.ends with
  | bottom =>
    rw [hnext]
    exact hlength
  | before rest =>
    rw [hnext, startsAfter, if_pos rfl]
    rfl

theorem lineEnd_isLine (h : IsLine before line after text.toList)
    (hlow : bytes before ≤ offset) (hhigh : offset ≤ bytes (before ++ line)) :
    (ofText text).lineEnd offset = bytes (before ++ line) := by
  rw [lineEnd, min_length h hhigh, lineOf_isLine h hlow hhigh, stop_isLine h]

theorem lineSpan?_isLine (h : IsLine before line after text.toList) :
    (ofText text).lineSpan? (before.count '\n') = some ⟨bytes before, bytes (before ++ line)⟩ := by
  rw [lineSpan?, starts_getElem? h, stop_isLine h]
  rfl

theorem nextLineStart_isLine (h : IsLine before line ('\n' :: rest) text.toList)
    (hlow : bytes before ≤ offset) (hhigh : offset ≤ bytes (before ++ line)) :
    (ofText text).nextLineStart offset = bytes (before ++ (line ++ ['\n'])) := by
  rw [nextLineStart, min_length h hhigh, lineOf_isLine h hlow hhigh, starts_getElem?_next h,
    startsAfter, if_pos rfl, ← List.append_assoc, Text.bytes_append (before ++ line)]
  rfl

theorem nextLineStart_isLine_last (h : IsLine before line [] text.toList)
    (hlow : bytes before ≤ offset) (hhigh : offset ≤ bytes (before ++ line)) :
    (ofText text).nextLineStart offset = text.utf8ByteSize := by
  rw [nextLineStart, min_length h hhigh, lineOf_isLine h hlow hhigh, starts_getElem?_next h]
  rfl

end LineIndex

end CppRefactor
