import CppRefactor.Symbols.Link
import CppRefactor.Text.Indentation
import CppRefactor.Text.Placement
import Mathlib.Data.List.TakeWhile

/-!
What a text says when its blanks do not count. Trimming and setting apart leave it as it is, and
indenting repeats the base in front of every line that says something. A text that is set apart or
put between others stands there as it is, and a trimmed part of a text still does when that is
trimmed.
-/

namespace CppRefactor

@[simp] theorem squash_append (a b : String) : squash (a ++ b) = squash a ++ squash b := by
  simp [squash]

@[simp] theorem squash_empty : squash "" = [] := rfl

@[simp] theorem squash_space : squash " " = [] := by decide

@[simp] theorem squash_lineFeed : squash "\n" = [] := by decide

theorem squash_intercalate {between : String} (h : squash between = []) (texts : List String) :
    squash (between.intercalate texts) = texts.flatMap squash := by
  induction texts with
  | nil => rfl
  | cons a rest ih =>
    cases rest with
    | nil => simp
    | cons b rest => simp [h, ih]

theorem infix_intercalate (between : String) {texts : List String} (h : t ∈ texts) :
    t.toList <:+: (between.intercalate texts).toList := by
  induction texts with
  | nil => cases h
  | cons a rest ih =>
    cases rest with
    | nil =>
      simp only [List.mem_singleton.mp h, String.intercalate_singleton, List.infix_rfl]
    | cons b rest =>
      rw [String.intercalate_cons_cons, String.toList_append, String.toList_append]
      rcases List.mem_cons.mp h with rfl | h
      · exact (List.infix_append [] _ _).trans (List.prefix_append ..).isInfix
      · exact (ih h).trans (List.suffix_append ..).isInfix

namespace Text

/-- The characters that are not blank. -/
def code (cs : List Char) : List Char := cs.filter (!isBlank ·)

@[simp] theorem code_append (cs ds : List Char) : code (cs ++ ds) = code cs ++ code ds :=
  List.filter_append ..

theorem code_eq_nil {cs : List Char} : code cs = [] ↔ ∀ c ∈ cs, isBlank c = true := by
  simp [code]

theorem code_dropWhile (cs : List Char) : code (cs.dropWhile isBlank) = code cs := by
  induction cs with
  | nil => rfl
  | cons c cs ih =>
    by_cases hc : isBlank c = true
    · rw [List.dropWhile_cons_of_pos hc, ih, code, code, List.filter_cons_of_neg (by simp [hc])]
    · rw [List.dropWhile_cons_of_neg hc]

theorem code_reverse (cs : List Char) : code cs.reverse = (code cs).reverse :=
  List.filter_reverse ..

@[simp] theorem code_trimChars (cs : List Char) : code (trimChars cs) = code cs := by
  rw [trimChars, trimBack, dropLastWhile, code_reverse, code_dropWhile, code_reverse,
    List.reverse_reverse, trimFront, code_dropWhile]

theorem infix_dropWhile {p : α → Bool} {cs ds : List α} (h : cs <:+: ds) :
    cs.dropWhile p <:+: ds.dropWhile p := by
  obtain ⟨before, after, rfl⟩ := h
  have hafter : cs.dropWhile p <+: (cs ++ after).dropWhile p := by
    rw [List.dropWhile_append]
    split
    · rename_i hcs
      rw [List.isEmpty_iff.mp hcs]
      exact List.nil_prefix
    · exact List.prefix_append ..
  have hbefore : (cs ++ after).dropWhile p <:+ (before ++ (cs ++ after)).dropWhile p := by
    rw [@List.dropWhile_append _ _ before]
    split
    · exact List.suffix_rfl
    · exact (List.dropWhile_suffix p).trans (List.suffix_append ..)
  rw [List.append_assoc]
  exact hafter.isInfix.trans hbefore.isInfix

theorem infix_trimChars {cs ds : List Char} (h : cs <:+: ds) : trimChars cs <:+: trimChars ds := by
  have hfront : trimFront cs <:+: trimFront ds := infix_dropWhile h
  exact List.reverse_infix.mpr (infix_dropWhile (List.reverse_infix.mpr hfront))

theorem dropWhile_append_of_code {cs : List Char} (h : code cs = []) (ds : List Char) :
    (cs ++ ds).dropWhile isBlank = ds.dropWhile isBlank := by
  rw [List.dropWhile_append, List.dropWhile_eq_nil_iff.mpr (code_eq_nil.mp h)]
  rfl

theorem trimChars_append_left {cs : List Char} (h : code cs = []) (ds : List Char) :
    trimChars (cs ++ ds) = trimChars ds :=
  congrArg trimBack (dropWhile_append_of_code h ds)

theorem trimBack_append {ds : List Char} (h : code ds = []) (cs : List Char) :
    trimBack (cs ++ ds) = trimBack cs := by
  have hreverse : code ds.reverse = [] := by rw [code_reverse, h, List.reverse_nil]
  rw [trimBack, dropLastWhile, List.reverse_append, dropWhile_append_of_code hreverse]
  rfl

theorem trimChars_append_right {ds : List Char} (h : code ds = []) (cs : List Char) :
    trimChars (cs ++ ds) = trimChars cs := by
  rw [trimChars, trimFront, List.dropWhile_append]
  split
  · rename_i hcs
    rw [List.dropWhile_eq_nil_iff.mpr (code_eq_nil.mp h), trimChars, trimFront,
      List.isEmpty_iff.mp hcs]
  · exact trimBack_append h _

theorem length_trimChars_le (cs : List Char) : (trimChars cs).length ≤ cs.length := by
  have hback : (trimChars cs).length ≤ (trimFront cs).length := by
    rw [trimChars, trimBack, dropLastWhile, List.length_reverse, ← (trimFront cs).length_reverse]
    exact (List.dropWhile_suffix _).length_le
  exact Nat.le_trans hback (List.dropWhile_suffix _).length_le

end Text

@[simp] theorem squash_trim (s : String) : squash (Text.trim s) = squash s := by
  have h := Text.code_trimChars s.toList
  rwa [Text.trim, squash, String.toList_ofList]

/-- A text without blanks around it does not begin with a part that says nothing. -/
theorem eq_empty_of_squash_left {a b : String} (h : Text.trim (a ++ b) = a ++ b)
    (ha : squash a = []) : a = "" := by
  have hchars := congrArg String.toList h
  rw [Text.trim, String.toList_ofList, String.toList_append,
    Text.trimChars_append_left ha] at hchars
  have hlength := Text.length_trimChars_le b.toList
  rw [hchars, List.length_append] at hlength
  exact String.toList_eq_nil_iff.mp (List.length_eq_zero_iff.mp (by omega))

theorem eq_empty_of_squash_right {a b : String} (h : Text.trim (a ++ b) = a ++ b)
    (hb : squash b = []) : b = "" := by
  have hchars := congrArg String.toList h
  rw [Text.trim, String.toList_ofList, String.toList_append,
    Text.trimChars_append_right hb] at hchars
  have hlength := Text.length_trimChars_le a.toList
  rw [hchars, List.length_append] at hlength
  exact String.toList_eq_nil_iff.mp (List.length_eq_zero_iff.mp (by omega))

theorem squash_of_trim_isEmpty {s : String} (h : (Text.trim s).isEmpty = true) : squash s = [] := by
  rw [← squash_trim, String.isEmpty_iff.mp h, squash_empty]

namespace Text

theorem splitLines_eq (cs : List Char) : splitLines cs = cs.splitOn '\n' := by
  induction cs with
  | nil => rfl
  | cons c cs ih =>
    obtain ⟨first, rest, hcs⟩ := List.exists_cons_of_ne_nil (List.splitOn_ne_nil '\n' cs)
    simp only [splitLines, List.splitOn_cons_eq_if_modifyHead, ih, hcs, beq_iff_eq,
      List.modifyHead_cons]

theorem splitLines_ne_nil (cs : List Char) : splitLines cs ≠ [] := by
  rw [splitLines_eq]
  exact List.splitOn_ne_nil '\n' cs

theorem joinLines_splitLines (cs : List Char) : joinLines (splitLines cs) = cs := by
  rw [splitLines_eq, joinLines, List.intercalate_splitOn]

theorem code_joinLines (lines : List (List Char)) :
    code (joinLines lines) = lines.flatMap code := by
  induction lines with
  | nil => rfl
  | cons line rest ih =>
    cases rest with
    | nil => simp [joinLines]
    | cons next rest =>
      rw [joinLines, List.intercalate_cons_cons, code_append, code_append, List.flatMap_cons, ← ih]
      simp [joinLines, code, isBlank]

theorem flatMap_code_splitLines (cs : List Char) : (splitLines cs).flatMap code = code cs := by
  rw [← code_joinLines, joinLines_splitLines]

theorem flatMap_code_linesOf (cs : List Char) : (linesOf cs).flatMap code = code cs := by
  rw [← flatMap_code_splitLines]
  simp only [linesOf]
  split
  · rename_i h
    obtain ⟨init, hinit⟩ := List.getLast?_eq_some_iff.mp (beq_iff_eq.mp h)
    rw [hinit, List.dropLast_concat, List.flatMap_append]
    exact (List.append_nil _).symm
  · rfl

/-- What a line says once a base stands in front of it: a blank line stays blank. -/
def indented (base line : List Char) : List Char :=
  if (code line).isEmpty then [] else code base ++ code line

theorem code_spaces (n : Nat) : code (spaces n) = [] := by
  rw [code_eq_nil]
  intro c hc
  rw [List.eq_of_mem_replicate hc]
  rfl

theorem trimChars_eq_nil {cs : List Char} : trimChars cs = [] ↔ code cs = [] := by
  constructor
  · intro h
    rw [← code_trimChars, h]
    rfl
  · intro h
    have hfront : trimFront cs = [] := List.dropWhile_eq_nil_iff.mpr (code_eq_nil.mp h)
    rw [trimChars, hfront]
    rfl

theorem isEmpty_trimChars (cs : List Char) : (trimChars cs).isEmpty = (code cs).isEmpty := by
  rw [Bool.eq_iff_iff, List.isEmpty_iff, List.isEmpty_iff, trimChars_eq_nil]

theorem flatMap_code_indentLines (base : List Char) (width depth : Nat)
    (lines : List (List Char)) :
    (indentLines base width depth lines).flatMap code = lines.flatMap (indented base) := by
  induction lines generalizing depth with
  | nil => rfl
  | cons line lines ih =>
    simp only [indentLines, isEmpty_trimChars]
    split
    · rename_i h
      rw [List.flatMap_cons, List.flatMap_cons, ih, indented, if_pos h]
      rfl
    · rename_i h
      rw [List.flatMap_cons, List.flatMap_cons, ih, indented, if_neg h, code_append, code_append,
        code_spaces, code_trimChars, List.append_nil]

end Text

theorem squash_reindent (text base : String) (width : Nat) :
    squash (Text.reindent text base width) =
      (Text.linesOf text.toList).flatMap (Text.indented base.toList) := by
  rw [← Text.flatMap_code_indentLines _ width 0, ← Text.code_joinLines]
  simp only [Text.reindent, squash, String.toList_ofList]
  split
  · exact (List.filter_append ..).trans (List.append_nil _)
  · rfl

theorem squash_reindent_of_blank {base : String} (h : squash base = []) (text : String)
    (width : Nat) : squash (Text.reindent text base width) = squash text := by
  rw [squash_reindent, squash, ← Text.code, ← Text.flatMap_code_linesOf]
  congr 1
  funext line
  rw [Text.indented]
  split
  · rename_i hl
    exact (List.isEmpty_iff.mp hl).symm
  · exact congrArg (· ++ _) h

theorem squash_of_not_hasCodeBefore (h : Text.hasCodeBefore text lines offset = false) :
    squash (Text.slice text ⟨lines.lineStart offset, offset⟩) = [] :=
  squash_of_trim_isEmpty (by simpa [Text.hasCodeBefore] using h)

theorem squash_gapBefore (before : List Char) : squash (Text.gapBefore before) = [] := by
  unfold Text.gapBefore
  split <;> decide

theorem squash_gapAfter (after : List Char) : squash (Text.gapAfter after) = [] := by
  unfold Text.gapAfter
  split <;> decide

theorem Text.infix_setApart (text : String) (offset : Nat) (block : String) :
    block.toList <:+: (Text.setApart text offset block).toList := by
  rw [Text.setApart, String.toList_append, String.toList_append]
  exact List.infix_append ..

@[simp] theorem squash_setApart (text : String) (offset : Nat) (block : String) :
    squash (Text.setApart text offset block) = squash block := by
  simp [Text.setApart, squash_gapBefore, squash_gapAfter]

end CppRefactor
