import CppRefactor.Proofs.Project.Spelling
import CppRefactor.Proofs.Syntax.Directives
import CppRefactor.Proofs.Syntax.Lossless
import CppRefactor.Proofs.Text.Blanks
import Mathlib.Data.List.Basic

/-!
The include directives of a text before and after lines are put in that hold one more. Where only
blanks stand before a directive on its line, its line can be told from those around it, and lines
can be put before or behind it.
-/

namespace CppRefactor

open Text (bytes AtLineStart AtLineEnd IsLine)
open Lexer (directives LeadsTo)

namespace Include

variable {text after : String} {front back cs above below : List Char} {i : Include}
  {kind : IncludeKind} {path : String}

/-- The include directives of a text. -/
def ofText (text : String) : List Include :=
  ofTree (CppRefactor.parse text).tree (LineIndex.ofText text)

/-- The directive as it is that many bytes and lines further behind. -/
def movedBy (i : Include) (bytes lines : Nat) : Include :=
  { i with span := ⟨i.span.start + bytes, i.span.stop + bytes⟩, line := i.line + lines }

theorem ofToken?_eq_some {lines : LineIndex} {t : Token} : ofToken? lines t = some i ↔
    t.kind = .preproc ∧ parse t.text = some (i.kind, i.path) ∧
      i.span = ⟨t.offset, t.offset + (Text.trimRight t.text).utf8ByteSize⟩ ∧
      i.line = lines.lineOf t.offset := by
  obtain ⟨kind, path, span, line⟩ := i
  simp only [ofToken?, Option.bind_eq_bind, Option.bind_eq_some_iff, Option.guard_eq_some']
  constructor
  · rintro ⟨_, hkind, ⟨kind, path⟩, hparse, h⟩
    cases h
    exact ⟨by simpa using hkind, hparse, rfl, rfl⟩
  · rintro ⟨hkind, hparse, rfl, rfl⟩
    exact ⟨(), by simpa using hkind, (kind, path), hparse, rfl⟩

theorem ofToken?_congr {lines lines' : LineIndex} {t : Token}
    (h : lines'.lineOf t.offset = lines.lineOf t.offset) :
    ofToken? lines' t = ofToken? lines t := by
  rw [ofToken?, ofToken?, h]

theorem ofToken?_movedBy {lines lines' : LineIndex} {t : Token} {n k : Nat}
    (h : lines'.lineOf (t.offset + n) = lines.lineOf t.offset + k) :
    ofToken? lines' (t.movedBy n) = (ofToken? lines t).map (·.movedBy n k) := by
  by_cases hkind : t.kind = .preproc
  · cases hparse : parse t.text with
    | none => simp [ofToken?, Token.movedBy, hparse]
    | some found =>
      obtain ⟨kind, path⟩ := found
      simp [ofToken?, Token.movedBy, movedBy, hkind, hparse, h, Nat.add_right_comm]
  · simp [ofToken?, Token.movedBy, hkind, guard]

theorem ofText_eq (text : String) :
    ofText text = (directives 0 text.toList).filterMap (ofToken? (.ofText text)) := by
  rw [ofText, ofTree, (parse_lossless text).2.2.2.1, tokenize, directives, List.filterMap_filter]
  refine List.filterMap_congr fun t _ => ?_
  split
  · rfl
  · rename_i hkind
    simp [ofToken?, guard, hkind]

theorem of_mem_ofText (h : i ∈ ofText text) :
    ∃ before rest, text.toList = before ++ '#' :: rest ∧
      LeadsTo text.toList ('#' :: rest) ∧ i.span.start = bytes before ∧
      i.line = before.count '\n' := by
  rw [ofText_eq] at h
  obtain ⟨t, ht, hi⟩ := List.mem_filterMap.mp h
  obtain ⟨before, rest, htext, hleads, rfl⟩ := Lexer.of_mem_directives ht
  obtain ⟨-, -, hspan, hline⟩ := ofToken?_eq_some.mp hi
  refine ⟨before, rest, htext, hleads, ?_, ?_⟩
  · rw [hspan]
    exact Nat.zero_add _
  · rw [hline, Nat.zero_add, LineIndex.lineOf_bytes htext]

/-- Include directives are in the order of their lines, with one on a line. -/
theorem ofText_lines (text : String) : (ofText text).Pairwise (·.line < ·.line) := by
  rw [ofText_eq, List.pairwise_filterMap]
  have hlines := Lexer.directives_lines (List.nil_append text.toList).symm
  refine hlines.imp fun {s t} h i hi j hj => ?_
  rw [(ofToken?_eq_some.mp hi).2.2.2, (ofToken?_eq_some.mp hj).2.2.2]
  exact h

/-- Only blanks stand before the directive on its line, and no backslash ends the line. -/
structure HasOwnLine (i : Include) (text : String) : Prop where
  blank : Text.hasCodeBefore text (.ofText text) i.span.start = false
  ends : (Text.slice text ⟨(LineIndex.ofText text).lineStart i.span.start,
    (LineIndex.ofText text).lineEnd i.span.start⟩).toList.getLast? ≠ some '\\'

/-- The text around a directive: what is before its line, the blanks on the line, what is behind
the hash, and what is behind the line. -/
structure StandsOn (i : Include) (text : String) (before blank line after : List Char) :
    Prop where
  isLine : IsLine before (blank ++ '#' :: line) after text.toList
  isBlank : ∀ c ∈ blank, Text.isBlank c = true
  last : line.getLast? ≠ some '\\'
  leads : LeadsTo text.toList ('#' :: (line ++ after))
  number : i.line = before.count '\n'

theorem HasOwnLine.standsOn (h : i.HasOwnLine text) (hi : i ∈ ofText text) :
    ∃ before blank line after, i.StandsOn text before blank line after := by
  obtain ⟨hblank, hends⟩ := h
  obtain ⟨front, rest, htext, hleads, hstart, hnumber⟩ := of_mem_ofText hi
  obtain ⟨before, blank, right, after, rfl, hright, hline⟩ := Text.exists_isLine front ('#' :: rest)
  rw [← htext] at hline
  have hlow : bytes before ≤ i.span.start := by
    rw [hstart, Text.bytes_append]
    omega
  have hhigh : i.span.start ≤ bytes (before ++ (blank ++ right)) := by
    rw [hstart, ← List.append_assoc, Text.bytes_append _ right]
    omega
  obtain ⟨line, rfl⟩ : ∃ line, right = '#' :: line := by
    cases right with
    | nil =>
      rw [List.nil_append] at hright
      rw [← hright] at hline
      exact nomatch hline.ends.head rfl
    | cons c line => exact ⟨line, congrArg (· :: line) (List.cons.inj hright).1.symm⟩
  obtain rfl : rest = line ++ after := (List.cons.inj hright).2
  refine ⟨before, blank, line, after, hline, ?_, ?_, hleads, ?_⟩
  · have hslice := squash_of_not_hasCodeBefore hblank
    rw [LineIndex.lineStart_isLine hline hlow hhigh, hstart, Text.bytes_append,
      Text.slice_eq htext, squash, String.toList_ofList] at hslice
    exact Text.code_eq_nil.mp hslice
  · intro hlast
    have hslice : text.toList = before ++ (blank ++ '#' :: line) ++ after := by
      rw [hline.split]
      simp
    rw [LineIndex.lineStart_isLine hline hlow hhigh, LineIndex.lineEnd_isLine hline hlow hhigh,
      Text.bytes_append, Text.slice_eq hslice, String.toList_ofList] at hends
    refine hends ?_
    rw [List.getLast?_append, List.getLast?_cons, hlast]
    rfl
  · have hcount : blank.count '\n' = 0 :=
      List.count_eq_zero.mpr fun hmem => hline.unbroken (List.mem_append_left _ hmem)
    rw [hnumber, List.count_append, hcount, Nat.add_zero]

/-- A place at the start of a line or at the end of a text that sets the directives before it apart
from what is put there. At the end of a line that begins with a line feed. -/
structure IsGap (front back : List Char) : Prop where
  place : AtLineStart front ∨ back = []
  directives : ∀ cs, AtLineStart front ∨ AtLineEnd cs →
    directives 0 (front ++ cs) = directives 0 front ++ directives (bytes front) cs

namespace StandsOn

variable {before blank line after rest : List Char}

theorem split (h : i.StandsOn text before blank line after) :
    text.toList = before ++ (blank ++ '#' :: line ++ after) := h.isLine.split

theorem lineFeed_notMem (h : i.StandsOn text before blank line after) :
    '\n' ∉ blank ∧ '\n' ∉ line := by
  have hmem := h.isLine.unbroken
  simp only [List.mem_append, List.mem_cons, not_or] at hmem
  exact ⟨hmem.1, hmem.2.2⟩

theorem directives_before (h : i.StandsOn text before blank line after) (cs : List Char) :
    directives 0 (before ++ cs) = directives 0 before ++ directives (bytes before) cs := by
  have hleads := h.leads
  rw [h.split, List.append_assoc, List.cons_append] at hleads
  have happend := Lexer.directives_append_lineStart h.isLine.starts hleads h.isBlank
    h.lineFeed_notMem.1 0 cs
  rwa [Nat.zero_add] at happend

theorem gap_before (h : i.StandsOn text before blank line after) :
    IsGap before (blank ++ '#' :: line ++ after) where
  place := .inl h.isLine.starts
  directives cs _ := h.directives_before cs

theorem directives_behind (h : i.StandsOn text before blank line after) (hend : AtLineEnd cs) :
    directives 0 (before ++ (blank ++ '#' :: line) ++ cs) =
      directives 0 (before ++ (blank ++ '#' :: line)) ++
        directives (bytes (before ++ (blank ++ '#' :: line))) cs := by
  have hline {cs : List Char} (hend : AtLineEnd cs) :=
    Lexer.directives_line h.isBlank h.lineFeed_notMem.2 h.last hend (bytes before)
  have halone := hline .bottom
  rw [List.append_nil, Lexer.directives_nil] at halone
  rw [List.append_assoc, h.directives_before, hline hend, h.directives_before, halone,
    Text.bytes_append before, List.append_assoc]
  rfl

theorem gap_behind (h : i.StandsOn text before blank line ('\n' :: rest)) :
    IsGap (before ++ (blank ++ '#' :: line) ++ ['\n']) rest where
  place := .inl (.behind _)
  directives cs _ := by
    have hfeed := h.directives_behind (.before [])
    rw [Lexer.directives_space rfl, Lexer.directives_nil, List.append_nil] at hfeed
    rw [List.append_assoc _ ['\n'], List.singleton_append, h.directives_behind (.before cs), hfeed,
      Lexer.directives_space rfl, Text.bytes_append _ ['\n']]
    rfl

theorem gap_end (h : i.StandsOn text before blank line []) :
    IsGap (before ++ (blank ++ '#' :: line)) [] where
  place := .inr rfl
  directives cs hcs := by
    rcases hcs with hstart | hend
    · exact absurd (hstart.eq_nil h.isLine.unbroken) (by simp)
    · exact h.directives_behind hend

end StandsOn

/-- Lines that hold one include directive, with line feeds around it. -/
structure IsLines (kind : IncludeKind) (path : String) (above below cs : List Char) : Prop where
  split : cs = above ++ (("#include " ++ spell kind path).toList ++ '\n' :: below)
  above : ∀ c ∈ above, c = '\n'
  below : ∀ c ∈ below, c = '\n'

theorem toList_directive (kind : IncludeKind) (path : String) :
    ("#include " ++ spell kind path).toList =
      '#' :: ("include ".toList ++ (spell kind path).toList) := by
  simp

theorem lineFeed_notMem_spell (kind : IncludeKind) (hpath : '\n' ∉ path.toList) :
    '\n' ∉ "include ".toList ++ (spell kind path).toList := by
  rw [toList_spell]
  cases kind <;> simpa [delimiters] using hpath

theorem getLast?_spell (kind : IncludeKind) (path : String) :
    ("include ".toList ++ (spell kind path).toList).getLast? ≠ some '\\' := by
  rw [toList_spell, ← List.cons_append, ← List.append_assoc, List.getLast?_concat]
  cases kind <;> exact nofun

theorem directives_isLines (h : IsLines kind path above below cs) (hpath : '\n' ∉ path.toList)
    (offset : Nat) (rest : List Char) :
    directives offset (cs ++ rest) =
      ⟨.preproc, offset + bytes above, "#include " ++ spell kind path⟩ ::
        directives (offset + bytes cs) rest := by
  have habove : ∀ c ∈ above, Text.isBlank c = true := fun c hc => h.above c hc ▸ rfl
  have hbelow : ∀ c ∈ '\n' :: below, Text.isBlank c = true := by
    intro c hc
    rcases List.mem_cons.mp hc with rfl | hc
    · rfl
    · exact h.below c hc ▸ rfl
  have hline := Lexer.directives_line habove (lineFeed_notMem_spell kind hpath)
    (getLast?_spell kind path) (.before (below ++ rest)) offset
  have hfeeds (offset : Nat) : directives offset ('\n' :: (below ++ rest)) =
      directives (offset + bytes ('\n' :: below)) rest :=
    Lexer.directives_append_blank hbelow offset rest
  rw [← toList_directive, String.ofList_toList, hfeeds, Nat.add_assoc, ← Text.bytes_append,
    List.append_assoc above _ ('\n' :: below), ← h.split] at hline
  rw [← hline, h.split]
  simp only [List.append_assoc, List.cons_append]

theorem filterMap_front {new : String} (htext : text.toList = front ++ back)
    (hnew : new.toList = front ++ (cs ++ back)) :
    (directives 0 front).filterMap (ofToken? (.ofText new)) =
      (directives 0 front).filterMap (ofToken? (.ofText text)) := by
  refine List.filterMap_congr fun t ht => ofToken?_congr ?_
  obtain ⟨before, rest, rfl, -, rfl⟩ := Lexer.of_mem_directives ht
  rw [List.append_assoc] at htext hnew
  rw [Nat.zero_add, LineIndex.lineOf_bytes htext, LineIndex.lineOf_bytes hnew]

theorem filterMap_back {new : String} (htext : text.toList = front ++ back)
    (hnew : new.toList = front ++ (cs ++ back)) :
    (directives (bytes front + bytes cs) back).filterMap (ofToken? (.ofText new)) =
      ((directives (bytes front) back).filterMap (ofToken? (.ofText text))).map
        (·.movedBy (bytes cs) (cs.count '\n')) := by
  rw [Lexer.directives_movedBy, List.filterMap_map, List.map_filterMap]
  refine List.filterMap_congr fun t ht => ofToken?_movedBy ?_
  obtain ⟨before, rest, rfl, -, rfl⟩ := Lexer.of_mem_directives ht
  have htext : text.toList = (front ++ before) ++ '#' :: rest := by
    rw [htext, List.append_assoc]
  have hnew : new.toList = (front ++ cs ++ before) ++ '#' :: rest := by
    rw [hnew, List.append_assoc, List.append_assoc]
  rw [Nat.add_right_comm, ← Text.bytes_append, ← Text.bytes_append, ← Text.bytes_append,
    LineIndex.lineOf_bytes htext, LineIndex.lineOf_bytes hnew]
  simp only [List.count_append]
  omega

theorem line_of_mem_front (htext : text.toList = front ++ back)
    (h : i ∈ (directives 0 front).filterMap (ofToken? (.ofText text))) :
    i.line ≤ front.count '\n' ∧ (AtLineStart front → i.line < front.count '\n') := by
  obtain ⟨t, ht, hi⟩ := List.mem_filterMap.mp h
  obtain ⟨before, rest, rfl, -, rfl⟩ := Lexer.of_mem_directives ht
  rw [(ofToken?_eq_some.mp hi).2.2.2, Nat.zero_add,
    LineIndex.lineOf_bytes (htext.trans (List.append_assoc ..)), List.count_append]
  refine ⟨Nat.le_add_right .., fun hstart => Nat.lt_add_of_pos_right ?_⟩
  refine List.count_pos_iff.mpr (by_contra fun hmem => ?_)
  exact absurd (hstart.eq_nil hmem) (List.cons_ne_nil _ _)

theorem line_of_mem_back (htext : text.toList = front ++ back)
    (h : i ∈ (directives (bytes front) back).filterMap (ofToken? (.ofText text))) :
    front.count '\n' ≤ i.line := by
  obtain ⟨t, ht, hi⟩ := List.mem_filterMap.mp h
  obtain ⟨before, rest, rfl, -, rfl⟩ := Lexer.of_mem_directives ht
  rw [(ofToken?_eq_some.mp hi).2.2.2, ← Text.bytes_append,
    LineIndex.lineOf_bytes (htext.trans (List.append_assoc ..).symm), List.count_append]
  exact Nat.le_add_right ..

theorem IsLines.atLineEnd (h : IsLines kind path above below cs) (hne : above ≠ [])
    (rest : List Char) : AtLineEnd (cs ++ rest) := by
  obtain ⟨c, above, rfl⟩ := List.exists_cons_of_ne_nil hne
  rw [h.split, h.above c List.mem_cons_self]
  exact .before _

/-- The directives of a text with lines in a gap are the ones from before, and the one in the lines
at the gap. -/
theorem ofText_insert {new : String} (hgap : IsGap front back) (htext : text.toList = front ++ back)
    (hnew : new.toList = front ++ (cs ++ back)) (hcs : IsLines kind path above below cs)
    (hfits : AtLineStart front ∨ above ≠ []) (hpath : '\n' ∉ path.toList)
    (hclose : (delimiters kind).2 ∉ path.toList) :
    ∃ before i behind, ofText text = before ++ behind ∧
      ofText new = before ++ i :: behind.map (·.movedBy (bytes cs) (cs.count '\n')) ∧
      i.kind = kind ∧ i.path = path ∧ i.line = front.count '\n' + above.length ∧
      (∀ j ∈ before, j.line ≤ front.count '\n' ∧
        (AtLineStart front → j.line < front.count '\n')) ∧
      (∀ j ∈ behind, front.count '\n' ≤ j.line) ∧ (back = [] → behind = []) := by
  have hold : ofText text = (directives 0 front).filterMap (ofToken? (.ofText text)) ++
      (directives (bytes front) back).filterMap (ofToken? (.ofText text)) := by
    have hback : AtLineStart front ∨ AtLineEnd back :=
      hgap.place.imp_right fun (h : back = []) => h ▸ .bottom
    rw [ofText_eq, htext, hgap.directives back hback, List.filterMap_append]
  obtain ⟨i, hi⟩ : ∃ i, ofToken? (.ofText new)
      ⟨.preproc, bytes front + bytes above, "#include " ++ spell kind path⟩ = some i := by
    simp [ofToken?, parse_spell hclose]
  have hread : ofText new = (directives 0 front).filterMap (ofToken? (.ofText text)) ++
      i :: ((directives (bytes front) back).filterMap (ofToken? (.ofText text))).map
        (·.movedBy (bytes cs) (cs.count '\n')) := by
    have hcsback := hgap.directives (cs ++ back) (hfits.imp_right (hcs.atLineEnd · back))
    rw [ofText_eq, hnew, hcsback, directives_isLines hcs hpath, List.filterMap_append,
      List.filterMap_cons_some hi, filterMap_front htext hnew, filterMap_back htext hnew]
  obtain ⟨-, hparse, -, hline⟩ := ofToken?_eq_some.mp hi
  obtain ⟨rfl, rfl⟩ := Prod.mk.inj (Option.some.inj (hparse.symm.trans (parse_spell hclose)))
  refine ⟨_, i, _, hold, hread, rfl, rfl, ?_, fun _ => line_of_mem_front htext,
    fun _ => line_of_mem_back htext, ?_⟩
  · have hsplit : new.toList = (front ++ above) ++
        (("#include " ++ spell i.kind i.path).toList ++ '\n' :: below ++ back) := by
      rw [hnew, hcs.split]
      simp only [List.append_assoc]
    have hcount : above.count '\n' = above.length :=
      List.count_eq_length.mpr fun c hc => (hcs.above c hc).symm
    rw [hline, ← Text.bytes_append, LineIndex.lineOf_bytes hsplit, List.count_append, hcount]
  · rintro rfl
    rw [Lexer.directives_nil]
    rfl

end Include

end CppRefactor
