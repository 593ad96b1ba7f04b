import CppRefactor.Proofs.Text.Blanks
import CppRefactor.Proofs.Text.Slices

/-!
Where lines start: between characters, and not behind what is on the line. An offset on a line that
only blanks stand before is inside of the same spans as the start of the line, of those that begin
and end with code.
-/

namespace CppRefactor

namespace LineIndex

open Text (bytes isBoundary isBoundary_iff)

theorem isBoundary_of_mem_startsAfter {before cs : List Char} (hs : s.toList = before ++ cs)
    (h : o ∈ startsAfter (bytes before) cs) : isBoundary s o = true := by
  induction cs generalizing before with
  | nil => cases h
  | cons c cs ih =>
    have hnext : bytes before + c.utf8Size = bytes (before ++ [c]) := by simp
    have hs : s.toList = (before ++ [c]) ++ cs := by simp [hs]
    rw [startsAfter, hnext] at h
    split at h
    · rcases List.mem_cons.mp h with rfl | h
      · exact isBoundary_iff.mpr ⟨_, _, hs, rfl⟩
      · exact ih hs h
    · exact ih hs h

theorem isBoundary_lineStart (text : String) (o : Nat) :
    isBoundary text ((ofText text).lineStart o) = true := by
  have hzero : isBoundary text 0 = true := isBoundary_iff.mpr ⟨[], text.toList, rfl, rfl⟩
  rw [lineStart, start]
  cases hstart : (ofText text).starts[(ofText text).lineOf (min o (ofText text).length)]? with
  | none => exact hzero
  | some start =>
    rcases List.mem_cons.mp (List.mem_of_getElem? hstart) with rfl | h
    · exact hzero
    · exact isBoundary_of_mem_startsAfter (List.nil_append text.toList).symm h

theorem start_lineOf_le (text : String) (o : Nat) :
    (ofText text).start ((ofText text).lineOf o) ≤ o := by
  have hlt : (ofText text).lineOf o < ((ofText text).starts.takeWhile (· ≤ o)).length :=
    Nat.sub_one_lt (by simp [ofText])
  have hprefix := List.takeWhile_prefix (l := (ofText text).starts) (· ≤ o)
  have htaken := List.mem_takeWhile_imp (List.getElem_mem hlt)
  rw [start, List.getElem?_eq_getElem (Nat.lt_of_lt_of_le hlt hprefix.length_le),
    ← hprefix.getElem hlt]
  exact of_decide_eq_true htaken

theorem lineStart_le (text : String) (o : Nat) : (ofText text).lineStart o ≤ o :=
  Nat.le_trans (start_lineOf_le text _) (Nat.min_le_left ..)

end LineIndex

/-- The offset is inside of the span and at neither end. -/
def Span.IsAround (s : Span) (o : Nat) : Prop := s.start < o ∧ o < s.stop

namespace Text

/-- Where only blanks set two offsets apart, they are inside of the same spans that begin and end
with code. -/
theorem isAround_iff_of_blank {text : String} {s : Span} (ha : isBoundary text a = true)
    (hb : isBoundary text b = true) (hab : a ≤ b) (hblank : squash (slice text ⟨a, b⟩) = [])
    (hstart : isBoundary text s.start = true) (hstop : isBoundary text s.stop = true)
    (hcode : trim (slice text s) = slice text s) : s.IsAround a ↔ s.IsAround b := by
  constructor
  · rintro ⟨hsa, has⟩
    refine ⟨Nat.lt_of_lt_of_le hsa hab, ?_⟩
    by_contra hsb
    have hsb := Nat.le_of_not_lt hsb
    rw [← slice_append ha hstop hb (Nat.le_of_lt has) hsb, squash_append] at hblank
    rw [← slice_append hstart ha hstop (Nat.le_of_lt hsa) (Nat.le_of_lt has)] at hcode
    exact slice_ne_empty ha hstop has
      (eq_empty_of_squash_right hcode (List.append_eq_nil_iff.mp hblank).1)
  · rintro ⟨hsb, hbs⟩
    refine ⟨?_, Nat.lt_of_le_of_lt hab hbs⟩
    by_contra has
    have has := Nat.le_of_not_lt has
    rw [← slice_append ha hstart hb has (Nat.le_of_lt hsb), squash_append] at hblank
    rw [← slice_append hstart hb hstop (Nat.le_of_lt hsb) (Nat.le_of_lt hbs)] at hcode
    exact slice_ne_empty hstart hb hsb
      (eq_empty_of_squash_left hcode (List.append_eq_nil_iff.mp hblank).2)

theorem lineStart_isAround_iff {text : String} {s : Span} (ho : isBoundary text o = true)
    (hcode : hasCodeBefore text (.ofText text) o = false) (hstart : isBoundary text s.start = true)
    (hstop : isBoundary text s.stop = true) (hs : trim (slice text s) = slice text s) :
    s.IsAround ((LineIndex.ofText text).lineStart o) ↔ s.IsAround o :=
  isAround_iff_of_blank (LineIndex.isBoundary_lineStart text o) ho (LineIndex.lineStart_le text o)
    (squash_of_not_hasCodeBefore hcode) hstart hstop hs

theorem squash_lineStartIfBlank (text : String) (lines : LineIndex) (offset : Nat) :
    squash (slice text ⟨lineStartIfBlank text lines offset, offset⟩) = [] := by
  unfold lineStartIfBlank
  split
  · exact congrArg squash (slice_point text offset)
  · rename_i h
    exact squash_of_not_hasCodeBefore ((Bool.not_eq_true _).mp h)

theorem isBoundary_lineStartIfBlank (ho : isBoundary text o = true) :
    isBoundary text (lineStartIfBlank text (.ofText text) o) = true := by
  unfold lineStartIfBlank
  split
  · exact ho
  · exact LineIndex.isBoundary_lineStart text o

theorem lineStartIfBlank_le (text : String) (o : Nat) :
    lineStartIfBlank text (.ofText text) o ≤ o := by
  unfold lineStartIfBlank
  split
  · exact Nat.le_refl o
  · exact LineIndex.lineStart_le text o

end Text

end CppRefactor
