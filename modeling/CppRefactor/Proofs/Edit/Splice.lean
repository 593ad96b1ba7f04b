import CppRefactor.Proofs.Edit.Overlap
import CppRefactor.Proofs.Text.Slices
import Mathlib.Algebra.BigOperators.Group.List.Basic
import Mathlib.Algebra.Ring.Int.Defs

/-!
What sorted edits make of a text, and where they move its offsets: an offset of the text stays in
the text.
-/

namespace CppRefactor

namespace Edit

/-- Carrying out an edit keeps what is before it, drops what it replaces and goes on behind that. -/
theorem splice_cons_ok {e : Edit} (h : splice length offset cs (e :: es) = .ok out) :
    ∃ kept removed rest tail, cs = kept ++ removed ++ rest ∧
      Text.bytes kept = e.span.start - offset ∧ Text.bytes removed = e.span.length ∧
      splice length e.span.stop rest es = .ok tail ∧ out = kept ++ e.insert.toList ++ tail := by
  rw [splice] at h
  cases hk : Text.cut? (e.span.start - offset) cs with
  | none =>
    rw [hk] at h
    cases h
  | some parts =>
    obtain ⟨kept, behind⟩ := parts
    simp only [hk] at h
    cases hr : Text.cut? e.span.length behind with
    | none =>
      rw [hr] at h
      cases h
    | some parts =>
      obtain ⟨removed, rest⟩ := parts
      simp only [hr] at h
      cases ht : splice length e.span.stop rest es with
      | error e' =>
        rw [ht] at h
        cases h
      | ok tail =>
        rw [ht] at h
        cases h
        refine ⟨kept, removed, rest, tail, ?_, Text.bytes_of_cut? hk, Text.bytes_of_cut? hr, ht,
          rfl⟩
        rw [List.append_assoc, Text.append_of_cut? hr, Text.append_of_cut? hk]

end Edit

namespace Change

/-- How far edits move an offset, all together. -/
def shiftBy (es : List Edit) (offset : Nat) : Int := (es.map (shift offset)).sum

theorem mapOffset_eq (c : Change) (offset : Nat) :
    c.mapOffset offset = (offset + shiftBy c.edits offset).toNat := by
  have hsum (es : List Edit) (at_ : Int) :
      es.foldl (fun at_ e => at_ + shift offset e) at_ = at_ + shiftBy es offset := by
    induction es generalizing at_ with
    | nil => exact (Int.add_zero at_).symm
    | cons e es ih => rw [List.foldl_cons, ih, shiftBy, shiftBy, List.map_cons, List.sum_cons,
        Int.add_assoc]
  rw [mapOffset, hsum]

theorem shiftBy_perm (h : es.Perm fs) (offset : Nat) : shiftBy es offset = shiftBy fs offset :=
  (h.map (shift offset)).sum_eq

@[simp] theorem shiftBy_cons (e : Edit) (es : List Edit) (offset : Nat) :
    shiftBy (e :: es) offset = shift offset e + shiftBy es offset :=
  List.sum_cons

theorem shift_before {e : Edit} (h : offset < e.span.start) : shift offset e = 0 := by
  rw [shift, if_pos]
  rw [decide_eq_true h, Bool.true_or]

theorem shiftBy_before (h : ∀ e ∈ es, offset < e.span.start) : shiftBy es offset = 0 := by
  induction es with
  | nil => rfl
  | cons e es ih =>
    rw [shiftBy_cons, shift_before (h e List.mem_cons_self), ih fun f hf => h f (.tail _ hf)]
    rfl

/-- An offset behind an edit moves with the text there, except that an insertion at the offset does
not move it. -/
theorem shift_behind_le {e : Edit} (h : e.span.stop ≤ offset) (hf : e.Forward) :
    shift offset e ≤ e.insert.utf8ByteSize - e.span.length := by
  unfold shift
  split
  · rename_i hc
    simp only [Edit.isInsertion, Span.isEmpty, Bool.or_eq_true, decide_eq_true_eq,
      Bool.and_eq_true, beq_iff_eq] at hc
    simp only [Edit.Forward, Span.length] at hf ⊢
    omega
  · exact Int.le_refl _

theorem shift_inside {e : Edit} (h : e.span.start ≤ offset) (h' : offset < e.span.stop) :
    shift offset e = e.insert.utf8ByteSize - (offset - e.span.start : Nat) := by
  rw [shift, if_neg, if_neg (Nat.not_le.mpr h')]
  simp only [Edit.isInsertion, Span.isEmpty, Bool.or_eq_true, decide_eq_true_eq,
    Bool.and_eq_true, beq_iff_eq]
  omega

/-- An offset of the text that edits are carried out on stays in what they make of it. -/
theorem shiftBy_le {es : List Edit} (hs : Edit.splice length start cs es = .ok out)
    (hf : ∀ e ∈ es, e.Forward) (hp : es.Pairwise fun e f => e.span.stop ≤ f.span.start)
    (hfirst : ∀ e ∈ es, start ≤ e.span.start) (ho : start ≤ offset)
    (hlast : offset ≤ start + Text.bytes cs) :
    (offset - start : Int) + shiftBy es offset ≤ Text.bytes out := by
  induction es generalizing start cs out with
  | nil =>
    cases hs
    rw [shiftBy, List.map_nil, List.sum_nil]
    omega
  | cons e es ih =>
    obtain ⟨kept, removed, rest, tail, rfl, hkept, hremoved, htail, rfl⟩ := Edit.splice_cons_ok hs
    obtain ⟨hbehind, hp⟩ := List.pairwise_cons.mp hp
    have he : e.span.start ≤ e.span.stop := hf e List.mem_cons_self
    have hstart := hfirst e List.mem_cons_self
    simp only [Text.bytes_append, Text.bytes_toList, shiftBy_cons, Span.length] at *
    rcases Nat.lt_or_ge offset e.span.stop with hlt | hge
    · -- No edit further behind reaches the offset.
      have hrest : shiftBy es offset = 0 :=
        shiftBy_before fun f hf => Nat.lt_of_lt_of_le hlt (hbehind f hf)
      rcases Nat.lt_or_ge offset e.span.start with hl | hg
      · rw [shift_before hl, hrest]
        omega
      · rw [shift_inside hg hlt, hrest]
        omega
    · have hrest := ih htail (fun f h => hf f (.tail _ h)) hp hbehind hge (by omega)
      have hshift := shift_behind_le hge he
      simp only [Span.length] at hshift
      omega

/-- A change that can be made sorts its edits, none of which overlap, and carries them out. -/
theorem of_apply_ok {c : Change} (h : c.apply text = .ok new) :
    Edit.overlap? (Edit.sort c.edits) = none ∧
      Edit.splice text.utf8ByteSize 0 text.toList (Edit.sort c.edits) = .ok new.toList := by
  rw [apply, finish] at h
  cases hover : Edit.overlap? (Edit.sort c.edits) with
  | some spans =>
    simp only [hover] at h
    cases h
  | none =>
    simp only [hover] at h
    change (Edit.splice _ _ _ _ >>= _) = _ at h
    cases hsplice : Edit.splice text.utf8ByteSize 0 text.toList (Edit.sort c.edits) with
    | error e =>
      rw [hsplice] at h
      cases h
    | ok out =>
      rw [hsplice] at h
      cases h
      exact ⟨rfl, by rw [String.toList_ofList]⟩

theorem mapOffset_le {c : Change} (h : c.apply text = .ok new) (hf : ∀ e ∈ c.edits, e.Forward)
    (ho : offset ≤ text.utf8ByteSize) : c.mapOffset offset ≤ new.utf8ByteSize := by
  obtain ⟨hover, hsplice⟩ := of_apply_ok h
  have hperm := Edit.sort_perm c.edits
  have hsorted : ∀ e ∈ Edit.sort c.edits, e.Forward := fun e he => hf e (hperm.mem_iff.mp he)
  have hle := shiftBy_le hsplice hsorted ((Edit.overlap?_eq_none_iff hsorted).mp hover)
    (fun _ _ => Nat.zero_le _) (Nat.zero_le offset) (by rwa [Nat.zero_add, Text.bytes_toList])
  rw [shiftBy_perm hperm, Text.bytes_toList] at hle
  rw [mapOffset_eq]
  omega

end Change

end CppRefactor
