import CppRefactor.Proofs.Edit.Weave
import Mathlib.Algebra.GroupWithZero.Nat
import Mathlib.Order.Monotone.Basic

/-!
Where offsets of a text are after a change. An offset outside of the replaced spans divides the
change in two: what is made of the text before it ends where the offset is after the change. An
offset in a replaced span goes to the end of what replaces it, unless something is inserted where
the span starts: that is left out at the start of the span.
-/

namespace CppRefactor

namespace Edit

/-- How much longer an edit makes a text. -/
def growth (e : Edit) : Int := e.insert.utf8ByteSize - e.span.length

/-- A span ends at or before an offset and is not the empty one there. -/
def isBefore (o : Nat) (span : Span) : Bool := span.stop ≤ o && span != .point o

theorem isBefore_iff {e : Edit} (h : e.Forward) :
    isBefore o e.span = true ↔ e.span.start < o ∧ e.span.stop ≤ o := by
  obtain ⟨⟨start, stop⟩, _⟩ := e
  simp only [Forward, isBefore, Span.point, Bool.and_eq_true, decide_eq_true_eq, bne_iff_ne,
    ne_eq, Span.mk.injEq] at h ⊢
  omega

theorem weave_from (text : List UInt8) (hstart : start ≤ mid) (hstop : mid ≤ stop)
    (h : ∀ e ∈ es, mid ≤ e.span.start) :
    weave text start stop es = Text.piece text start mid ++ weave text mid stop es := by
  cases es with
  | nil => rw [weave, weave, Text.piece_append text hstart hstop]
  | cons e es =>
    rw [weave, weave, ← Text.piece_append text hstart (h e List.mem_cons_self)]
    simp only [List.append_assoc]

theorem weave_append (text : List UInt8) (hf : Follows start es) (hstart : start ≤ mid)
    (hstop : mid ≤ stop) (hes : ∀ e ∈ es, e.span.stop ≤ mid)
    (hfs : ∀ f ∈ fs, mid ≤ f.span.start) :
    weave text start stop (es ++ fs) = weave text start mid es ++ weave text mid stop fs := by
  induction es generalizing start with
  | nil => exact weave_from text hstart hstop hfs
  | cons e es ih =>
    obtain ⟨he, hes⟩ := List.forall_mem_cons.mp hes
    rw [List.cons_append, weave, weave, ih hf.cons.2.2 he hes]
    simp only [List.append_assoc]

theorem length_weave (text : List UInt8) (hf : Follows start es) (hl : ∀ e ∈ es, e.span.stop ≤ stop)
    (hstart : start ≤ stop) (ht : stop ≤ text.length) :
    ((weave text start stop es).length : Int) = stop - start + (es.map growth).sum := by
  induction es generalizing start with
  | nil =>
    rw [weave, Text.length_piece start ht, List.map_nil, List.sum_nil]
    omega
  | cons e es ih =>
    obtain ⟨hfirst, hforward, hf⟩ := hf.cons
    obtain ⟨he, hl⟩ := List.forall_mem_cons.mp hl
    have hrest := ih hf hl he
    have hpiece := Text.length_piece start (Nat.le_trans hforward (Nat.le_trans he ht))
    rw [weave, List.length_append, List.length_append, hpiece, Text.length_octets, List.map_cons,
      List.sum_cons, growth, Span.length]
    omega

end Edit

namespace Change

open Edit

theorem shift_outside {e : Edit} (h : e.Forward) (ho : e.span.contains o = false) :
    shift o e = if isBefore o e.span = true then e.growth else 0 := by
  simp only [Span.contains, Bool.and_eq_false_iff, decide_eq_false_iff_not] at ho
  simp only [isBefore_iff h, shift, isInsertion, Span.isEmpty, Bool.or_eq_true, Bool.and_eq_true,
    decide_eq_true_eq, beq_iff_eq, growth]
  simp only [Forward] at h
  split_ifs <;> omega

theorem shiftBy_outside {es : List Edit} (h : ∀ e ∈ es, e.Forward)
    (ho : ∀ e ∈ es, e.span.contains o = false) :
    shiftBy es o = ((es.filter (isBefore o ·.span)).map growth).sum := by
  induction es with
  | nil => rfl
  | cons e es ih =>
    obtain ⟨he, h⟩ := List.forall_mem_cons.mp h
    obtain ⟨hoe, ho⟩ := List.forall_mem_cons.mp ho
    rw [shiftBy_cons, shift_outside he hoe, ih h ho, List.filter_cons]
    split
    · rw [List.map_cons, List.sum_cons]
    · exact Int.zero_add _

theorem sort_eq_halves {c : Change} (h : ∀ e ∈ c.edits, e.Forward)
    (ho : ∀ e ∈ c.edits, e.span.contains o = false) :
    sort c.edits = sort (c.edits.filter (isBefore o ·.span)) ++
        sort (c.edits.filter (!isBefore o ·.span)) ∧
      ∀ e ∈ c.edits, isBefore o e.span = false → o ≤ e.span.start := by
  have hbehind : ∀ e ∈ c.edits, isBefore o e.span = false → o ≤ e.span.start := by
    intro e he hb
    have hb := (Bool.eq_false_iff.mp hb).imp (isBefore_iff (h e he)).mpr
    have ho := ho e he
    simp only [Span.contains, Bool.and_eq_false_iff, decide_eq_false_iff_not] at ho
    omega
  refine ⟨sort_eq_append c.edits (p := isBefore o) fun e he f hf hpe hpf => ?_, hbehind⟩
  have he := (isBefore_iff (h e he)).mp hpe
  have hf := hbehind f hf hpf
  simp only [notAfter, Bool.or_eq_true, decide_eq_true_eq]
  exact .inl (by omega)

/-- An offset outside of the replaced spans is where the change of the text before it ends. -/
theorem mapOffset_outside {c : Change} (h : ∀ e ∈ c.edits, e.Forward)
    (happly : c.apply text = .ok new) (ho : o ≤ text.utf8ByteSize)
    (hout : ∀ e ∈ c.edits, e.span.contains o = false) :
    let front := weave (Text.octets text) 0 o (sort (c.edits.filter (isBefore o ·.span)))
    Text.octets new = front ++ weave (Text.octets text) o text.utf8ByteSize
        (sort (c.edits.filter (!isBefore o ·.span))) ∧
      c.mapOffset o = front.length := by
  obtain ⟨hn, hfits, hnew⟩ := (apply_ok_iff h).mp happly
  obtain ⟨hsort, hbehind⟩ := sort_eq_halves h hout
  have hfollows := follows_sort h hn
  rw [hsort] at hfollows hnew
  have hfront : Follows 0 (sort (c.edits.filter (isBefore o ·.span))) :=
    ⟨fun e he => hfollows.forward e (List.mem_append_left _ he),
      (List.pairwise_append.mp hfollows.apart).1, fun _ _ => Nat.zero_le _⟩
  have hstop : ∀ e ∈ sort (c.edits.filter (isBefore o ·.span)), e.span.stop ≤ o := by
    intro e he
    obtain ⟨he, hb⟩ := List.mem_filter.mp ((sort_perm _).mem_iff.mp he)
    exact ((isBefore_iff (h e he)).mp hb).2
  have hstart : ∀ e ∈ sort (c.edits.filter (!isBefore o ·.span)), o ≤ e.span.start := by
    intro e he
    obtain ⟨he, hb⟩ := List.mem_filter.mp ((sort_perm _).mem_iff.mp he)
    exact hbehind e he (by simpa using hb)
  have hlength := length_weave (Text.octets text) hfront hstop (Nat.zero_le o)
    (by rwa [Text.length_octets])
  have hperm : ((sort (c.edits.filter (isBefore o ·.span))).map growth).sum =
      ((c.edits.filter (isBefore o ·.span)).map growth).sum :=
    ((sort_perm _).map growth).sum_eq
  constructor
  · rw [hnew, weave_append _ hfront (Nat.zero_le o) ho hstop hstart]
  · rw [mapOffset_eq, shiftBy_outside h hout, ← hperm]
    omega

theorem shift_succ {e : Edit} (h : e.Forward) (o : Nat) :
    shift o e ≤ shift (o + 1) e + if e.span.contains o = true then 1 else 0 := by
  simp only [shift, isInsertion, Span.isEmpty, Span.contains, Bool.or_eq_true, Bool.and_eq_true,
    decide_eq_true_eq, beq_iff_eq, Span.length]
  simp only [Forward] at h
  split_ifs <;> omega

theorem shiftBy_succ {es : List Edit} (h : ∀ e ∈ es, e.Forward) (o : Nat) :
    shiftBy es o ≤ shiftBy es (o + 1) + es.countP (·.span.contains o) := by
  induction es with
  | nil => exact Int.le_refl _
  | cons e es ih =>
    obtain ⟨he, h⟩ := List.forall_mem_cons.mp h
    have hshift := shift_succ he o
    have hrest := ih h
    rw [shiftBy_cons, shiftBy_cons, List.countP_cons]
    split_ifs at hshift ⊢ <;> omega

theorem countP_contains_le {es : List Edit} (h : es.Pairwise Apart) (o : Nat) :
    es.countP (·.span.contains o) ≤ 1 := by
  induction h with
  | nil => exact Nat.zero_le 1
  | @cons e es he _ ih =>
    rw [List.countP_cons]
    split
    · rename_i hin
      have hnone : es.countP (·.span.contains o) = 0 := by
        refine List.countP_eq_zero.mpr fun f hf hf' => ?_
        have hapart := he f hf
        simp only [Span.contains, Bool.and_eq_true, decide_eq_true_eq, Apart] at hin hf' hapart
        omega
      rw [hnone]
    · exact ih

theorem shiftBy_zero {es : List Edit} : 0 ≤ shiftBy es 0 := by
  induction es with
  | nil => exact Int.le_refl 0
  | cons e es ih =>
    have hshift : 0 ≤ shift 0 e := by
      simp only [shift, Bool.or_eq_true, Bool.and_eq_true, decide_eq_true_eq, Span.length]
      split_ifs <;> omega
    rw [shiftBy_cons]
    omega

theorem moved_nonneg {es : List Edit} (h : ∀ e ∈ es, e.Forward) (hapart : es.Pairwise Apart)
    (o : Nat) : 0 ≤ (o : Int) + shiftBy es o := by
  induction o with
  | zero => exact Int.le_trans shiftBy_zero (Int.le_of_eq (Int.zero_add _).symm)
  | succ o ih =>
    have hshift := shiftBy_succ h o
    have hcount := countP_contains_le hapart o
    omega

theorem mapOffset_mono {c : Change} (h : ∀ e ∈ c.edits, e.Forward)
    (hapart : c.edits.Pairwise Apart) : Monotone c.mapOffset := by
  refine monotone_nat_of_le_succ fun o => ?_
  have hshift := shiftBy_succ h o
  have hcount := countP_contains_le hapart o
  rw [mapOffset_eq, mapOffset_eq]
  omega

/-- Where offsets are after a change. One outside of the replaced spans divides the new text: before
it is what the edits that end there or before make of the text up to it, without insertions at the
offset itself, behind it is what the others make of the rest. Offsets keep their order and stay in
the text. -/
theorem mapOffset_divides (c : Change) (h : ∀ e ∈ c.edits, e.Forward)
    (happly : c.apply text = .ok new) :
    (∀ o ≤ text.utf8ByteSize, (∀ e ∈ c.edits, ¬ (e.span.start ≤ o ∧ o < e.span.stop)) →
      ∃ front back, Ordered (c.edits.filter (isBefore o ·.span)) front ∧
        Ordered (c.edits.filter (!isBefore o ·.span)) back ∧
        Text.octets new = weave (Text.octets text) 0 o front ++
          weave (Text.octets text) o text.utf8ByteSize back ∧
        c.mapOffset o = (weave (Text.octets text) 0 o front).length) ∧
    Monotone c.mapOffset ∧ ∀ o ≤ text.utf8ByteSize, c.mapOffset o ≤ new.utf8ByteSize := by
  have hn := ((apply_ok_iff h).mp happly).1
  refine ⟨fun o ho hout => ?_, ?_, fun o => mapOffset_le happly h⟩
  · have hout' : ∀ e ∈ c.edits, e.span.contains o = false := by
      simpa [Span.contains] using hout
    obtain ⟨hnew, hmap⟩ := mapOffset_outside h happly ho hout'
    exact ⟨_, _, sort_ordered _, sort_ordered _, hnew, hmap⟩
  · exact mapOffset_mono h ((not_overlapping_iff h).mp hn)

/-- An offset inside a character is not replaced with the text around it. -/
theorem mapOffset_divides_character :
    let c : Change := ⟨[⟨⟨3, 4⟩, "y"⟩, ⟨.point 0, "12"⟩]⟩
    (∀ e ∈ c.edits, e.Forward) ∧ c.apply "aéb" = .ok "12aéy" ∧
      (∀ e ∈ c.edits, ¬ (e.span.start ≤ 2 ∧ 2 < e.span.stop)) ∧
      (∃ front back, Ordered (c.edits.filter (isBefore 2 ·.span)) front ∧
        Ordered (c.edits.filter (!isBefore 2 ·.span)) back ∧
        Text.octets "12aéy" =
          weave (Text.octets "aéb") 0 2 front ++ weave (Text.octets "aéb") 2 4 back ∧
        c.mapOffset 2 = (weave (Text.octets "aéb") 0 2 front).length) ∧
      c.mapOffset 2 ≤ c.mapOffset 3 ∧ c.mapOffset 4 ≤ 6 := by
  intro c
  have h : ∀ e ∈ c.edits, e.Forward := by simp [c, Forward, Span.point]
  have happly : c.apply "aéb" = .ok "12aéy" := by decide +kernel
  have hout : ∀ e ∈ c.edits, ¬ (e.span.start ≤ 2 ∧ 2 < e.span.stop) := by simp [c, Span.point]
  obtain ⟨hdivides, hmono, hle⟩ := mapOffset_divides c h happly
  exact ⟨h, happly, hout, hdivides 2 (by decide) hout, hmono (by decide), hle 4 (by decide)⟩

/-- The length of what is inserted at an offset. -/
def insertedAt (es : List Edit) (o : Nat) : Nat :=
  (es.map fun e => if e.span = .point o then e.insert.utf8ByteSize else 0).sum

theorem insertedAt_cons (e : Edit) (es : List Edit) (o : Nat) :
    insertedAt (e :: es) o =
      (if e.span = .point o then e.insert.utf8ByteSize else 0) + insertedAt es o :=
  List.sum_cons

theorem insertedAt_eq_zero (h : ∀ e ∈ es, e.span ≠ .point o) : insertedAt es o = 0 := by
  induction es with
  | nil => rfl
  | cons e es ih =>
    obtain ⟨he, h⟩ := List.forall_mem_cons.mp h
    rw [insertedAt_cons, if_neg he, ih h]

theorem shift_behind {e : Edit} (h : e.Forward) (ho : e.span.stop ≤ o) :
    shift o e + ((if e.span = .point o then e.insert.utf8ByteSize else 0 : Nat) : Int) =
      e.growth := by
  obtain ⟨⟨start, stop⟩, insert⟩ := e
  simp only [Forward, shift, isInsertion, Span.isEmpty, Span.point, Span.length, Span.mk.injEq,
    Bool.or_eq_true, Bool.and_eq_true, decide_eq_true_eq, beq_iff_eq, growth] at h ho ⊢
  split_ifs <;> omega

theorem shiftBy_behind {es : List Edit} (h : ∀ e ∈ es, e.Forward)
    (ho : ∀ e ∈ es, e.span.stop ≤ o) :
    shiftBy es o + insertedAt es o = (es.map growth).sum := by
  induction es with
  | nil => rfl
  | cons e es ih =>
    obtain ⟨he, h⟩ := List.forall_mem_cons.mp h
    obtain ⟨hoe, ho⟩ := List.forall_mem_cons.mp ho
    rw [shiftBy_cons, insertedAt_cons, List.map_cons, List.sum_cons, ← shift_behind he hoe,
      ← ih h ho]
    omega

theorem insertedAt_perm (h : es.Perm fs) (o : Nat) : insertedAt es o = insertedAt fs o :=
  (h.map _).sum_eq

theorem shiftBy_append (es fs : List Edit) (o : Nat) :
    shiftBy (es ++ fs) o = shiftBy es o + shiftBy fs o := by
  rw [shiftBy, List.map_append, List.sum_append, shiftBy, shiftBy]

theorem insertedAt_append (es fs : List Edit) (o : Nat) :
    insertedAt (es ++ fs) o = insertedAt es o + insertedAt fs o := by
  rw [insertedAt, List.map_append, List.sum_append, insertedAt, insertedAt]

/-- Sorted edits move an offset in the span of one of them to the end of what replaces it, less what
is inserted at the offset itself. -/
theorem shiftBy_inside {o : Nat} (h : Follows 0 (front ++ e :: back))
    (ho : e.span.contains o = true) :
    (o : Int) + shiftBy (front ++ e :: back) o + insertedAt (front ++ e :: back) o =
      e.span.start + (front.map growth).sum + e.insert.utf8ByteSize := by
  simp only [Span.contains, Bool.and_eq_true, decide_eq_true_eq] at ho
  obtain ⟨-, hrest, hcross⟩ := List.pairwise_append.mp h.apart
  have hback := (List.pairwise_cons.mp hrest).1
  have hfront := shiftBy_behind (o := o) (fun f hf => h.forward f (List.mem_append_left _ hf))
    fun f hf => Nat.le_trans (hcross f hf e List.mem_cons_self) ho.1
  have hbehind : shiftBy back o = 0 :=
    shiftBy_before fun f hf => Nat.lt_of_lt_of_le ho.2 (hback f hf)
  have hnone : insertedAt (e :: back) o = 0 := by
    refine insertedAt_eq_zero fun f hf hspan => ?_
    rcases List.mem_cons.mp hf with rfl | hf
    · rw [hspan] at ho
      exact Nat.lt_irrefl _ ho.2
    · have hle := hback f hf
      rw [hspan] at hle
      exact Nat.not_le.mpr ho.2 hle
  rw [shiftBy_append, shiftBy_cons, shift_inside ho.1 ho.2, hbehind, insertedAt_append, hnone,
    ← hfront]
  omega

/-- An offset in a replaced span goes to the end of what replaces the span, less what is inserted at
the offset itself. -/
theorem mapOffset_inside {c : Change} (h : ∀ e ∈ c.edits, e.Forward)
    (happly : c.apply text = .ok new) (he : e ∈ c.edits) (ho : e.span.contains o = true) :
    ∃ front back, sort c.edits = front ++ e :: back ∧
      let upTo := weave (Text.octets text) 0 e.span.start front ++ Text.octets e.insert
      Text.octets new = upTo ++ weave (Text.octets text) e.span.stop text.utf8ByteSize back ∧
        c.mapOffset o + insertedAt c.edits o = upTo.length := by
  obtain ⟨hn, hfits, hnew⟩ := (apply_ok_iff h).mp happly
  obtain ⟨front, back, hsort⟩ := List.append_of_mem ((sort_perm c.edits).mem_iff.mpr he)
  have hfollows := follows_sort h hn
  have hperm := sort_perm c.edits
  rw [hsort] at hfollows hnew hperm
  obtain ⟨hfront, hrest, hcross⟩ := List.pairwise_append.mp hfollows.apart
  have hf : Follows 0 front :=
    ⟨fun f hf => hfollows.forward f (List.mem_append_left _ hf), hfront, fun _ _ => Nat.zero_le _⟩
  have hstop : ∀ f ∈ front, f.span.stop ≤ e.span.start := fun f hf =>
    hcross f hf e List.mem_cons_self
  have hstart : ∀ f ∈ e :: back, e.span.start ≤ f.span.start := by
    rintro f (_ | ⟨_, hf⟩)
    · exact Nat.le_refl _
    · exact Nat.le_trans (h e he) ((List.pairwise_cons.mp hrest).1 f hf)
  have hsize : e.span.start ≤ text.utf8ByteSize := Nat.le_trans (h e he) (hfits e he).1
  have hlength := length_weave (Text.octets text) hf hstop (Nat.zero_le _)
    (by rwa [Text.length_octets])
  refine ⟨front, back, hsort, ?_, ?_⟩
  · rw [hnew, weave_append _ hf (Nat.zero_le _) hsize hstop hstart, weave, Text.piece_self,
      List.nil_append, List.append_assoc]
  · have hmoved := shiftBy_inside hfollows ho
    have hpos := moved_nonneg h ((not_overlapping_iff h).mp hn) o
    rw [← shiftBy_perm hperm] at hpos
    rw [mapOffset_eq, ← shiftBy_perm hperm, ← insertedAt_perm hperm, List.length_append,
      Text.length_octets]
    omega

/-- An insertion at the start of a replaced span is left out, so that the offset there may come to
be in the middle of an inserted character: behind the replacement is offset 4. -/
theorem mapOffset_in_inserted_character :
    let c : Change := ⟨[⟨.point 1, "é"⟩, ⟨⟨1, 2⟩, "B"⟩]⟩
    c.apply "abc" = .ok "aéBc" ∧ c.mapOffset 1 = 2 ∧ Text.isBoundary "aéBc" 2 = false ∧
      (Text.octets "aéB").length = 4 := by
  decide +kernel

end Change

end CppRefactor
