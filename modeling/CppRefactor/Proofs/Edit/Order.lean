import CppRefactor.Proofs.Edit.Overlap

/-!
The order in which the edits of a text are made: by their starts, then by their ends, and those of
one span as they were added. Nothing else of the order in which they were added is left in it.
-/

namespace CppRefactor

namespace Edit

/-- Edits in the order in which they are made. -/
structure Ordered (es sorted : List Edit) : Prop where
  perm : sorted.Perm es
  pairwise : sorted.Pairwise (·.notAfter ·)
  stable : ∀ span, sorted.filter (·.span == span) = es.filter (·.span == span)

theorem span_eq_of_notAfter {e f : Edit} (h : e.notAfter f = true) (h' : f.notAfter e = true) :
    e.span = f.span := by
  obtain ⟨⟨start, stop⟩, _⟩ := e
  obtain ⟨⟨start', stop'⟩, _⟩ := f
  simp only [notAfter, Bool.or_eq_true, Bool.and_eq_true, decide_eq_true_eq, beq_iff_eq,
    Span.mk.injEq] at h h' ⊢
  omega

theorem notAfter_of_span_eq {e f : Edit} (h : e.span = f.span) : e.notAfter f = true := by
  simp [notAfter, h]

theorem filter_insertSorted (e : Edit) (es : List Edit) (span : Span) :
    (insertSorted e es).filter (·.span == span) = (e :: es).filter (·.span == span) := by
  induction es with
  | nil => rfl
  | cons f es ih =>
    unfold insertSorted
    split
    · rfl
    · rename_i hnot
      rw [List.filter_cons, ih]
      -- The edit goes behind one of another span only.
      have hne : e.span ≠ f.span := fun he => hnot (notAfter_of_span_eq he)
      by_cases he : e.span = span
      · have hf : f.span ≠ span := fun hf => hne (he.trans hf.symm)
        simp [he, hf]
      · simp [he, List.filter_cons]

theorem sort_ordered (es : List Edit) : Ordered es (sort es) where
  perm := sort_perm es
  pairwise := sort_pairwise es
  stable span := by
    induction es with
    | nil => rfl
    | cons e es ih => rw [sort, List.foldr_cons, filter_insertSorted, List.filter_cons,
        List.filter_cons, ← ih, sort]

theorem eq_of_filter_eq {es fs : List Edit} (h : es.Pairwise (·.notAfter ·))
    (h' : fs.Pairwise (·.notAfter ·))
    (hf : ∀ span, es.filter (·.span == span) = fs.filter (·.span == span)) : es = fs := by
  have hmem (e : Edit) : e ∈ es ↔ e ∈ fs := by
    have := congrArg (e ∈ ·) (hf e.span)
    simpa using this
  induction es generalizing fs with
  | nil => exact (List.eq_nil_iff_forall_not_mem.mpr fun e he => nomatch (hmem e).mpr he).symm
  | cons e es ih =>
    cases fs with
    | nil => exact nomatch (hmem e).mp List.mem_cons_self
    | cons f fs =>
      obtain ⟨he, hes⟩ := List.pairwise_cons.mp h
      obtain ⟨hf', hfs⟩ := List.pairwise_cons.mp h'
      have hspan : e.span = f.span := by
        apply span_eq_of_notAfter
        · rcases List.mem_cons.mp ((hmem f).mpr List.mem_cons_self) with rfl | hm
          · exact notAfter_of_span_eq rfl
          · exact he f hm
        · rcases List.mem_cons.mp ((hmem e).mp List.mem_cons_self) with rfl | hm
          · exact notAfter_of_span_eq rfl
          · exact hf' e hm
      have hrest (span : Span) : e = f ∧
          es.filter (·.span == span) = fs.filter (·.span == span) := by
        have hhead := hf e.span
        have hall := hf span
        simp only [List.filter_cons, hspan, beq_self_eq_true, if_true, List.cons.injEq]
          at hhead hall
        refine ⟨hhead.1, ?_⟩
        split at hall
        · exact (List.cons.inj hall).2
        · exact hall
      have htail := fun span => (hrest span).2
      rw [(hrest e.span).1, ih hes hfs htail]
      intro g
      have := congrArg (g ∈ ·) (htail g.span)
      simpa using this

/-- Edits of which those of each span are added in the same order are made in the same order. -/
theorem Ordered.eq (h : Ordered es sorted) (h' : Ordered fs sorted')
    (hf : ∀ span, es.filter (·.span == span) = fs.filter (·.span == span)) : sorted = sorted' :=
  eq_of_filter_eq h.pairwise h'.pairwise fun span => by rw [h.stable, h'.stable, hf]

theorem sort_eq_of_ordered (h : Ordered es sorted) : sort es = sorted :=
  (sort_ordered es).eq h fun _ => rfl

theorem sort_sort (es : List Edit) : sort (sort es) = sort es :=
  sort_eq_of_ordered ⟨.refl _, sort_pairwise es, fun _ => rfl⟩

theorem filter_filter_span (es : List Edit) (p : Span → Bool) (span : Span) :
    (es.filter (p ·.span)).filter (·.span == span) =
      if p span = true then es.filter (·.span == span) else [] := by
  rw [List.filter_filter]
  split
  · rename_i hp
    refine List.filter_congr fun e _ => ?_
    by_cases he : e.span = span <;> simp [he, hp]
  · rename_i hp
    refine List.filter_eq_nil_iff.mpr fun e _ => ?_
    by_cases he : e.span = span <;> simp [he, hp]

/-- If the edits of some spans come before all others, they can be sorted apart from them. -/
theorem sort_eq_append (es : List Edit) {p : Span → Bool}
    (h : ∀ e ∈ es, ∀ f ∈ es, p e.span = true → p f.span = false → e.notAfter f = true) :
    sort es = sort (es.filter (p ·.span)) ++ sort (es.filter (!p ·.span)) := by
  refine sort_eq_of_ordered ⟨?_, ?_, fun span => ?_⟩
  · exact ((sort_perm _).append (sort_perm _)).trans (List.filter_append_perm _ es)
  · refine List.pairwise_append.mpr ⟨sort_pairwise _, sort_pairwise _, fun e he f hf => ?_⟩
    obtain ⟨he, hpe⟩ := List.mem_filter.mp ((sort_perm _).mem_iff.mp he)
    obtain ⟨hf, hpf⟩ := List.mem_filter.mp ((sort_perm _).mem_iff.mp hf)
    exact h e he f hf hpe (by simpa using hpf)
  · rw [List.filter_append, (sort_ordered _).stable, (sort_ordered _).stable, filter_filter_span,
      filter_filter_span es (!p ·)]
    cases p span <;> simp

end Edit

end CppRefactor
