import CppRefactor.Fix.Request

/-!
When changes can be finished: if no two edits of one text reach into each other. Comparing the
neighbours of the sorted edits finds any two that do.
-/

namespace CppRefactor

namespace Edit

/-- The span of an edit ends where it starts or later. -/
def Forward (e : Edit) : Prop := e.span.start ≤ e.span.stop

/-- One edit ends where the other one starts or before. -/
def Apart (e f : Edit) : Prop := e.span.stop ≤ f.span.start ∨ f.span.stop ≤ e.span.start

theorem Apart.symm (h : Apart e f) : Apart f e := Or.symm h

/-- An edit is strictly inside a span. -/
def Splits (e : Edit) (span : Span) : Prop :=
  span.start < e.span.start ∧ e.span.stop < span.stop

theorem forward_of_isInsertion {e : Edit} (h : e.isInsertion = true) : e.Forward :=
  Nat.le_of_eq (beq_iff_eq.mp h)

theorem apart_of_isInsertion {e f : Edit} (he : e.isInsertion = true) (hf : f.isInsertion = true) :
    e.Apart f := by
  simp only [isInsertion, Span.isEmpty, beq_iff_eq] at he hf
  simp only [Apart]
  omega

theorem apart_iff_not_splits {e f : Edit} (he : e.isInsertion = true) :
    e.Apart f ↔ ¬ e.Splits f.span := by
  simp only [isInsertion, Span.isEmpty, beq_iff_eq] at he
  simp only [Apart, Splits]
  omega

theorem insertSorted_perm (e : Edit) (es : List Edit) : (insertSorted e es).Perm (e :: es) := by
  induction es with
  | nil => exact .refl _
  | cons f es ih =>
    unfold insertSorted
    split
    · exact .refl _
    · exact (ih.cons f).trans (.swap e f es)

theorem sort_perm (es : List Edit) : (sort es).Perm es := by
  induction es with
  | nil => exact .refl _
  | cons e es ih => exact (insertSorted_perm e _).trans (ih.cons e)

theorem notAfter_of_not {e f : Edit} (h : ¬ e.notAfter f = true) : f.notAfter e = true := by
  simp only [notAfter, Bool.or_eq_true, Bool.and_eq_true, decide_eq_true_eq, beq_iff_eq] at h ⊢
  omega

theorem notAfter_trans {e f g : Edit} (h : e.notAfter f = true) (h' : f.notAfter g = true) :
    e.notAfter g = true := by
  simp only [notAfter, Bool.or_eq_true, Bool.and_eq_true, decide_eq_true_eq, beq_iff_eq] at h h' ⊢
  omega

theorem insertSorted_pairwise {es : List Edit} (h : es.Pairwise (·.notAfter ·)) (e : Edit) :
    (insertSorted e es).Pairwise (·.notAfter ·) := by
  induction h with
  | nil => exact List.pairwise_singleton _ e
  | @cons f es hf hes ih =>
    unfold insertSorted
    split
    · rename_i hef
      refine .cons ?_ (.cons hf hes)
      rintro g (_ | ⟨_, hg⟩)
      · exact hef
      · exact notAfter_trans hef (hf g hg)
    · rename_i hef
      refine .cons ?_ ih
      intro g hg
      rcases List.mem_cons.mp ((insertSorted_perm e es).mem_iff.mp hg) with rfl | hg
      · exact notAfter_of_not hef
      · exact hf g hg

theorem sort_pairwise (es : List Edit) : (sort es).Pairwise (·.notAfter ·) := by
  induction es with
  | nil => exact .nil
  | cons e es ih => exact insertSorted_pairwise ih e

/-- Of edits in order, those are apart of which the first ends before the second. -/
theorem apart_iff {e f : Edit} (hf : f.Forward) (h : e.notAfter f = true) :
    Apart e f ↔ e.span.stop ≤ f.span.start := by
  simp only [Forward, Apart, notAfter, Bool.or_eq_true, Bool.and_eq_true, decide_eq_true_eq,
    beq_iff_eq] at hf h ⊢
  omega

/-- Neighbours suffice: what ends before its neighbour ends before all that follow. -/
theorem overlap?_eq_none_iff {es : List Edit} (h : ∀ e ∈ es, e.Forward) :
    overlap? es = none ↔ es.Pairwise fun e f => e.span.stop ≤ f.span.start := by
  induction es with
  | nil => exact ⟨fun _ => .nil, fun _ => rfl⟩
  | cons e es ih =>
    cases es with
    | nil => exact ⟨fun _ => List.pairwise_singleton _ e, fun _ => rfl⟩
    | cons f es =>
      have ih := ih fun g hg => h g (.tail _ hg)
      unfold overlap?
      split
      · rename_i hlt
        refine ⟨nofun, fun hp => ?_⟩
        have := List.rel_of_pairwise_cons hp List.mem_cons_self
        omega
      · rename_i hle
        rw [ih]
        refine ⟨fun hp => .cons ?_ hp, List.Pairwise.of_cons⟩
        rintro g (_ | ⟨_, hg⟩)
        · omega
        · have hf : f.span.start ≤ f.span.stop := h f (.tail _ List.mem_cons_self)
          have hfg := List.rel_of_pairwise_cons hp hg
          omega

theorem overlap?_sort_eq_none_iff {es : List Edit} (h : ∀ e ∈ es, e.Forward) :
    overlap? (sort es) = none ↔ es.Pairwise Apart := by
  have hs : ∀ e ∈ sort es, e.Forward := fun e he => h e ((sort_perm es).mem_iff.mp he)
  rw [overlap?_eq_none_iff hs, ← (sort_perm es).pairwise_iff Apart.symm]
  constructor
  · exact fun hp => hp.imp .inl
  · intro hp
    refine (hp.and (sort_pairwise es)).imp_of_mem fun _ hf h => ?_
    exact (apart_iff (hs _ hf) h.2).mp h.1

end Edit

namespace Change

/-- A change can be finished if no two of its edits reach into each other. -/
theorem finishes_iff {c : Change} (h : ∀ e ∈ c.edits, e.Forward) :
    (∃ d, c.finish = .ok d) ↔ c.edits.Pairwise Edit.Apart := by
  rw [← Edit.overlap?_sort_eq_none_iff h]
  simp only [finish]
  cases Edit.overlap? (Edit.sort c.edits) with
  | none => exact ⟨fun _ => rfl, fun _ => ⟨_, rfl⟩⟩
  | some spans => exact ⟨nofun, nofun⟩

end Change

namespace Changeset

/-- The edits that a changeset has of the file of a path. -/
def editsAt (c : Changeset) (path : Path) : List Edit :=
  match c.files.find? (·.path == path) with
  | some d => d.change.edits
  | none => []

@[simp] theorem editsAt_empty (path : Path) : empty.editsAt path = [] := rfl

theorem find?_path {files : List DocumentEdits} (hd : (files.map (·.path)).Nodup)
    (h : d ∈ files) : files.find? (·.path == d.path) = some d := by
  induction files with
  | nil => cases h
  | cons f files ih =>
    obtain ⟨hf, hd⟩ := List.nodup_cons.mp hd
    rcases List.mem_cons.mp h with rfl | h
    · exact List.find?_cons_of_pos (beq_self_eq_true _)
    · rw [List.find?_cons_of_neg, ih hd h]
      intro he
      exact hf (List.mem_map.mpr ⟨d, h, (beq_iff_eq.mp he).symm⟩)

theorem editsAt_of_mem {c : Changeset} (h : d ∈ c.files) : c.editsAt d.path = d.change.edits := by
  rw [editsAt, find?_path c.distinct h]

theorem editsAt_edit [TextHash] {f : Change → Change}
    (hf : ∀ change, (f change).edits = change.edits ++ es) (c : Changeset) (name : String)
    (state : Document) (path : Path) :
    (c.edit name state f).editsAt path =
      c.editsAt path ++ if Path.ofString name = path then es else [] := by
  simp only [edit]
  split
  · rename_i h
    simp only [editsAt, List.find?_map, Function.comp_def, editAt_path]
    cases hd : c.files.find? (·.path == path) with
    | none =>
      obtain ⟨g, hg, hname⟩ := List.any_eq_true.mp h
      rw [if_neg]
      · rfl
      · rintro rfl
        exact List.find?_eq_none.mp hd g hg hname
    | some d =>
      have hpath : d.path = path := by simpa using List.find?_some hd
      simp only [Option.map_some, editAt, beq_iff_eq, hpath, eq_comm (a := path)]
      split
      · exact hf _
      · exact (List.append_nil _).symm
  · rename_i h
    simp only [editsAt, List.find?_append]
    cases hd : c.files.find? (·.path == path) with
    | some d =>
      have hpath := List.find?_some hd
      rw [if_neg]
      · exact (List.append_nil _).symm
      · rintro rfl
        exact h (List.any_eq_true.mpr ⟨d, List.mem_of_find?_eq_some hd, hpath⟩)
    | none =>
      simp only [Option.none_or, List.find?_singleton, DocumentEdits.path, beq_iff_eq]
      by_cases hname : Path.ofString name = path
      · simp only [hname, if_true]
        exact hf .empty
      · simp only [hname, if_false, List.append_nil]

theorem editsAt_edit_add [TextHash] (c : Changeset) (name : String) (state : Document) (e : Edit)
    (path : Path) :
    (c.edit name state (·.add e)).editsAt path =
      c.editsAt path ++ if Path.ofString name = path then [e] else [] :=
  editsAt_edit (fun _ => rfl) c name state path

theorem finishFiles_ok_iff (fs : List DocumentEdits) :
    (∃ gs, finishFiles fs = .ok gs) ↔ ∀ f ∈ fs, ∃ d, f.change.finish = .ok d := by
  induction fs with
  | nil => exact ⟨fun _ _ hf => absurd hf List.not_mem_nil, fun _ => ⟨[], rfl⟩⟩
  | cons f fs ih =>
    rw [List.forall_mem_cons, ← ih, finishFiles]
    cases f.change.finish with
    | error e =>
      constructor
      · rintro ⟨gs, h⟩
        cases h
      · rintro ⟨⟨d, h⟩, -⟩
        cases h
    | ok d =>
      cases finishFiles fs with
      | error e =>
        constructor
        · rintro ⟨gs, h⟩
          cases h
        · rintro ⟨-, gs, h⟩
          cases h
      | ok gs => exact ⟨fun _ => ⟨⟨d, rfl⟩, gs, rfl⟩, fun _ => ⟨_, rfl⟩⟩

theorem finish_ok_iff (c : Changeset) :
    (∃ d, c.finish = .ok d) ↔ ∃ gs, finishFiles c.files = .ok gs := by
  unfold finish
  split
  · rename_i h
    rw [h]
    constructor <;>
    · rintro ⟨_, h⟩
      cases h
  · rename_i h
    exact ⟨fun _ => ⟨_, h⟩, fun _ => ⟨_, rfl⟩⟩

/-- A changeset can be finished if no two edits of one file reach into each other. -/
theorem finishes_iff {c : Changeset} (h : ∀ path, ∀ e ∈ c.editsAt path, e.Forward) :
    (∃ d, c.finish = .ok d) ↔ ∀ path, (c.editsAt path).Pairwise Edit.Apart := by
  rw [finish_ok_iff, finishFiles_ok_iff]
  have hf : ∀ f ∈ c.files, ∀ e ∈ f.change.edits, e.Forward := by
    intro f hf
    rw [← editsAt_of_mem hf]
    exact h f.path
  constructor
  · intro hc path
    cases hd : c.files.find? (·.path == path) with
    | none =>
      rw [editsAt, hd]
      exact .nil
    | some d =>
      have hmem := List.mem_of_find?_eq_some hd
      rw [editsAt, hd]
      exact (Change.finishes_iff (hf d hmem)).mp (hc d hmem)
  · intro hc f hmem
    rw [Change.finishes_iff (hf f hmem), ← editsAt_of_mem hmem]
    exact hc f.path

end Changeset

end CppRefactor
