import CppRefactor.Text.Bytes
import Mathlib.Data.Option.Basic

/-!
Slices between boundaries of a text: neighbours join to one slice. Pieces between separators: there
is one more than separators, which they do not have in them.
-/

namespace CppRefactor.Text

/-- The bytes that characters take. -/
def bytes : List Char → Nat
  | [] => 0
  | c :: cs => c.utf8Size + bytes cs

@[simp] theorem bytes_nil : bytes [] = 0 := rfl

@[simp] theorem bytes_cons (c : Char) (cs : List Char) :
    bytes (c :: cs) = c.utf8Size + bytes cs := rfl

@[simp] theorem bytes_append (cs ds : List Char) : bytes (cs ++ ds) = bytes cs + bytes ds := by
  induction cs with
  | nil => exact (Nat.zero_add _).symm
  | cons c cs ih => rw [List.cons_append, bytes_cons, bytes_cons, ih, Nat.add_assoc]

theorem bytes_toList (s : String) : bytes s.toList = s.utf8ByteSize := by
  have h (cs : List Char) : bytes cs = (String.ofList cs).utf8ByteSize := by
    induction cs with
    | nil => rfl
    | cons c cs ih => simp [ih]
  rw [h, String.ofList_toList]

theorem cut?_append (before after : List Char) :
    cut? (bytes before) (before ++ after) = some (before, after) := by
  induction before with
  | nil => cases after <;> rfl
  | cons c before ih =>
    have hc := c.utf8Size_pos
    obtain ⟨n, hn⟩ : ∃ n, bytes (c :: before) = n + 1 := ⟨bytes (c :: before) - 1, by simp; omega⟩
    have hrest : n + 1 - c.utf8Size = bytes before := by simp at hn; omega
    have hle : c.utf8Size ≤ n + 1 := by simp at hn; omega
    rw [hn, List.cons_append, cut?, if_pos hle, hrest, ih]
    rfl

theorem bytes_of_cut? {n : Nat} {cs before after : List Char}
    (h : cut? n cs = some (before, after)) : bytes before = n := by
  induction cs generalizing n before after with
  | nil => cases n <;> simp_all [cut?]
  | cons c cs ih =>
    cases n with
    | zero => simp_all [cut?]
    | succ n =>
      simp only [cut?] at h
      split at h
      · obtain ⟨⟨b, a⟩, hc, h⟩ := Option.map_eq_some_iff.1 h
        cases h
        rw [bytes_cons, ih hc]
        omega
      · cases h

theorem isBoundary_iff : isBoundary s a = true ↔ ∃ before after,
    s.toList = before ++ after ∧ bytes before = a := by
  rw [isBoundary, Option.isSome_iff_exists]
  constructor
  · rintro ⟨⟨before, after⟩, h⟩
    exact ⟨before, after, (append_of_cut? h).symm, bytes_of_cut? h⟩
  · rintro ⟨before, after, h, rfl⟩
    rw [h]
    exact ⟨_, cut?_append before after⟩

theorem eq_nil_of_bytes (h : bytes cs = 0) : cs = [] := by
  cases cs with
  | nil => rfl
  | cons c cs =>
    have hc := c.utf8Size_pos
    rw [bytes_cons] at h
    omega

/-- Of two beginnings of a text the longer one goes on from the shorter one. -/
theorem exists_append_of_bytes_le {before after before' after' : List Char}
    (h : before ++ after = before' ++ after') (hle : bytes before ≤ bytes before') :
    ∃ middle, before' = before ++ middle := by
  rcases List.append_eq_append_iff.mp h with ⟨middle, hm, -⟩ | ⟨middle, hm, -⟩
  · exact ⟨middle, hm⟩
  · have hz : middle = [] := by
      apply eq_nil_of_bytes
      rw [hm, bytes_append] at hle
      omega
    exact ⟨[], by rw [hm, hz, List.append_nil, List.append_nil]⟩

theorem slice_eq {before middle after : List Char} (h : s.toList = before ++ middle ++ after) :
    slice s ⟨bytes before, bytes before + bytes middle⟩ = .ofList middle := by
  have hlength : Span.length ⟨bytes before, bytes before + bytes middle⟩ = bytes middle :=
    Nat.add_sub_cancel_left ..
  have hcut : cut? (bytes before) s.toList = some (before, middle ++ after) := by
    rw [h, List.append_assoc, cut?_append]
  rw [slice, slice?, guard, if_pos (Nat.le_add_right ..)]
  simp [hcut, hlength, cut?_append]

@[simp] theorem slice_point (s : String) (o : Nat) : slice s (.point o) = "" := by
  have hlength : Span.length ⟨o, o⟩ = 0 := Nat.sub_self o
  have hzero (cs : List Char) : cut? 0 cs = some ([], cs) := cut?_append [] cs
  rw [slice, slice?, Span.point, guard, if_pos (Nat.le_refl o), hlength]
  cases cut? o s.toList with
  | none => rfl
  | some parts => simp [hzero]

theorem exists_parts (ha : isBoundary s a = true) (hb : isBoundary s b = true) (hab : a ≤ b) :
    ∃ before middle after, s.toList = before ++ middle ++ after ∧
      bytes before = a ∧ bytes before + bytes middle = b := by
  obtain ⟨before, after, h, rfl⟩ := isBoundary_iff.mp ha
  obtain ⟨before', after', h', rfl⟩ := isBoundary_iff.mp hb
  obtain ⟨middle, rfl⟩ := exists_append_of_bytes_le (h.symm.trans h') hab
  exact ⟨before, middle, after', h', rfl, (bytes_append _ _).symm⟩

theorem slice_append (ha : isBoundary s a = true) (hb : isBoundary s b = true)
    (hc : isBoundary s c = true) (hab : a ≤ b) (hbc : b ≤ c) :
    slice s ⟨a, b⟩ ++ slice s ⟨b, c⟩ = slice s ⟨a, c⟩ := by
  obtain ⟨before, left, rest, h, rfl, rfl⟩ := exists_parts ha hb hab
  obtain ⟨before', after, h', rfl⟩ := isBoundary_iff.mp hc
  rw [← bytes_append] at hbc
  obtain ⟨right, rfl⟩ := exists_append_of_bytes_le (h.symm.trans h') hbc
  have hleft : s.toList = before ++ left ++ (right ++ after) := by
    rw [h', List.append_assoc]
  have hright : s.toList = (before ++ left) ++ right ++ after := h'
  have hboth : s.toList = before ++ (left ++ right) ++ after := by
    rw [h', ← List.append_assoc]
  rw [slice_eq hleft, ← bytes_append, bytes_append (before ++ left), slice_eq hright, bytes_append,
    Nat.add_assoc, ← bytes_append, slice_eq hboth, String.ofList_append]

theorem slice_ne_empty (ha : isBoundary s a = true) (hb : isBoundary s b = true) (hab : a < b) :
    slice s ⟨a, b⟩ ≠ "" := by
  obtain ⟨before, middle, after, h, rfl, rfl⟩ := exists_parts ha hb (Nat.le_of_lt hab)
  rw [slice_eq h]
  intro hempty
  have hmiddle : middle = [] := by simpa using congrArg String.toList hempty
  simp [hmiddle] at hab

theorem infix_slice (ha : isBoundary s a = true) (hb : isBoundary s b = true)
    (hc : isBoundary s c = true) (hd : isBoundary s d = true) (hab : a ≤ b) (hbc : b ≤ c)
    (hcd : c ≤ d) : (slice s ⟨b, c⟩).toList <:+: (slice s ⟨a, d⟩).toList := by
  rw [← slice_append ha hb hd hab (Nat.le_trans hbc hcd), ← slice_append hb hc hd hbc hcd,
    String.toList_append, String.toList_append, ← List.append_assoc]
  exact List.infix_append ..

theorem notMem_of_mem_splitOn [BEq α] [LawfulBEq α] {a : α} {l piece : List α}
    (h : piece ∈ l.splitOn a) : a ∉ piece := by
  induction l generalizing piece with
  | nil =>
    rw [List.mem_singleton.mp h]
    exact List.not_mem_nil
  | cons b l ih =>
    obtain ⟨first, rest, hl⟩ := List.exists_cons_of_ne_nil (List.splitOn_ne_nil a l)
    rw [List.splitOn_cons_eq_if_modifyHead, hl] at h
    rw [hl] at ih
    split at h
    · rcases List.mem_cons.mp h with rfl | h
      · exact List.not_mem_nil
      · exact ih h
    · rename_i hb
      rcases List.mem_cons.mp h with rfl | h
      · rw [List.mem_cons, not_or]
        exact ⟨fun hab => hb (beq_iff_eq.mpr hab.symm), ih List.mem_cons_self⟩
      · exact ih (List.mem_cons_of_mem _ h)

theorem length_splitOn [BEq α] [LawfulBEq α] (a : α) (l : List α) :
    (l.splitOn a).length = l.count a + 1 := by
  induction l with
  | nil => rfl
  | cons b l ih =>
    rw [List.splitOn_cons_eq_if_modifyHead, List.count_cons]
    split
    · rw [List.length_cons, ih]
    · rw [List.length_modifyHead, ih]

end CppRefactor.Text
