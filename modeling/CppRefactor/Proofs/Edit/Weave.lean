import CppRefactor.Proofs.Edit.Order
import CppRefactor.Proofs.Edit.Splice

/-!
What a change makes of the bytes of a text: the pieces between its edits with the insertions between
them, in the order of the edits. It can be made if no two edits overlap and all are between
characters.
-/

namespace CppRefactor

namespace Text

/-- The bytes of a text. -/
def octets (s : String) : List UInt8 := s.toByteArray.data.toList

/-- The bytes of characters. -/
def encode (cs : List Char) : List UInt8 := cs.flatMap String.utf8EncodeChar

theorem octets_eq (s : String) : octets s = encode s.toList := by
  rw [octets, ← String.utf8Encode_toList, List.utf8Encode, List.data_toByteArray, encode]

theorem octets_injective (h : octets s = octets s') : s = s' := by
  apply String.toByteArray_inj.mp
  apply ByteArray.ext
  exact Array.toList_inj.mp h

@[simp] theorem encode_append (cs ds : List Char) : encode (cs ++ ds) = encode cs ++ encode ds :=
  List.flatMap_append

@[simp] theorem length_encode (cs : List Char) : (encode cs).length = bytes cs := by
  induction cs with
  | nil => rfl
  | cons c cs ih => rw [encode, List.flatMap_cons, List.length_append, ← encode, ih,
      String.length_utf8EncodeChar, bytes_cons]

@[simp] theorem length_octets (s : String) : (octets s).length = s.utf8ByteSize := by
  rw [octets_eq, length_encode, bytes_toList]

/-- The bytes between two offsets. -/
def piece (text : List UInt8) (start stop : Nat) : List UInt8 := (text.take stop).drop start

theorem piece_zero (text : List UInt8) (stop : Nat) : piece text 0 stop = text.take stop := rfl

theorem piece_length (text : List UInt8) (start : Nat) :
    piece text start text.length = text.drop start := by
  rw [piece, List.take_length]

@[simp] theorem piece_self (text : List UInt8) (o : Nat) : piece text o o = [] :=
  List.drop_eq_nil_of_le (List.length_take_le o text)

theorem length_piece (start : Nat) (h : stop ≤ text.length) :
    (piece text start stop).length = stop - start := by
  rw [piece, List.length_drop, List.length_take_of_le h]

theorem piece_append (text : List UInt8) (hab : a ≤ b) (hbc : b ≤ c) :
    piece text a b ++ piece text b c = piece text a c := by
  have hlength : c - a = b - a + (c - b) := by omega
  have hb : b = a + (b - a) := by omega
  simp only [piece, List.drop_take]
  rw [hlength, List.take_add, List.drop_drop, ← hb]

end Text

namespace Edit

/-- The bytes from `start` to `stop` with sorted edits made in them. -/
def weave (text : List UInt8) (start stop : Nat) : List Edit → List UInt8
  | [] => Text.piece text start stop
  | e :: es =>
    Text.piece text start e.span.start ++ Text.octets e.insert ++ weave text e.span.stop stop es

/-- One edit made in bytes. -/
def replaceIn (e : Edit) (text : List UInt8) : List UInt8 :=
  text.take e.span.start ++ Text.octets e.insert ++ text.drop e.span.stop

/-- An edit is in the text and splits no character of it. -/
def Fits (e : Edit) (text : String) : Prop :=
  e.span.stop ≤ text.utf8ByteSize ∧ Text.isBoundary text e.span.start = true ∧
    Text.isBoundary text e.span.stop = true

/-- The one of two edits that is made first ends behind the start of the other one. -/
def Overlaps (e f : Edit) : Prop :=
  if e.notAfter f = true then f.span.start < e.span.stop else e.span.start < f.span.stop

theorem overlaps_iff {e f : Edit} (he : e.Forward) (hf : f.Forward) :
    e.Overlaps f ↔ ¬ e.Apart f := by
  unfold Overlaps
  split
  · rename_i h
    rw [apart_iff hf h, Nat.not_le]
  · rename_i h
    rw [← Nat.not_le, ← apart_iff he (notAfter_of_not h)]
    exact not_congr ⟨Apart.symm, Apart.symm⟩

/-- Edits that follow each other from an offset on. -/
structure Follows (start : Nat) (es : List Edit) : Prop where
  forward : ∀ e ∈ es, e.Forward
  apart : es.Pairwise fun e f => e.span.stop ≤ f.span.start
  first : ∀ e ∈ es, start ≤ e.span.start

theorem Follows.cons (h : Follows start (e :: es)) :
    start ≤ e.span.start ∧ e.span.start ≤ e.span.stop ∧ Follows e.span.stop es := by
  obtain ⟨hbehind, hapart⟩ := List.pairwise_cons.mp h.apart
  exact ⟨h.first e List.mem_cons_self, h.forward e List.mem_cons_self,
    fun f hf => h.forward f (.tail _ hf), hapart, hbehind⟩

theorem encode_splice (before : List Char)
    (hs : splice length (Text.bytes before) cs es = .ok out)
    (hf : Follows (Text.bytes before) es) :
    Text.encode out =
      weave (Text.encode (before ++ cs)) (Text.bytes before) (Text.bytes (before ++ cs)) es := by
  induction es generalizing before cs out with
  | nil =>
    cases hs
    rw [weave, ← Text.length_encode (before ++ _), Text.piece_length, Text.encode_append,
      List.drop_left' (Text.length_encode before)]
  | cons e es ih =>
    obtain ⟨kept, removed, rest, tail, rfl, hkept, hremoved, htail, rfl⟩ := splice_cons_ok hs
    obtain ⟨hstart, hforward, hf⟩ := hf.cons
    have hat : Text.bytes (before ++ kept) = e.span.start := by
      rw [Text.bytes_append]
      omega
    have hbehind : Text.bytes (before ++ kept ++ removed) = e.span.stop := by
      rw [Text.bytes_append, hat, hremoved, Span.length]
      omega
    have hwhole : before ++ (kept ++ removed ++ rest) = before ++ kept ++ removed ++ rest := by
      simp only [List.append_assoc]
    rw [← hbehind] at htail hf
    have hpiece : Text.piece (Text.encode (before ++ kept ++ removed ++ rest))
        (Text.bytes before) e.span.start = Text.encode kept := by
      rw [Text.piece, List.append_assoc (before ++ kept), Text.encode_append (before ++ kept),
        List.take_left' (by rw [Text.length_encode, hat]), Text.encode_append,
        List.drop_left' (Text.length_encode before)]
    rw [hwhole, weave, hpiece, ← hbehind, ← ih _ htail hf, Text.encode_append, Text.encode_append,
      Text.octets_eq]

theorem Fits.exists_parts {e : Edit} (h : e.Fits text) (he : e.Forward)
    (ht : text.toList = before ++ cs) (hstart : Text.bytes before ≤ e.span.start) :
    ∃ kept removed rest, cs = kept ++ (removed ++ rest) ∧
      Text.bytes before + Text.bytes kept = e.span.start ∧
        Text.bytes removed = e.span.length := by
  obtain ⟨b, removed, rest, hparts, hb, hremoved⟩ := Text.exists_parts h.2.1 h.2.2 he
  obtain ⟨kept, rfl⟩ := Text.exists_append_of_bytes_le
    (ht.symm.trans (hparts.trans (List.append_assoc b removed rest))) (hb ▸ hstart)
  refine ⟨kept, removed, rest, ?_, by rw [← Text.bytes_append, hb], ?_⟩
  · rw [ht, List.append_assoc, List.append_assoc] at hparts
    exact List.append_cancel_left hparts
  · rw [Span.length]
    omega

theorem splice_parts (kept removed rest : List Char)
    (hkept : offset + Text.bytes kept = e.span.start)
    (hremoved : Text.bytes removed = e.span.length) :
    splice length offset (kept ++ (removed ++ rest)) (e :: es) =
      (splice length e.span.stop rest es).map (kept ++ e.insert.toList ++ ·) := by
  have hcut : e.span.start - offset = Text.bytes kept := by omega
  rw [splice, hcut, Text.cut?_append]
  dsimp only
  rw [← hremoved, Text.cut?_append]
  dsimp only
  cases splice length e.span.stop rest es <;> rfl

theorem Fits.of_parts {e : Edit} (ht : text.toList = before ++ kept ++ removed ++ rest)
    (hstart : Text.bytes (before ++ kept) = e.span.start)
    (hstop : Text.bytes (before ++ kept ++ removed) = e.span.stop) : e.Fits text := by
  refine ⟨?_, Text.isBoundary_iff.mpr ⟨_, removed ++ rest, ?_, hstart⟩,
    Text.isBoundary_iff.mpr ⟨_, rest, ht, hstop⟩⟩
  · rw [← hstop, ← Text.bytes_toList, ht, Text.bytes_append _ rest]
    exact Nat.le_add_right _ _
  · rw [ht, List.append_assoc _ removed]

theorem splice_ok_iff (before : List Char) (ht : text.toList = before ++ cs)
    (hf : Follows (Text.bytes before) es) :
    (∃ out, splice length (Text.bytes before) cs es = .ok out) ↔ ∀ e ∈ es, e.Fits text := by
  induction es generalizing before cs with
  | nil => exact ⟨fun _ => nofun, fun _ => ⟨cs, rfl⟩⟩
  | cons e es ih =>
    obtain ⟨hstart, hforward, hf⟩ := hf.cons
    -- The edit cuts the rest in three, and the edits behind it are carried out on the third part.
    have hbehind {kept removed rest : List Char} (hcs : cs = kept ++ (removed ++ rest))
        (hkept : Text.bytes before + Text.bytes kept = e.span.start)
        (hremoved : Text.bytes removed = e.span.length) : e.Fits text ∧
          ((∃ tail, splice length e.span.stop rest es = .ok tail) ↔ ∀ f ∈ es, f.Fits text) := by
      have ht' : text.toList = before ++ kept ++ removed ++ rest := by
        rw [ht, hcs]
        simp only [List.append_assoc]
      have hat : Text.bytes (before ++ kept) = e.span.start := by rw [Text.bytes_append, hkept]
      have hstop : Text.bytes (before ++ kept ++ removed) = e.span.stop := by
        rw [Text.bytes_append, hat, hremoved, Span.length]
        omega
      rw [← hstop] at hf ⊢
      exact ⟨.of_parts ht' hat hstop, ih _ ht' hf⟩
    rw [List.forall_mem_cons]
    constructor
    · rintro ⟨out, hs⟩
      obtain ⟨kept, removed, rest, tail, hcs, hkept, hremoved, htail, -⟩ := splice_cons_ok hs
      rw [List.append_assoc] at hcs
      obtain ⟨he, hrest⟩ := hbehind hcs (by omega) hremoved
      exact ⟨he, hrest.mp ⟨tail, htail⟩⟩
    · rintro ⟨he, hfits⟩
      obtain ⟨kept, removed, rest, hcs, hkept, hremoved⟩ := he.exists_parts hforward ht hstart
      obtain ⟨tail, htail⟩ := (hbehind hcs hkept hremoved).2.mpr hfits
      rw [hcs, splice_parts kept removed rest hkept hremoved, htail]
      exact ⟨_, rfl⟩

theorem foldr_replaceIn (hf : Follows start es) (hl : ∀ e ∈ es, e.span.stop ≤ text.length)
    (hstart : start ≤ text.length) :
    es.foldr replaceIn text = Text.piece text 0 start ++ weave text start text.length es := by
  induction es generalizing start with
  | nil => rw [List.foldr_nil, weave, Text.piece_append text (Nat.zero_le start) hstart,
      Text.piece_length, List.drop_zero]
  | cons e es ih =>
    obtain ⟨hfirst, hforward, hf⟩ := hf.cons
    obtain ⟨he, hl⟩ := List.forall_mem_cons.mp hl
    have hlength : (Text.piece text 0 e.span.stop).length = e.span.stop := Text.length_piece 0 he
    have hfront : (Text.piece text 0 e.span.stop).take e.span.start =
        Text.piece text 0 start ++ Text.piece text start e.span.start := by
      rw [Text.piece_append text (Nat.zero_le start) hfirst, Text.piece_zero, Text.piece_zero,
        List.take_take, Nat.min_eq_left hforward]
    rw [List.foldr_cons, ih hf hl he, replaceIn, List.drop_left' hlength,
      List.take_append_of_le_length (hlength.symm ▸ hforward), hfront, weave]
    simp only [List.append_assoc]

end Edit

namespace Change

open Edit

/-- Two edits of a change overlap. -/
def Overlapping (c : Change) : Prop := ∃ e f, [e, f].Sublist c.edits ∧ e.Overlaps f

theorem not_overlapping_iff {c : Change} (h : ∀ e ∈ c.edits, e.Forward) :
    ¬ c.Overlapping ↔ c.edits.Pairwise Apart := by
  rw [List.pairwise_iff_forall_sublist]
  constructor
  · intro hn e f hs
    have he := h e (hs.subset List.mem_cons_self)
    have hf := h f (hs.subset (.tail _ List.mem_cons_self))
    by_contra ha
    exact hn ⟨e, f, hs, (overlaps_iff he hf).mpr ha⟩
  · rintro hp ⟨e, f, hs, ho⟩
    have he := h e (hs.subset List.mem_cons_self)
    have hf := h f (hs.subset (.tail _ List.mem_cons_self))
    exact (overlaps_iff he hf).mp ho (hp hs)

theorem overlap?_sort_iff {c : Change} (h : ∀ e ∈ c.edits, e.Forward) :
    overlap? (sort c.edits) = none ↔ ¬ c.Overlapping := by
  rw [overlap?_sort_eq_none_iff h, not_overlapping_iff h]

theorem finish_of_not_overlapping {c : Change} (h : ∀ e ∈ c.edits, e.Forward)
    (hn : ¬ c.Overlapping) : c.finish = .ok ⟨sort c.edits⟩ := by
  rw [finish, (overlap?_sort_iff h).mpr hn]

theorem finish_error_iff {c : Change} (h : ∀ e ∈ c.edits, e.Forward) :
    (∃ first second, c.finish = .error (.overlap first second)) ↔ c.Overlapping := by
  constructor
  · rintro ⟨first, second, he⟩
    by_contra hn
    rw [finish_of_not_overlapping h hn] at he
    cases he
  · intro ho
    rw [finish]
    cases hover : overlap? (sort c.edits) with
    | none => exact absurd ho ((overlap?_sort_iff h).mp hover)
    | some spans => exact ⟨spans.1, spans.2, rfl⟩

theorem finish_ok_iff {c : Change} (h : ∀ e ∈ c.edits, e.Forward) :
    c.finish = .ok ⟨sort c.edits⟩ ↔ ¬ c.Overlapping := by
  refine ⟨fun hok ho => ?_, finish_of_not_overlapping h⟩
  obtain ⟨first, second, he⟩ := (finish_error_iff h).mpr ho
  rw [hok] at he
  cases he

theorem follows_sort {c : Change} (h : ∀ e ∈ c.edits, e.Forward) (hn : ¬ c.Overlapping) :
    Follows 0 (sort c.edits) := by
  have hs : ∀ e ∈ sort c.edits, e.Forward := fun e he => h e ((sort_perm _).mem_iff.mp he)
  exact ⟨hs, (overlap?_eq_none_iff hs).mp ((overlap?_sort_iff h).mpr hn), fun _ _ => Nat.zero_le _⟩

theorem splice_sort_ok_iff {c : Change} (h : ∀ e ∈ c.edits, e.Forward) (hn : ¬ c.Overlapping) :
    (∃ out, splice text.utf8ByteSize 0 text.toList (sort c.edits) = .ok out) ↔
      ∀ e ∈ c.edits, e.Fits text := by
  have hmem (e : Edit) : e ∈ sort c.edits ↔ e ∈ c.edits := (sort_perm _).mem_iff
  simp only [← hmem]
  exact splice_ok_iff [] rfl (follows_sort h hn)

theorem octets_splice {c : Change} (h : ∀ e ∈ c.edits, e.Forward) (hn : ¬ c.Overlapping)
    (hs : splice text.utf8ByteSize 0 text.toList (sort c.edits) = .ok out) :
    Text.encode out = weave (Text.octets text) 0 text.utf8ByteSize (sort c.edits) := by
  rw [Text.octets_eq, ← Text.bytes_toList]
  exact encode_splice [] hs (follows_sort h hn)

/-- A change can be made if no two edits overlap and all fit, and then weaves them into the text. -/
theorem apply_ok_iff {c : Change} (h : ∀ e ∈ c.edits, e.Forward) :
    c.apply text = .ok new ↔ ¬ c.Overlapping ∧ (∀ e ∈ c.edits, e.Fits text) ∧
      Text.octets new = weave (Text.octets text) 0 text.utf8ByteSize (sort c.edits) := by
  constructor
  · intro happly
    obtain ⟨hover, hs⟩ := of_apply_ok happly
    have hn := (overlap?_sort_iff h).mp hover
    exact ⟨hn, (splice_sort_ok_iff h hn).mp ⟨_, hs⟩, Text.octets_eq new ▸ octets_splice h hn hs⟩
  · rintro ⟨hn, hfits, hnew⟩
    obtain ⟨out, hs⟩ := (splice_sort_ok_iff h hn).mpr hfits
    have hout : String.ofList out = new := by
      apply Text.octets_injective
      rw [Text.octets_eq, String.toList_ofList, octets_splice h hn hs, hnew]
    rw [apply, finish_of_not_overlapping h hn]
    change (splice _ _ _ _ >>= _) = _
    rw [hs, ← hout]
    rfl

theorem octets_backwards {c : Change} (h : ∀ e ∈ c.edits, e.Forward)
    (happly : c.apply text = .ok new) :
    Text.octets new = (sort c.edits).foldr replaceIn (Text.octets text) := by
  obtain ⟨hn, hfits, hnew⟩ := (apply_ok_iff h).mp happly
  have hlast : ∀ e ∈ sort c.edits, e.span.stop ≤ (Text.octets text).length := fun e he =>
    Text.length_octets text ▸ (hfits e ((sort_perm _).mem_iff.mp he)).1
  rw [foldr_replaceIn (follows_sort h hn) hlast (Nat.zero_le _), Text.piece_self, List.nil_append,
    Text.length_octets, hnew]

theorem eq_of_sort_eq {c d : Change} (h : sort c.edits = sort d.edits) :
    c.finish = d.finish ∧ ∀ text, c.apply text = d.apply text := by
  have hfinish : c.finish = d.finish := by simp only [finish, h]
  exact ⟨hfinish, fun text => by rw [apply, apply, hfinish]⟩

theorem of_finish_ok {c d : Change} (hd : c.finish = .ok d) :
    d.finish = .ok d ∧ ∀ text, d.apply text = c.apply text := by
  have hsorted : d.edits = sort c.edits := by
    rw [finish] at hd
    split at hd
    · cases hd
    · cases hd
      rfl
  obtain ⟨hfinish, happly⟩ := eq_of_sort_eq (c := d) (d := c) (by rw [hsorted, sort_sort])
  exact ⟨hfinish.trans hd, happly⟩

/-- What a change does. It cannot be finished just if two of its edits overlap. It can be made of a
text if no two overlap and all fit into the text. The new text then is woven from the pieces between
the edits and what they insert, by start, then by end, then as they were added, which is also what
making them one by one from the last to the first gives. A finished change does the same and is
finished already, and the order in which edits of different spans were added does not matter. -/
theorem makes_edits (c : Change) (h : ∀ e ∈ c.edits, e.Forward) :
    ((∃ first second, c.finish = .error (.overlap first second)) ↔ c.Overlapping) ∧
    (∃ sorted, Ordered c.edits sorted ∧
      (c.finish = .ok ⟨sorted⟩ ↔ ¬ c.Overlapping) ∧
      ∀ text new, (c.apply text = .ok new ↔ ¬ c.Overlapping ∧ (∀ e ∈ c.edits, e.Fits text) ∧
          Text.octets new = weave (Text.octets text) 0 text.utf8ByteSize sorted) ∧
        (c.apply text = .ok new → Text.octets new = sorted.foldr replaceIn (Text.octets text))) ∧
    (∀ d, c.finish = .ok d → d.finish = .ok d ∧ ∀ text, d.apply text = c.apply text) ∧
    ∀ d : Change, d.edits.Perm c.edits →
      (∀ span, d.edits.filter (·.span == span) = c.edits.filter (·.span == span)) →
        d.finish = c.finish ∧ ∀ text, d.apply text = c.apply text := by
  refine ⟨finish_error_iff h, ⟨sort c.edits, sort_ordered _, finish_ok_iff h, fun text new => ?_⟩,
    fun d => of_finish_ok, fun d _ hspans => ?_⟩
  · exact ⟨apply_ok_iff h, octets_backwards h⟩
  · exact eq_of_sort_eq ((sort_ordered _).eq (sort_ordered _) hspans)

/-- An insertion and a replacement that start at one offset, added the other way round. -/
theorem makes_insertion_first :
    let c : Change := ⟨[⟨⟨1, 2⟩, "B"⟩, ⟨.point 1, "<"⟩]⟩
    (∀ e ∈ c.edits, e.Forward) ∧ ¬ c.Overlapping ∧ c.apply "abc" = .ok "a<Bc" ∧
      ∃ sorted, Ordered c.edits sorted ∧
        Text.octets "a<Bc" = weave (Text.octets "abc") 0 3 sorted := by
  intro c
  have h : ∀ e ∈ c.edits, e.Forward := by simp [c, Forward, Span.point]
  have happly : c.apply "abc" = .ok "a<Bc" := rfl
  obtain ⟨-, ⟨sorted, hsorted, -, hmade⟩, -⟩ := makes_edits c h
  obtain ⟨hn, -, hnew⟩ := (hmade "abc" "a<Bc").1.mp happly
  exact ⟨h, hn, happly, sorted, hsorted, hnew⟩

end Change

end CppRefactor
