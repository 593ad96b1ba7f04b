import CppRefactor.Proofs.Syntax.Directives
import CppRefactor.Proofs.Text.Blanks
import CppRefactor.Symbols.TypePath
import Mathlib.Data.List.Infix

/-!
A path that is written as text is read back from it. The separators of a path and of its arguments
stand outside brackets, and no segment begins or ends as what is passed over around a type.
-/

namespace CppRefactor

namespace Text

/-- Characters with no blank at either end. -/
structure IsTrimmed (cs : List Char) : Prop where
  front : ∀ c ∈ cs.head?, isBlank c = false
  back : ∀ c ∈ cs.getLast?, isBlank c = false

variable {c : Char} {cs : List Char} {p : Char → Bool}

theorem dropWhile_eq_self (h : ∀ c ∈ cs.head?, p c = false) :
    cs.dropWhile p = cs := by
  cases cs with
  | nil => rfl
  | cons c cs => exact List.dropWhile_cons_of_neg (by simp [h c rfl])

theorem dropLastWhile_eq_self (h : ∀ c ∈ cs.getLast?, p c = false) :
    dropLastWhile p cs = cs := by
  rw [dropLastWhile, dropWhile_eq_self (List.head?_reverse ▸ h), List.reverse_reverse]

theorem IsTrimmed.trimBack (h : IsTrimmed cs) : trimBack cs = cs := dropLastWhile_eq_self h.back

theorem IsTrimmed.trimChars (h : IsTrimmed cs) : trimChars cs = cs := by
  rw [Text.trimChars, trimFront, dropWhile_eq_self h.front, h.trimBack]

theorem isBlank_of_continuesIdentifier (h : continuesIdentifier c = true) :
    isBlank c = false := by
  have hcodes : ∀ n ∈ Lexer.blankCodes, continuesIdentifier (Char.ofNat n) = false := by
    decide +kernel
  rw [← Bool.not_eq_true]
  intro hblank
  have hc := hcodes _ (Lexer.mem_blankCodes hblank)
  rw [Char.ofNat_toNat, h] at hc
  cases hc

end Text

namespace TypePath

open Text (trimChars IsTrimmed continuesIdentifier startsIdentifier)

/-- By how much a character changes the number of open brackets. -/
def bracket (c : Char) : Int :=
  if c = '<' ∨ c = '(' then 1 else if c = '>' ∨ c = ')' then -1 else 0

/-- How many more angle and round brackets open than close. -/
def depth : List Char → Int
  | [] => 0
  | c :: cs => bracket c + depth cs

@[simp] theorem depth_nil : depth [] = 0 := rfl

@[simp] theorem depth_cons (c : Char) (cs : List Char) : depth (c :: cs) = bracket c + depth cs :=
  rfl

@[simp] theorem depth_append (cs ds : List Char) : depth (cs ++ ds) = depth cs + depth ds := by
  induction cs with
  | nil => simp
  | cons c cs ih => simp [ih, Int.add_assoc]

/-- A character stands nowhere outside brackets, `d` of which are open before. -/
def Hides (s : Char) (d : Int) (cs : List Char) : Prop :=
  ∀ front, front ++ [s] <+: cs → d + depth front ≠ 0

theorem Hides.tail (h : Hides s d (c :: cs)) : Hides s (d + bracket c) cs := by
  intro front hfront
  have hd := h (c :: front) (List.cons_prefix_cons.mpr ⟨rfl, hfront⟩)
  rwa [depth_cons, ← Int.add_assoc] at hd

theorem Hides.head (h : Hides s 0 (c :: cs)) : c ≠ s := by
  rintro rfl
  exact h [] (List.cons_prefix_cons.mpr ⟨rfl, List.nil_prefix⟩) rfl

theorem hides_of_notMem (h : s ∉ cs) (d : Int) : Hides s d cs :=
  fun _ hfront => absurd (hfront.subset (by simp)) h

theorem Hides.append (hcs : Hides s d cs) (hds : Hides s (d + depth cs) ds) :
    Hides s d (cs ++ ds) := by
  induction cs generalizing d with
  | nil => simpa using hds
  | cons c cs ih =>
    intro front hfront
    cases front with
    | nil =>
      have hc : s = c := (List.cons_prefix_cons.mp hfront).1
      exact hcs [] (List.cons_prefix_cons.mpr ⟨hc, List.nil_prefix⟩)
    | cons f front =>
      rw [List.cons_append, List.cons_append, List.cons_prefix_cons] at hfront
      obtain ⟨rfl, hfront⟩ := hfront
      rw [depth_cons, ← Int.add_assoc] at hds ⊢
      exact ih hcs.tail hds front hfront

theorem split_skip (separator current : List Char) (d : Int) (n : Nat) (cs : List Char) :
    split separator d n current cs = split separator d 0 current (cs.drop n) := by
  induction cs generalizing n with
  | nil => cases n <;> rfl
  | cons c cs ih =>
    cases n with
    | zero => rfl
    | succ n => exact ih n

theorem split_append (h : Hides s d cs) (sep current rest : List Char) :
    split (s :: sep) d 0 current (cs ++ rest) =
      split (s :: sep) (d + depth cs) 0 (cs.reverse ++ current) rest := by
  induction cs generalizing d current with
  | nil => simp
  | cons c cs ih =>
    have hrest := ih h.tail (c :: current)
    rw [List.cons_append, List.reverse_cons, List.append_assoc, depth_cons, ← Int.add_assoc,
      List.singleton_append, ← hrest, split]
    unfold bracket
    by_cases hopen : c = '<' ∨ c = '('
    · simp [hopen]
    · by_cases hclose : c = '>' ∨ c = ')'
      · simp [hopen, hclose, Int.sub_eq_add_neg]
      · have hnone : (decide (d = 0) && (s :: sep).isPrefixOf (c :: (cs ++ rest))) = false := by
          by_cases hd : d = 0
          · subst hd
            have hc := h.head.symm
            simp [List.isPrefixOf, hc]
          · simp [hd]
        simp [hopen, hclose, hnone]

theorem split_separator (hs : bracket s = 0) (sep current rest : List Char) :
    split (s :: sep) 0 0 current (s :: sep ++ rest) =
      current.reverse :: split (s :: sep) 0 0 [] rest := by
  have hopen : ¬(s = '<' ∨ s = '(') := by
    intro hopen
    simp [bracket, hopen] at hs
  have hclose : ¬(s = '>' ∨ s = ')') := by
    intro hclose
    simp [bracket, hopen, hclose] at hs
  have hprefix : (s :: sep).isPrefixOf (s :: (sep ++ rest)) = true :=
    List.isPrefixOf_iff_prefix.mpr (List.prefix_append (s :: sep) rest)
  rw [List.cons_append, split]
  simp [hopen, hclose, hprefix, split_skip _ _ _ sep.length]

theorem split_intercalate (hs : bracket s = 0) (sep : List Char) (hne : parts ≠ [])
    (h : ∀ part ∈ parts, Hides s 0 part ∧ depth part = 0) :
    split (s :: sep) 0 0 [] ((s :: sep).intercalate parts) = parts := by
  induction parts with
  | nil => exact absurd rfl hne
  | cons part parts ih =>
    obtain ⟨hhides, hdepth⟩ := h part List.mem_cons_self
    cases parts with
    | nil =>
      have hpart := split_append hhides sep [] []
      rw [List.append_nil, hdepth] at hpart
      simpa [split] using hpart
    | cons next parts =>
      have hrest := ih (List.cons_ne_nil _ _) fun p hp => h p (List.mem_cons_of_mem part hp)
      rw [List.intercalate_cons_cons, List.append_assoc, split_append hhides, hdepth, Int.add_zero,
        split_separator hs, hrest]
      simp

/-- What stands between the commas of arguments: it is trimmed and not empty, never closes a bracket
that it does not open, closes all it opens, and has commas between brackets only. -/
structure IsArgument (a : String) : Prop where
  ne_empty : a ≠ ""
  trimmed : Text.trim a = a
  nonneg : ∀ front, front <+: a.toList → 0 ≤ depth front
  closed : depth a.toList = 0
  comma : Hides ',' 0 a.toList

instance (a : String) : Decidable (IsArgument a) :=
  decidable_of_iff (a ≠ "" ∧ Text.trim a = a ∧ (∀ front ∈ a.toList.inits, 0 ≤ depth front) ∧
      depth a.toList = 0 ∧
      ∀ front ∈ a.toList.inits, front ++ [','] ∈ a.toList.inits → 0 + depth front ≠ 0) <| by
    constructor
    · rintro ⟨hne, htrim, hnonneg, hclosed, hcomma⟩
      refine ⟨hne, htrim, fun front h => hnonneg front ((List.mem_inits _ _).mpr h), hclosed,
        fun front h => ?_⟩
      have hfront := (List.prefix_append front [',']).trans h
      exact hcomma front ((List.mem_inits _ _).mpr hfront) ((List.mem_inits _ _).mpr h)
    · rintro ⟨hne, htrim, hnonneg, hclosed, hcomma⟩
      exact ⟨hne, htrim, fun front h => hnonneg front ((List.mem_inits _ _).mp h), hclosed,
        fun front _ h => hcomma front ((List.mem_inits _ _).mp h)⟩

structure IsSegment (s : PathSegment) : Prop where
  name : isIdentifier s.name.toList = true
  args : ∀ a ∈ s.args, IsArgument a

theorem isTrimmed_of_trim {a : String} (h : Text.trim a = a) : trimChars a.toList = a.toList := by
  rw [← String.toList_ofList (l := trimChars a.toList)]
  exact congrArg String.toList h

/-- What is between the angle brackets of arguments. -/
def inner (args : List String) : List Char := [',', ' '].intercalate (args.map String.toList)

theorem inner_cons (a : String) (args : List String) :
    inner (a :: args) = [','].intercalate (a.toList :: args.map (' ' :: ·.toList)) := by
  induction args generalizing a with
  | nil => rfl
  | cons b args ih =>
    have hb := ih b
    unfold inner at hb ⊢
    rw [List.map_cons, List.map_cons, List.map_cons, List.intercalate_cons_cons,
      List.intercalate_cons_cons, ← List.map_cons, hb]
    cases args with
    | nil => simp
    | cons c args => simp [List.intercalate_cons_cons]

theorem depth_inner (h : ∀ a ∈ args, IsArgument a) : depth (inner args) = 0 := by
  induction args with
  | nil => rfl
  | cons a args ih =>
    have ha := (h a List.mem_cons_self).closed
    have hrest := ih fun b hb => h b (List.mem_cons_of_mem a hb)
    unfold inner at hrest ⊢
    cases args with
    | nil => simpa using ha
    | cons b args =>
      rw [List.map_cons] at hrest ⊢
      rw [List.map_cons, List.intercalate_cons_cons, depth_append, depth_append, ha, hrest]
      rfl

theorem hides_inner (h : ∀ a ∈ args, IsArgument a) (s : Char) : Hides s 1 (inner args) := by
  have hides {cs : List Char} (hcs : ∀ front, front <+: cs → 0 ≤ depth front) : Hides s 1 cs := by
    intro front hfront
    have hdepth := hcs front ((List.prefix_append front [s]).trans hfront)
    omega
  have hseparator : Hides s 1 [',', ' '] := by
    have hinits : ∀ front ∈ [',', ' '].inits, 0 ≤ depth front := by decide
    exact hides fun front hfront => hinits front ((List.mem_inits _ _).mpr hfront)
  induction args with
  | nil => exact hides_of_notMem List.not_mem_nil 1
  | cons a args ih =>
    have ha := h a List.mem_cons_self
    have hrest := ih fun b hb => h b (List.mem_cons_of_mem a hb)
    unfold inner at hrest ⊢
    cases args with
    | nil => simpa using hides ha.nonneg
    | cons b args =>
      rw [List.map_cons] at hrest ⊢
      rw [List.map_cons, List.intercalate_cons_cons]
      refine ((hides ha.nonneg).append ?_).append ?_
      · rwa [ha.closed, Int.add_zero]
      · rwa [depth_append, ha.closed]

theorem readArguments_inner (h : ∀ a ∈ args, IsArgument a) : readArguments (inner args) = args := by
  cases args with
  | nil => rfl
  | cons a args =>
    have hparts : ∀ part ∈ a.toList :: args.map (' ' :: ·.toList), Hides ',' 0 part ∧
        depth part = 0 := by
      intro part hpart
      rcases List.mem_cons.mp hpart with rfl | hpart
      · exact ⟨(h a List.mem_cons_self).comma, (h a List.mem_cons_self).closed⟩
      · obtain ⟨b, hb, rfl⟩ := List.mem_map.mp hpart
        have hb := h b (List.mem_cons_of_mem a hb)
        have hspace : Hides ',' 0 [' '] := hides_of_notMem (by decide) 0
        exact ⟨hspace.append hb.comma, by rw [depth_cons, hb.closed]; rfl⟩
    have htrim (b : String) (hb : b ∈ args) : trimChars (' ' :: b.toList) = b.toList := by
      have hspace : trimChars ([' '] ++ b.toList) = trimChars b.toList :=
        Text.trimChars_append_left (by decide) b.toList
      exact hspace.trans (isTrimmed_of_trim (h b (List.mem_cons_of_mem a hb)).trimmed)
    have hall : (a.toList :: args.map (' ' :: ·.toList)).map trimChars =
        (a :: args).map String.toList := by
      rw [List.map_cons, isTrimmed_of_trim (h a List.mem_cons_self).trimmed, List.map_map,
        List.map_cons]
      exact congrArg (a.toList :: ·) (List.map_congr_left htrim)
    have hfilter : ((a :: args).map String.toList).filter (!·.isEmpty) =
        (a :: args).map String.toList := by
      refine List.filter_eq_self.mpr fun cs hcs => ?_
      obtain ⟨b, hb, rfl⟩ := List.mem_map.mp hcs
      simpa using (h b hb).ne_empty
    rw [readArguments, inner_cons, split_intercalate rfl [] (List.cons_ne_nil _ _) hparts, hall,
      hfilter, List.map_map]
    exact (List.map_congr_left fun b _ => String.ofList_toList).trans (List.map_id _)

/-- What follows the name of a segment. -/
def bracketed (args : List String) : List Char :=
  if args.isEmpty then [] else '<' :: (inner args ++ ['>'])

theorem toList_segmentText (s : PathSegment) :
    (segmentText s).toList = s.name.toList ++ bracketed s.args := by
  unfold segmentText bracketed
  split
  · exact (List.append_nil _).symm
  · simp [inner]

theorem head_bracketed (h : c ∈ (bracketed args).head?) : c = '<' := by
  unfold bracketed at h
  split at h
  · cases h
  · exact (Option.some.inj h).symm

theorem isIdentifier_cons (h : isIdentifier cs = true) :
    ∃ c rest, cs = c :: rest ∧ ∀ d ∈ cs, continuesIdentifier d = true := by
  cases cs with
  | nil => cases h
  | cons c rest =>
    rw [isIdentifier, Bool.and_eq_true, List.all_eq_true] at h
    refine ⟨c, rest, rfl, fun d hd => ?_⟩
    rcases List.mem_cons.mp hd with rfl | hd
    · exact Text.continuesIdentifier_of_startsIdentifier h.1
    · exact h.2 d hd

theorem depth_of_continues (h : ∀ c ∈ cs, continuesIdentifier c = true) : depth cs = 0 := by
  induction cs with
  | nil => rfl
  | cons c cs ih =>
    have hne {d : Char} (hd : continuesIdentifier d = false) : c ≠ d := by
      rintro rfl
      rw [h c List.mem_cons_self] at hd
      cases hd
    have hbracket : bracket c = 0 := by
      have hangle : c ≠ '<' := hne (by decide)
      have hround : c ≠ '(' := hne (by decide)
      have hangle' : c ≠ '>' := hne (by decide)
      have hround' : c ≠ ')' := hne (by decide)
      simp [bracket, hangle, hround, hangle', hround']
    rw [depth_cons, hbracket, ih fun d hd => h d (List.mem_cons_of_mem c hd)]
    rfl

namespace IsSegment

variable {s : PathSegment}

theorem name_continues (h : IsSegment s) : ∀ c ∈ s.name.toList, continuesIdentifier c = true := by
  obtain ⟨-, -, -, hall⟩ := isIdentifier_cons h.name
  exact hall

theorem notMem_name (h : IsSegment s) (hc : continuesIdentifier c = false) :
    c ∉ s.name.toList := by
  intro hmem
  rw [h.name_continues c hmem] at hc
  cases hc

theorem depth_name (h : IsSegment s) : depth s.name.toList = 0 :=
  depth_of_continues h.name_continues

theorem depth_text (h : IsSegment s) : depth (segmentText s).toList = 0 := by
  rw [toList_segmentText, depth_append, h.depth_name, bracketed]
  split
  · rfl
  · rw [depth_cons, depth_append, depth_inner h.args]
    rfl

theorem hides_text (h : IsSegment s) : Hides ':' 0 (segmentText s).toList := by
  rw [toList_segmentText]
  refine (hides_of_notMem (h.notMem_name (by decide)) 0).append ?_
  rw [h.depth_name, bracketed]
  split
  · exact hides_of_notMem List.not_mem_nil _
  · have hopen : Hides ':' (0 + 0) ['<'] := hides_of_notMem (by decide) _
    have hclose : Hides ':' (1 + depth (inner s.args)) ['>'] := hides_of_notMem (by decide) _
    exact hopen.append ((hides_inner h.args ':').append hclose)

theorem head_text (h : IsSegment s) :
    ∃ c rest, (segmentText s).toList = c :: rest ∧ continuesIdentifier c = true := by
  obtain ⟨c, rest, hname, hall⟩ := isIdentifier_cons h.name
  refine ⟨c, rest ++ bracketed s.args, ?_, hall c (hname ▸ List.mem_cons_self)⟩
  rw [toList_segmentText, hname, List.cons_append]

theorem last_text (h : IsSegment s) (hc : c ∈ (segmentText s).toList.getLast?) :
    c = '>' ∨ continuesIdentifier c = true := by
  rw [toList_segmentText, bracketed] at hc
  split at hc
  · rw [List.append_nil] at hc
    exact .inr (h.name_continues c (List.mem_of_getLast? hc))
  · rw [← List.cons_append, ← List.append_assoc, List.getLast?_concat] at hc
    exact .inl (Option.some.inj hc).symm

theorem trimChars_text (h : IsSegment s) :
    trimChars (segmentText s).toList = (segmentText s).toList := by
  refine IsTrimmed.trimChars ⟨fun c hc => ?_, fun c hc => ?_⟩
  · obtain ⟨d, rest, htext, hd⟩ := h.head_text
    rw [htext] at hc
    obtain rfl : d = c := Option.some.inj hc
    exact Text.isBlank_of_continuesIdentifier hd
  · rcases h.last_text hc with rfl | hc
    · decide
    · exact Text.isBlank_of_continuesIdentifier hc

theorem read (h : IsSegment s) : readSegment? (segmentText s).toList = some s := by
  have hall : ∀ c ∈ s.name.toList, (c != '<') = true := by
    intro c hc
    rw [bne_iff_ne]
    rintro rfl
    exact h.notMem_name (by decide) hc
  have hname : trimChars s.name.toList = s.name.toList := by
    refine IsTrimmed.trimChars ⟨fun c hc => ?_, fun c hc => ?_⟩
    · exact Text.isBlank_of_continuesIdentifier (h.name_continues c (List.mem_of_head? hc))
    · exact Text.isBlank_of_continuesIdentifier (h.name_continues c (List.mem_of_getLast? hc))
  rw [readSegment?, h.trimChars_text, toList_segmentText]
  simp only [List.dropWhile_append_of_pos hall, List.takeWhile_append_of_pos hall]
  obtain ⟨name, args⟩ := s
  cases args with
  | nil => simp [bracketed, h.name, guard]
  | cons a args =>
    have hback : Text.trimBack (inner (a :: args) ++ ['>']) = inner (a :: args) ++ ['>'] := by
      refine Text.dropLastWhile_eq_self fun c hc => ?_
      rw [List.getLast?_concat] at hc
      cases hc
      decide
    have hend : Text.dropEnd? ">" (inner (a :: args) ++ ['>']) = some (inner (a :: args)) := by
      simp [Text.dropEnd?, Text.dropStart?]
    have hread := readArguments_inner h.args
    simp [bracketed, hback, hend, hname, h.name, guard, hread]

end IsSegment

theorem intercalate_front (hne : parts ≠ []) (s : Char) (sep : List Char) :
    ∃ part ∈ parts, ∃ rest, (s :: sep).intercalate parts = part ++ rest ∧
      ∀ c ∈ rest.head?, c = s := by
  cases parts with
  | nil => exact absurd rfl hne
  | cons part parts =>
    cases parts with
    | nil => exact ⟨part, List.mem_cons_self, [], by simp, nofun⟩
    | cons next parts =>
      refine ⟨part, List.mem_cons_self, s :: (sep ++ (s :: sep).intercalate (next :: parts)), ?_,
        fun c hc => (Option.some.inj hc).symm⟩
      rw [List.intercalate_cons_cons, List.append_assoc, List.cons_append]

theorem intercalate_back (hne : parts ≠ []) (sep : List Char) (s : Char) :
    ∃ part ∈ parts, ∃ front, (sep ++ [s]).intercalate parts = front ++ part ∧
      ∀ c ∈ front.getLast?, c = s := by
  induction parts with
  | nil => exact absurd rfl hne
  | cons part parts ih =>
    cases parts with
    | nil => exact ⟨part, List.mem_cons_self, [], by simp, nofun⟩
    | cons next parts =>
      obtain ⟨last, hlast, front, hfront, hs⟩ := ih (List.cons_ne_nil _ _)
      refine ⟨last, List.mem_cons_of_mem part hlast, part ++ (sep ++ [s]) ++ front, ?_, ?_⟩
      · rw [List.intercalate_cons_cons, hfront, List.append_assoc (part ++ (sep ++ [s]))]
      · intro c hc
        cases front using List.reverseRecOn with
        | nil =>
          rw [List.append_nil, ← List.append_assoc, List.getLast?_concat] at hc
          exact (Option.some.inj hc).symm
        | append_singleton front d =>
          rw [← List.append_assoc, List.getLast?_concat] at hc
          exact hs c (by rwa [List.getLast?_concat])

/-- The segments of a path as text. -/
def body (segments : List PathSegment) : List Char :=
  [':', ':'].intercalate (segments.map fun s => (segmentText s).toList)

theorem toList_text (p : TypePath) :
    p.text.toList = (if p.isGlobal then [':', ':'] else []) ++ body p.segments := by
  unfold text body
  rw [String.toList_append, String.toList_intercalate, List.map_map]
  split <;> rfl

/-- A word with a space behind it is not at the front of a text that goes on otherwise behind its
first word. -/
theorem dropStart?_eq_none {word : String}
    (hword : word.toList.dropWhile continuesIdentifier = [' '])
    (hv : ∀ c ∈ v, continuesIdentifier c = true)
    (ht : ∀ c ∈ t.head?, continuesIdentifier c = false ∧ c ≠ ' ') :
    Text.dropStart? word (v ++ t) = none := by
  rw [Text.dropStart?, if_neg]
  intro hprefix
  obtain ⟨rest, hrest⟩ := List.isPrefixOf_iff_prefix.mp hprefix
  have hdrop : (word.toList ++ rest).dropWhile continuesIdentifier = ' ' :: rest := by
    rw [List.dropWhile_append, hword]
    rfl
  have ht' : t.dropWhile continuesIdentifier = t :=
    Text.dropWhile_eq_self fun c hc => (ht c hc).1
  rw [hrest, List.dropWhile_append_of_pos hv, ht'] at hdrop
  subst hdrop
  exact (ht ' ' rfl).2 rfl

theorem dropEnd?_eq_none {ending : String}
    (hword : ending.toList.reverse.dropWhile continuesIdentifier = [' '])
    (hv : ∀ c ∈ v, continuesIdentifier c = true)
    (ht : ∀ c ∈ t.getLast?, continuesIdentifier c = false ∧ c ≠ ' ') :
    Text.dropEnd? ending (t ++ v) = none := by
  have hnone : Text.dropStart? (.ofList ending.toList.reverse) (v.reverse ++ t.reverse) = none :=
    dropStart?_eq_none (by rwa [String.toList_ofList]) (by simpa using hv)
      (by rwa [List.head?_reverse])
  rw [Text.dropEnd?, List.reverse_append, hnone]
  rfl

/-- A text that names nothing but a path: what stands before and behind a type is not there. -/
structure IsBare (cs : List Char) : Prop where
  front : ∃ v t, cs = v ++ t ∧ (∀ c ∈ v, continuesIdentifier c = true) ∧
    ∀ c ∈ t.head?, c = '<' ∨ c = ':'
  back : ∃ t v, cs = t ++ v ∧ (∀ c ∈ v, continuesIdentifier c = true) ∧
    ∀ c ∈ t.getLast?, c = '>' ∨ c = ':'
  last : ∀ c ∈ cs.getLast?, c = '>' ∨ continuesIdentifier c = true

namespace IsBare

theorem trimChars (h : IsBare cs) : Text.trimChars cs = cs := by
  obtain ⟨v, t, hcs, hv, ht⟩ := h.front
  refine IsTrimmed.trimChars ⟨fun c hc => ?_, fun c hc => ?_⟩
  · rw [hcs] at hc
    cases v with
    | nil => rcases ht c hc with rfl | rfl <;> decide
    | cons d v =>
      obtain rfl : d = c := Option.some.inj hc
      exact Text.isBlank_of_continuesIdentifier (hv d List.mem_cons_self)
  · rcases h.last c hc with rfl | hc
    · decide
    · exact Text.isBlank_of_continuesIdentifier hc

theorem dropLeadingWords (h : IsBare cs) : leadingWords.foldl dropLeadingWord cs = cs := by
  have hwords : ∀ word ∈ leadingWords, word.toList.dropWhile continuesIdentifier = [' '] := by
    decide
  obtain ⟨v, t, hcs, hv, ht⟩ := h.front
  have hhead : ∀ c ∈ t.head?, continuesIdentifier c = false ∧ c ≠ ' ' := by
    intro c hc
    rcases ht c hc with rfl | rfl <;> decide
  have hstep (word : String) (hword : word.toList.dropWhile continuesIdentifier = [' ']) :
      dropLeadingWord cs word = cs := by
    rw [dropLeadingWord, hcs, dropStart?_eq_none hword hv hhead]
  generalize leadingWords = words at hwords ⊢
  induction words with
  | nil => rfl
  | cons word words ih =>
    rw [List.foldl_cons, hstep word (hwords word List.mem_cons_self)]
    exact ih fun w hw => hwords w (List.mem_cons_of_mem word hw)

theorem dropPointers (h : IsBare cs) :
    Text.trimBack (Text.dropLastWhile isPointerOrSpace cs) = cs := by
  have hpointers : Text.dropLastWhile isPointerOrSpace cs = cs := by
    refine Text.dropLastWhile_eq_self fun c hc => ?_
    rcases h.last c hc with rfl | hc
    · decide
    · rw [isPointerOrSpace, Bool.or_eq_false_iff, Bool.or_eq_false_iff]
      refine ⟨⟨?_, ?_⟩, ?_⟩ <;>
        · rw [beq_eq_false_iff_ne]
          rintro rfl
          exact absurd hc (by decide)
  rw [hpointers]
  refine Text.dropLastWhile_eq_self fun c hc => ?_
  rcases h.last c hc with rfl | hc
  · decide
  · exact Text.isBlank_of_continuesIdentifier hc

theorem dropConst (h : IsBare cs) : (Text.dropEnd? " const" cs).getD cs = cs := by
  obtain ⟨t, v, rfl, hv, ht⟩ := h.back
  have hlast : ∀ c ∈ t.getLast?, continuesIdentifier c = false ∧ c ≠ ' ' := by
    intro c hc
    rcases ht c hc with rfl | rfl <;> decide
  rw [dropEnd?_eq_none (by decide) hv hlast]
  rfl

end IsBare

variable {segments : List PathSegment}

theorem body_front (hne : segments ≠ []) (h : ∀ s ∈ segments, IsSegment s) :
    ∃ c v t, body segments = c :: v ++ t ∧ (∀ d ∈ c :: v, continuesIdentifier d = true) ∧
      ∀ d ∈ t.head?, d = '<' ∨ d = ':' := by
  have hne : (segments.map fun s => (segmentText s).toList) ≠ [] := by simpa using hne
  obtain ⟨part, hpart, rest, hbody, hrest⟩ := intercalate_front hne ':' [':']
  obtain ⟨s, hs, rfl⟩ := List.mem_map.mp hpart
  obtain ⟨c, v, hname, hall⟩ := isIdentifier_cons (h s hs).name
  refine ⟨c, v, bracketed s.args ++ rest, ?_, hname ▸ hall, fun d hd => ?_⟩
  · rw [body, hbody, toList_segmentText, hname, List.append_assoc]
  · cases hargs : bracketed s.args with
    | nil =>
      rw [hargs] at hd
      exact .inr (hrest d hd)
    | cons a args =>
      have hhead : a ∈ (bracketed s.args).head? := hargs ▸ rfl
      rw [hargs] at hd
      cases hd
      exact .inl (head_bracketed hhead)

theorem body_back (hne : segments ≠ []) :
    ∃ s ∈ segments, ∃ front, body segments = front ++ (segmentText s).toList ∧
      ∀ d ∈ front.getLast?, d = ':' := by
  have hne : (segments.map fun s => (segmentText s).toList) ≠ [] := by simpa using hne
  obtain ⟨part, hpart, front, hbody, hfront⟩ := intercalate_back hne [':'] ':'
  obtain ⟨s, hs, rfl⟩ := List.mem_map.mp hpart
  exact ⟨s, hs, front, hbody, hfront⟩

theorem isBare_text {p : TypePath} (hne : p.segments ≠ []) (h : ∀ s ∈ p.segments, IsSegment s) :
    IsBare p.text.toList := by
  obtain ⟨c, v, t, hfront, hv, ht⟩ := body_front hne h
  obtain ⟨s, hs, front, hback, hcolon⟩ := body_back hne
  obtain ⟨d, rest, hhead, -⟩ := (h s hs).head_text
  have hsplit : p.text.toList =
      ((if p.isGlobal then [':', ':'] else []) ++ front) ++ (segmentText s).toList := by
    rw [toList_text, hback, List.append_assoc]
  have hbefore : ∀ d ∈ ((if p.isGlobal then [':', ':'] else []) ++ front).getLast?, d = ':' := by
    intro d hd
    rw [List.getLast?_append] at hd
    cases hlast : front.getLast? with
    | some e =>
      rw [hlast] at hd
      obtain rfl : e = d := Option.some.inj hd
      exact hcolon e hlast
    | none =>
      rw [hlast] at hd
      split at hd
      · exact (Option.some.inj hd).symm
      · cases hd
  refine ⟨?_, ?_, fun c hc => ?_⟩
  · cases hglobal : p.isGlobal with
    | true =>
      refine ⟨[], p.text.toList, rfl, nofun, fun c hc => ?_⟩
      rw [toList_text, hglobal] at hc
      exact .inr (Option.some.inj hc).symm
    | false =>
      refine ⟨c :: v, t, ?_, hv, ht⟩
      rw [toList_text, hglobal, hfront]
      rfl
  · have hname := (h s hs).name_continues
    cases hargs : s.args with
    | nil =>
      have htext : (segmentText s).toList = s.name.toList := by
        rw [toList_segmentText, hargs]
        exact List.append_nil _
      exact ⟨_, s.name.toList, htext ▸ hsplit, hname, fun d hd => .inr (hbefore d hd)⟩
    | cons a args =>
      refine ⟨p.text.toList, [], (List.append_nil _).symm, nofun, fun d hd => ?_⟩
      rw [hsplit, toList_segmentText, hargs, bracketed, List.isEmpty_cons,
        if_neg Bool.false_ne_true, ← List.cons_append, ← List.append_assoc, ← List.append_assoc,
        List.getLast?_concat] at hd
      exact .inl (Option.some.inj hd).symm
  · rw [hsplit, List.getLast?_append_of_ne_nil _ (hhead ▸ List.cons_ne_nil d rest)] at hc
    exact (h s hs).last_text hc

theorem mapM_read (h : ∀ s ∈ segments, IsSegment s) :
    (segments.map fun s => (segmentText s).toList).mapM readSegment? = some segments := by
  induction segments with
  | nil => rfl
  | cons s segments ih =>
    rw [List.map_cons, List.mapM_cons, (h s List.mem_cons_self).read,
      ih fun u hu => h u (List.mem_cons_of_mem s hu)]
    rfl

/-- A path of at least one segment that is no built-in type is read back from its text. -/
theorem parse_text {p : TypePath} (hne : p.segments ≠ []) (h : ∀ s ∈ p.segments, IsSegment s)
    (hbuiltin : isBuiltin p.segments = false) : parse p.text = some p := by
  have hbare := isBare_text hne h
  have hstart : Text.dropStart? "::" p.text.toList =
      if p.isGlobal then some (body p.segments) else none := by
    rw [toList_text]
    cases p.isGlobal with
    | true => simp [Text.dropStart?]
    | false =>
      obtain ⟨c, v, t, hfront, hv, -⟩ := body_front hne h
      have hc : ':' ≠ c := by
        rintro rfl
        exact absurd (hv ':' List.mem_cons_self) (by decide)
      simp [Text.dropStart?, hfront, hc]
  have hsplit : split [':', ':'] 0 0 [] (body p.segments) =
      p.segments.map fun s => (segmentText s).toList := by
    refine split_intercalate rfl [':'] (by simpa using hne) fun part hpart => ?_
    obtain ⟨s, hs, rfl⟩ := List.mem_map.mp hpart
    exact ⟨(h s hs).hides_text, (h s hs).depth_text⟩
  rw [parse, hbare.trimChars, hbare.dropLeadingWords, hbare.dropPointers, hbare.dropConst]
  simp only [hstart]
  obtain ⟨isGlobal, segments⟩ := p
  cases isGlobal with
  | true => simp [hsplit, mapM_read h, hbuiltin, guard]
  | false =>
    have htext : (text ⟨false, segments⟩).toList = body segments := toList_text ⟨false, segments⟩
    simp [htext, hsplit, mapM_read h, hbuiltin, guard]

/-- Brackets in brackets, and a comma between round ones. -/
theorem parse_text_nested :
    let p : TypePath := ⟨true, [⟨"std", []⟩, ⟨"map", ["A<int, B<C>>", "void (int, D *)"]⟩]⟩
    p.segments ≠ [] ∧ (∀ s ∈ p.segments, IsSegment s) ∧ isBuiltin p.segments = false ∧
      p.text = "::std::map<A<int, B<C>>, void (int, D *)>" ∧ parse p.text = some p := by
  intro p
  have hsegments : ∀ s ∈ p.segments, IsSegment s := by
    intro s hs
    rcases List.mem_pair.mp hs with rfl | rfl
    · exact ⟨by decide, nofun⟩
    · exact ⟨by decide, by decide⟩
  have hne : p.segments ≠ [] := List.cons_ne_nil _ _
  exact ⟨hne, hsegments, rfl, by decide, parse_text hne hsegments rfl⟩

/-- A path without segments is written as no text, which names no path. -/
theorem parse_text_nil :
    let p : TypePath := ⟨false, []⟩
    (∀ s ∈ p.segments, IsSegment s) ∧ isBuiltin p.segments = false ∧ parse p.text ≠ some p :=
  ⟨nofun, rfl, nofun⟩

end TypePath

end CppRefactor
