import CppRefactor.Edit.Change
import CppRefactor.Proofs.Fix.IncludeGroups

/-!
What is read of a text in which an include directive has been put: the directives from before, and
the new one at one place. In the group that it joins it is in order, or else the last.
-/

namespace CppRefactor

open Text (bytes AtLineStart AtLineEnd)
open Include (IsGap IsLines IsRun InOrder StandsOn)

theorem Change.apply_insert {text : String} {front back : List Char}
    (h : text.toList = front ++ back) (s : String) :
    (empty.insert (bytes front) s).apply text = .ok (.ofList (front ++ (s.toList ++ back))) := by
  have hback : Text.cut? 0 back = some ([], back) := Text.cut?_append [] back
  have hlength : Span.length ⟨bytes front, bytes front⟩ = 0 := Nat.sub_self _
  have hsplice : Edit.splice text.utf8ByteSize 0 text.toList [⟨.point (bytes front), s⟩] =
      .ok (front ++ s.toList ++ back) := by
    rw [Edit.splice, Span.point, Nat.sub_zero, h, Text.cut?_append]
    simp only [hlength, hback]
    rfl
  rw [List.append_assoc] at hsplice
  simp only [apply, finish, insert, add, empty, List.nil_append, Edit.sort, List.foldr_cons,
    List.foldr_nil, Edit.insertSorted, Edit.overlap?]
  change (Edit.splice _ _ _ _ >>= _) = _
  rw [hsplice]
  rfl

namespace Insertion

variable {text after : String} {kind : IncludeKind} {path : String} {is : List Include}
  {i : Include} {g : IncludeGroup} {front back above below before blank line rest : List Char}

theorem startOfLine_standsOn (h : i.StandsOn text before blank line rest) :
    startOfLine (.ofText text) i.line = bytes before := by
  rw [startOfLine, h.number, LineIndex.lineSpan?_isLine h.isLine]

theorem asLine_of_atLineStart (h : AtLineStart front) (htext : text.toList = front ++ back)
    (s : String) : asLine text (bytes front) s = s := by
  have hfalse : (0 < bytes front && bytes front == text.utf8ByteSize &&
      text.toList.getLast? != some '\n') = false := by
    by_cases hsize : bytes front = text.utf8ByteSize
    · have hback : back = [] := by
        rw [← Text.bytes_toList, htext, Text.bytes_append] at hsize
        exact Text.eq_nil_of_bytes (by omega)
      rw [htext, hback, List.append_nil]
      cases h with
      | top => rfl
      | behind cs => simp
    · simp [hsize]
  rw [asLine, hfalse]
  rfl

theorem asLine_end (h : i.StandsOn text before blank line []) (s : String) :
    asLine text text.utf8ByteSize s = "\n" ++ s := by
  have htext := h.split
  rw [List.append_nil] at htext
  have hpos : 0 < text.utf8ByteSize := by
    rw [← Text.bytes_toList, htext, Text.bytes_append, Text.bytes_append, Text.bytes_cons]
    have hsize := Char.utf8Size_pos '#'
    omega
  have hlast : text.toList.getLast? ≠ some '\n' := by
    intro hlast
    rw [htext, List.getLast?_append_of_ne_nil _ (by simp)] at hlast
    exact h.isLine.unbroken (List.mem_of_getLast? hlast)
  simp [asLine, hpos, hlast]

/-- Lines behind the line of a directive go to the start of the next one, or with a line feed to
the end of the text. -/
structure Behind (i : Include) (text : String) (front back above : List Char) : Prop where
  gap : IsGap front back
  split : text.toList = front ++ back
  place : (LineIndex.ofText text).nextLineStart (startOfLine (.ofText text) i.line) = bytes front
  asLine (s : String) : asLine text (bytes front) s = .ofList above ++ s
  feeds : ∀ c ∈ above, c = '\n'
  fits : AtLineStart front ∧ above = [] ∨ above ≠ [] ∧ back = []
  number : front.count '\n' + above.length = i.line + 1

theorem Behind.line_lt (h : Behind i text front back above) (hback : back ≠ []) :
    i.line < front.count '\n' := by
  rcases h.fits with ⟨-, habove⟩ | ⟨-, hnil⟩
  · have hnumber := h.number
    rw [habove, List.length_nil] at hnumber
    omega
  · exact absurd hnil hback

theorem exists_behind (h : i.StandsOn text before blank line rest) :
    ∃ front back above, Behind i text front back above := by
  have hlow : bytes before ≤ bytes before := Nat.le_refl _
  have hhigh : bytes before ≤ bytes (before ++ (blank ++ '#' :: line)) := by
    rw [Text.bytes_append]
    exact Nat.le_add_right ..
  have hcount : (before ++ (blank ++ '#' :: line)).count '\n' = i.line := by
    rw [List.count_append, List.count_eq_zero.mpr h.isLine.unbroken, h.number, Nat.add_zero]
  have hends := h.isLine.ends
  cases hends with
  | before rest =>
    have hsplit : text.toList = before ++ (blank ++ '#' :: line) ++ ['\n'] ++ rest := by
      rw [h.split]
      simp
    refine ⟨_, rest, [], h.gap_behind, hsplit, ?_, ?_, nofun, .inl ⟨.behind _, rfl⟩, ?_⟩
    · rw [startOfLine_standsOn h, LineIndex.nextLineStart_isLine h.isLine hlow hhigh]
      simp
    · exact asLine_of_atLineStart (.behind _) hsplit
    · rw [List.count_append, hcount]
      rfl
  | bottom =>
    have hsplit : text.toList = before ++ (blank ++ '#' :: line) ++ [] := by
      rw [h.split]
      simp
    have hsize : text.utf8ByteSize = bytes (before ++ (blank ++ '#' :: line)) := by
      rw [← Text.bytes_toList, hsplit, List.append_nil]
    refine ⟨_, [], ['\n'], h.gap_end, hsplit, ?_, ?_, ?_, ?_, ?_⟩
    · rw [startOfLine_standsOn h, LineIndex.nextLineStart_isLine_last h.isLine hlow hhigh, hsize]
    · rw [← hsize]
      exact asLine_end h
    · exact fun c hc => List.mem_singleton.mp hc
    · exact .inr ⟨List.cons_ne_nil _ _, rfl⟩
    · rw [hcount]
      rfl

/-- Lines with one include directive that go to the start of a line or the end of a text. -/
structure Fits (ins : Insertion) (text : String) (kind : IncludeKind) (path : String)
    (front back above below : List Char) : Prop where
  gap : IsGap front back
  split : text.toList = front ++ back
  place : ins.offset = bytes front
  lines : IsLines kind path above below ins.text.toList
  fits : AtLineStart front ∨ above ≠ [] ∧ back = []

/-- The insertion can be made. The directives of the text are then followed by a new one, and that
by the others, which have moved by what is inserted. -/
structure Adds (ins : Insertion) (text after : String) (i : Include)
    (before behind : List Include) : Prop where
  place : ins.offset ∈ (LineIndex.ofText text).starts ∨ ins.offset = text.utf8ByteSize
  made : (Change.empty.insert ins.offset ins.text).apply text = .ok after
  old : Include.ofText text = before ++ behind
  new : Include.ofText after = before ++
    i :: behind.map (·.movedBy ins.text.utf8ByteSize (ins.text.toList.count '\n'))

theorem Fits.adds {ins : Insertion} (h : ins.Fits text kind path front back above below)
    (hpath : '\n' ∉ path.toList) (hclose : (Include.delimiters kind).2 ∉ path.toList) :
    ∃ after i before behind, ins.Adds text after i before behind ∧ i.kind = kind ∧ i.path = path ∧
      i.line = front.count '\n' + above.length ∧
      (∀ j ∈ before, j.line < front.count '\n' + above.length) ∧
      ∀ j ∈ behind, front.count '\n' ≤ j.line ∧ back ≠ [] := by
  have hnew : (String.ofList (front ++ (ins.text.toList ++ back))).toList =
      front ++ (ins.text.toList ++ back) := String.toList_ofList
  obtain ⟨before, i, behind, hold, hread, hkind, hipath, hline, hbefore, hbehind, hnone⟩ :=
    Include.ofText_insert h.gap h.split hnew h.lines (h.fits.imp_right And.left) hpath hclose
  refine ⟨.ofList (front ++ (ins.text.toList ++ back)), i, before, behind,
    ⟨?_, ?_, hold, ?_⟩, hkind, hipath, hline, ?_, ?_⟩
  · rw [h.place]
    rcases h.fits with hstart | ⟨-, rfl⟩
    · exact .inl (LineIndex.mem_starts hstart h.split)
    · rw [List.append_nil] at *
      exact .inr (by rw [← Text.bytes_toList, h.split, List.append_nil])
  · rw [h.place]
    exact Change.apply_insert h.split ins.text
  · rw [hread, Text.bytes_toList]
  · intro j hj
    obtain ⟨hle, hlt⟩ := hbefore j hj
    rcases h.fits with hstart | ⟨habove, -⟩
    · exact Nat.lt_of_lt_of_le (hlt hstart) (Nat.le_add_right ..)
    · have hpos := List.length_pos_iff.mpr habove
      omega
  · intro j hj
    exact ⟨hbehind j hj, fun hback => List.ne_nil_of_mem hj (hnone hback)⟩

/-- The directive that is put in, with its line feed. -/
def lineOf (kind : IncludeKind) (path : String) : String :=
  "#include " ++ Include.spell kind path ++ "\n"

theorem toList_lineOf (kind : IncludeKind) (path : String) :
    (lineOf kind path).toList = ("#include " ++ Include.spell kind path).toList ++ ['\n'] :=
  String.toList_append ..

theorem fits_before (kind : IncludeKind) (path : String)
    (h : i.StandsOn text before blank line rest) (hbelow : ∀ c ∈ below, c = '\n') :
    Fits ⟨startOfLine (.ofText text) i.line, lineOf kind path ++ .ofList below⟩ text kind path
      before (blank ++ '#' :: line ++ rest) [] below where
  gap := h.gap_before
  split := h.split
  place := startOfLine_standsOn h
  lines := ⟨by simp [toList_lineOf], nofun, hbelow⟩
  fits := .inl h.isLine.starts

theorem fits_behind (kind : IncludeKind) (path : String) (h : Behind i text front back above)
    {feeds below : List Char} (hfeeds : ∀ c ∈ feeds, c = '\n') (hbelow : ∀ c ∈ below, c = '\n') :
    let offset := (LineIndex.ofText text).nextLineStart (startOfLine (.ofText text) i.line)
    Fits ⟨offset, .ofList feeds ++ asLine text offset (lineOf kind path) ++ .ofList below⟩ text kind
      path front back (feeds ++ above) below where
  gap := h.gap
  split := h.split
  place := h.place
  lines := by
    refine ⟨?_, fun c hc => ?_, hbelow⟩
    · rw [h.place, h.asLine]
      simp [toList_lineOf]
    · exact (List.mem_append.mp hc).elim (hfeeds c) (h.feeds c)
  fits := h.fits.imp And.left fun ⟨habove, hback⟩ =>
    ⟨List.append_ne_nil_of_right_ne_nil _ habove, hback⟩

theorem fits_behindGroup (kind : IncludeKind) (path : String)
    (h : Behind g.last text front back above) :
    ∃ above below, Fits (behindGroup text (.ofText text) g (lineOf kind path)) text kind path
      front back above below := by
  have hfeed : ∀ c ∈ ['\n'], c = '\n' := fun c hc => List.mem_singleton.mp hc
  have hnone : ∀ c ∈ [], c = '\n' := nofun
  have hone := fits_behind kind path h hfeed hfeed
  have hlast := fits_behind kind path h hfeed hnone
  have halone := fits_behind kind path h hnone hnone
  unfold behindGroup
  dsimp only
  split
  · split
    · exact ⟨_, _, hlast⟩
    · exact ⟨_, _, hone⟩
  · simp only [String.ofList_nil, String.empty_append, String.append_empty] at halone
    exact ⟨_, _, halone⟩

/-- The directives of a group with a new one among them, or behind them if they are not in order,
still follow each other and are in order if they were. -/
structure Joins (i : Include) (g : IncludeGroup) (before behind : List Include) (bytes lines : Nat)
    (front back : List Include) : Prop where
  split : g.entries = front ++ back
  ends : front <:+ before
  begins : back <+: behind
  run : IsRun (front ++ i :: back.map (·.movedBy bytes lines))
  inOrder : g.isSorted = true → InOrder (front ++ i :: back.map (·.movedBy bytes lines))
  last : g.isSorted = false → back = []

theorem append_inj_of_forall {p : α → Prop} {as bs cs ds : List α} (h : as ++ bs = cs ++ ds)
    (has : ∀ a ∈ as, p a) (hbs : ∀ b ∈ bs, ¬ p b) (hcs : ∀ c ∈ cs, p c) (hds : ∀ d ∈ ds, ¬ p d) :
    as = cs ∧ bs = ds := by
  rcases List.append_eq_append_iff.mp h with ⟨ms, rfl, rfl⟩ | ⟨ms, rfl, rfl⟩
  · cases ms with
    | nil => exact ⟨(List.append_nil as).symm, rfl⟩
    | cons m ms =>
      have hm := hcs m (List.mem_append_right _ List.mem_cons_self)
      exact absurd hm (hbs m (List.mem_append_left _ List.mem_cons_self))
  · cases ms with
    | nil => exact ⟨List.append_nil cs, rfl⟩
    | cons m ms =>
      have hm := has m (List.mem_append_right _ List.mem_cons_self)
      exact absurd hm (hds m (List.mem_append_left _ List.mem_cons_self))

theorem lines_of_split {left right : List Include}
    (h : Include.ofText text = left ++ i :: right) :
    (∀ j ∈ left, j.line < i.line) ∧ ∀ j ∈ right, i.line < j.line := by
  have hlines := Include.ofText_lines text
  rw [h] at hlines
  obtain ⟨-, hright, hacross⟩ := List.pairwise_append.mp hlines
  exact ⟨fun j hj => hacross j hj i List.mem_cons_self, (List.pairwise_cons.mp hright).1⟩

theorem count_lineOf (hpath : '\n' ∉ path.toList) : (lineOf kind path).toList.count '\n' = 1 := by
  have hspell := Include.lineFeed_notMem_spell kind hpath
  rw [toList_lineOf, Include.toList_directive, List.count_append, List.count_cons_of_ne (by decide),
    List.count_eq_zero.mpr hspell]
  rfl

theorem joins_before {front back : List Include} {next : Include}
    (hg : g.entries <:+: Include.ofText text) (hrun : IsRun g.entries)
    (hentries : g.entries = front ++ next :: back)
    (hstands : next.StandsOn text before blank line rest)
    (hsorted : g.isSorted = true) (hkind : next.kind = kind)
    (hfront : ∀ k ∈ front, ¬ path < k.path) (hnext : path < next.path)
    (hpath : '\n' ∉ path.toList) (hclose : (Include.delimiters kind).2 ∉ path.toList) :
    let ins : Insertion := ⟨startOfLine (.ofText text) next.line, lineOf kind path⟩
    ∃ after i before behind, ins.Adds text after i before behind ∧ i.kind = kind ∧ i.path = path ∧
      ∃ front back, Joins i g before behind ins.text.utf8ByteSize (ins.text.toList.count '\n')
        front back := by
  intro ins
  have hnone : ∀ c ∈ [], c = '\n' := nofun
  have hfits := fits_before kind path hstands hnone
  rw [String.ofList_nil, String.append_empty] at hfits
  obtain ⟨after, i, before, behind, hadds, rfl, rfl, hline, hbefore, hbehind⟩ :=
    hfits.adds hpath hclose
  simp only [← hstands.number, List.length_nil, Nat.add_zero] at hline hbefore hbehind
  obtain ⟨left, right, hold⟩ := hg
  have hsplit : (left ++ front) ++ (next :: (back ++ right)) = Include.ofText text := by
    rw [← hold, hentries]
    simp
  obtain ⟨hleft, hright⟩ := lines_of_split hsplit.symm
  obtain ⟨rfl, rfl⟩ := append_inj_of_forall (p := (·.line < next.line))
    (hadds.old.symm.trans hsplit.symm) hbefore (fun j hj => Nat.not_lt.mpr (hbehind j hj).1) hleft
    (List.forall_mem_cons.mpr ⟨Nat.lt_irrefl _, fun j hj => Nat.lt_asymm (hright j hj)⟩)
  refine ⟨after, i, _, _, hadds, rfl, rfl, front, next :: back, hentries, List.suffix_append ..,
    List.prefix_append (next :: back) right, ?_, fun _ => ?_, fun h => ?_⟩
  · rw [count_lineOf hpath]
    exact (hentries ▸ hrun).insert hkind.symm hline
  · have horder := (IncludeGroup.isSorted_iff g).mp hsorted
    rw [hentries] at horder
    exact Include.inOrder_movedBy.mpr (horder.insert hfront hnext)
  · exact absurd (hsorted.symm.trans h) nofun

theorem joins_behind {front back : List Char}
    (hg : g.entries <:+: Include.ofText text) (hrun : IsRun g.entries)
    (hbehind : Behind g.last text front back above) (hkind : g.last.kind = kind)
    (hsorted : g.isSorted = true → ∀ k ∈ g.entries, ¬ path < k.path)
    (hpath : '\n' ∉ path.toList) (hclose : (Include.delimiters kind).2 ∉ path.toList) :
    let offset := (LineIndex.ofText text).nextLineStart (startOfLine (.ofText text) g.last.line)
    let ins : Insertion := ⟨offset, asLine text offset (lineOf kind path)⟩
    ∃ after i before behind, ins.Adds text after i before behind ∧ i.kind = kind ∧ i.path = path ∧
      ∃ front back, Joins i g before behind ins.text.utf8ByteSize (ins.text.toList.count '\n')
        front back := by
  intro offset ins
  have hnone : ∀ c ∈ [], c = '\n' := nofun
  have hfits := fits_behind kind path hbehind hnone hnone
  simp only [String.ofList_nil, String.empty_append, String.append_empty] at hfits
  obtain ⟨after, i, before, behind, hadds, rfl, rfl, hline, hbefore, hafter⟩ :=
    hfits.adds hpath hclose
  simp only [List.nil_append, hbehind.number] at hline hbefore
  obtain ⟨left, right, hold⟩ := hg
  obtain ⟨init, hinit⟩ := List.getLast?_eq_some_iff.mp g.getLast?_entries
  have hsplit : Include.ofText text = (left ++ init) ++ g.last :: right := by
    rw [← hold, hinit]
    simp
  obtain ⟨hleft, hright⟩ := lines_of_split hsplit
  have hnot : ∀ j ∈ behind, ¬ j.line < g.last.line + 1 := fun j hj =>
    Nat.not_lt.mpr (Nat.le_trans (hbehind.line_lt (hafter j hj).2) (hafter j hj).1)
  have hentries : ∀ j ∈ left ++ g.entries, j.line < g.last.line + 1 := by
    rw [hinit, ← List.append_assoc]
    intro j hj
    rcases List.mem_append.mp hj with hj | hj
    · exact Nat.lt_succ_of_lt (hleft j hj)
    · rw [List.mem_singleton.mp hj]
      exact Nat.lt_succ_self _
  obtain ⟨rfl, rfl⟩ := append_inj_of_forall (p := (·.line < g.last.line + 1))
    (hadds.old.symm.trans hold.symm) hbefore hnot hentries
    (fun j hj => Nat.not_lt.mpr (hright j hj))
  refine ⟨after, i, _, _, hadds, rfl, rfl, g.entries, [], (List.append_nil _).symm,
    List.suffix_append .., List.nil_prefix, ?_, fun h => ?_, fun _ => rfl⟩
  · exact hrun.concat g.getLast?_entries hkind.symm hline
  · exact ((IncludeGroup.isSorted_iff g).mp h).concat (hsorted h)

/-- A directive that joins a group follows the directives of the group and is in order. -/
theorem inGroup_joins (hg : g.entries <:+: Include.ofText text) (hrun : IsRun g.entries)
    (hown : ∀ k ∈ g.entries, k.HasOwnLine text) (hkind : g.kind = kind)
    (hpath : '\n' ∉ path.toList) (hclose : (Include.delimiters kind).2 ∉ path.toList) :
    let ins := inGroup text (.ofText text) g path (lineOf kind path)
    ∃ after i before behind, ins.Adds text after i before behind ∧ i.kind = kind ∧ i.path = path ∧
      ∃ front back, Joins i g before behind ins.text.utf8ByteSize (ins.text.toList.count '\n')
        front back := by
  intro ins
  have hkinds : ∀ k ∈ g.entries, k.kind = kind := fun k hk => (hrun.kind_eq k hk).trans hkind
  have hstands (k : Include) (hk : k ∈ g.entries) :=
    (hown k hk).standsOn (hg.subset hk)
  cases hnext : if g.isSorted then g.entries.find? (path < ·.path) else none with
  | some next =>
    have hins : ins = ⟨startOfLine (.ofText text) next.line, lineOf kind path⟩ := by
      simp only [ins, inGroup, hnext]
    rw [hins]
    split at hnext
    · rename_i hsorted
      obtain ⟨hless, front, back, hentries, hfront⟩ := List.find?_eq_some_iff_append.mp hnext
      have hmem : next ∈ g.entries := hentries ▸ List.mem_append_right _ List.mem_cons_self
      obtain ⟨before, blank, line, rest, hline⟩ := hstands next hmem
      exact joins_before hg hrun hentries hline hsorted (hkinds next hmem)
        (by simpa using hfront) (by simpa using hless) hpath hclose
    · cases hnext
  | none =>
    have hins : ins = ⟨(LineIndex.ofText text).nextLineStart
        (startOfLine (.ofText text) g.last.line), asLine text
        ((LineIndex.ofText text).nextLineStart (startOfLine (.ofText text) g.last.line))
        (lineOf kind path)⟩ := by
      simp only [ins, inGroup, hnext]
    rw [hins]
    obtain ⟨before, blank, line, rest, hline⟩ := hstands g.last g.last_mem
    obtain ⟨front, back, above, hbehind⟩ := exists_behind hline
    refine joins_behind hg hrun hbehind (hkinds _ g.last_mem) (fun h => ?_) hpath hclose
    rw [if_pos h, List.find?_eq_none] at hnext
    simpa using hnext

/-- The groups of the kind of a directive, among which it looks for one to join. -/
def alike (text : String) (kind : IncludeKind) : List IncludeGroup :=
  (IncludeGroup.ofIncludes (considered text (Include.ofText text))).filter (·.kind == kind)

theorem ofInclude_joined
    (h : IncludeGroup.joined? path (Include.directoryOf path) (alike text kind) = some g) :
    ofInclude text (.ofText text) (Include.ofText text) kind path =
      inGroup text (.ofText text) g path (lineOf kind path) := by
  have halike := IncludeGroup.joined?_mem h
  have hgroups := (List.mem_filter.mp halike).1
  obtain ⟨top, htop⟩ := Option.ne_none_iff_exists'.mp
    (mt List.head?_eq_none_iff.mp (List.ne_nil_of_mem hgroups))
  obtain ⟨bottom, hbottom⟩ := Option.ne_none_iff_exists'.mp
    (mt List.getLast?_eq_none_iff.mp (List.ne_nil_of_mem hgroups))
  obtain ⟨last, hlast⟩ := Option.ne_none_iff_exists'.mp
    (mt List.getLast?_eq_none_iff.mp (List.ne_nil_of_mem halike))
  rw [alike] at h hlast
  simp only [ofInclude, htop, hbottom, hlast, h]
  rfl

/-- Without a group to join a directive goes on top of a group or behind one. -/
theorem ofInclude_alone (hsome : considered text (Include.ofText text) ≠ [])
    (h : IncludeGroup.joined? path (Include.directoryOf path) (alike text kind) = none) :
    ∃ g ∈ IncludeGroup.ofIncludes (considered text (Include.ofText text)),
      ofInclude text (.ofText text) (Include.ofText text) kind path =
          ⟨startOfLine (.ofText text) g.first.line, lineOf kind path ++ "\n"⟩ ∨
        ofInclude text (.ofText text) (Include.ofText text) kind path =
          behindGroup text (.ofText text) g (lineOf kind path) := by
  have hgroups := IncludeGroup.ofIncludes_ne_nil hsome
  obtain ⟨top, htop⟩ := Option.ne_none_iff_exists'.mp (mt List.head?_eq_none_iff.mp hgroups)
  obtain ⟨bottom, hbottom⟩ :=
    Option.ne_none_iff_exists'.mp (mt List.getLast?_eq_none_iff.mp hgroups)
  rw [alike] at h
  cases hlast : ((IncludeGroup.ofIncludes (considered text (Include.ofText text))).filter
      (·.kind == kind)).getLast? with
  | none =>
    cases kind with
    | quoted =>
      refine ⟨top, List.mem_of_mem_head? htop, .inl ?_⟩
      simp only [ofInclude, htop, hbottom, hlast]
      rfl
    | system =>
      refine ⟨bottom, List.mem_of_getLast? hbottom, .inr ?_⟩
      simp only [ofInclude, htop, hbottom, hlast]
      rfl
  | some last =>
    refine ⟨last, (List.mem_filter.mp (List.mem_of_getLast? hlast)).1, .inr ?_⟩
    simp only [ofInclude, htop, hbottom, hlast, h]
    rfl

theorem ofInclude_fits (hsome : considered text (Include.ofText text) ≠ [])
    (hown : ∀ i ∈ considered text (Include.ofText text), i.HasOwnLine text)
    (h : IncludeGroup.joined? path (Include.directoryOf path) (alike text kind) = none) :
    ∃ front back above below,
      (ofInclude text (.ofText text) (Include.ofText text) kind path).Fits text kind path
        front back above below := by
  obtain ⟨g, hg, hplace⟩ := ofInclude_alone hsome h
  obtain ⟨hwithin, -⟩ := IncludeGroup.of_mem_ofIncludes hg
  have hstands (k : Include) (hk : k ∈ g.entries) :=
    (hown k (hwithin.subset hk)).standsOn (List.mem_of_mem_filter (hwithin.subset hk))
  rcases hplace with htop | hbehind
  · obtain ⟨before, blank, line, rest, hline⟩ := hstands g.first List.mem_cons_self
    have hfeed : ∀ c ∈ ['\n'], c = '\n' := fun c hc => List.mem_singleton.mp hc
    have hfits := fits_before kind path hline hfeed
    have hone : String.ofList ['\n'] = "\n" := rfl
    rw [hone, ← htop] at hfits
    exact ⟨_, _, _, _, hfits⟩
  · obtain ⟨before, blank, line, rest, hline⟩ := hstands g.last g.last_mem
    obtain ⟨front, back, above, hplace⟩ := exists_behind hline
    obtain ⟨above, below, hfits⟩ := fits_behindGroup kind path hplace
    rw [← hbehind] at hfits
    exact ⟨front, back, above, below, hfits⟩

/-- Where every directive that a new one is placed by has its line to itself, the new one goes to
the start of a line or the end of the text, and the directives of the new text are the old ones with
it at one place. If it joins a group, it follows the directives of the group: in order among them
if they are in order, else behind the last. -/
theorem ofInclude_adds (hsome : considered text (Include.ofText text) ≠ [])
    (hown : ∀ i ∈ considered text (Include.ofText text), i.HasOwnLine text)
    (hpath : '\n' ∉ path.toList) (hclose : (Include.delimiters kind).2 ∉ path.toList) :
    let ins := ofInclude text (.ofText text) (Include.ofText text) kind path
    ∃ after i before behind, ins.Adds text after i before behind ∧ i.kind = kind ∧ i.path = path ∧
      ∀ g, IncludeGroup.joined? path (Include.directoryOf path) (alike text kind) = some g →
        ∃ front back, Joins i g before behind ins.text.utf8ByteSize (ins.text.toList.count '\n')
          front back := by
  intro ins
  have hconsidered : (considered text (Include.ofText text)).Sublist (Include.ofText text) :=
    List.filter_sublist
  cases hjoined : IncludeGroup.joined? path (Include.directoryOf path) (alike text kind) with
  | some g =>
    obtain ⟨hgroup, hkind⟩ := List.mem_filter.mp (IncludeGroup.joined?_mem hjoined)
    obtain ⟨hwithin, hrun⟩ := IncludeGroup.of_mem_ofIncludes hgroup
    have hfollow := hrun.within (Include.ofText_lines text) (hwithin.sublist.trans hconsidered)
    obtain ⟨after, i, before, behind, hadds, hikind, hipath, hjoins⟩ :=
      inGroup_joins hfollow hrun (fun k hk => hown k (hwithin.subset hk)) (beq_iff_eq.mp hkind)
        hpath hclose
    rw [← ofInclude_joined hjoined] at hadds hjoins
    refine ⟨after, i, before, behind, hadds, hikind, hipath, fun g' hg' => ?_⟩
    cases hg'
    exact hjoins
  | none =>
    obtain ⟨front, back, above, below, hfits⟩ := ofInclude_fits hsome hown hjoined
    obtain ⟨after, i, before, behind, hadds, hikind, hipath, -⟩ := hfits.adds hpath hclose
    exact ⟨after, i, before, behind, hadds, hikind, hipath, nofun⟩

/-- A directive between two that are in order. -/
theorem ofInclude_adds_between :
    let text := "#include \"a.h\"\n#include \"z.h\"\n"
    let ins := ofInclude text (.ofText text) (Include.ofText text) .quoted "m.h"
    considered text (Include.ofText text) ≠ [] ∧
      (∀ i ∈ considered text (Include.ofText text), i.HasOwnLine text) ∧
      '\n' ∉ "m.h".toList ∧ (Include.delimiters .quoted).2 ∉ "m.h".toList ∧
      ∃ after i before behind, ins.Adds text after i before behind ∧ i.kind = .quoted ∧
        i.path = "m.h" ∧
        ∀ g, IncludeGroup.joined? "m.h" (Include.directoryOf "m.h") (alike text .quoted) = some g →
          ∃ front back, Joins i g before behind ins.text.utf8ByteSize
            (ins.text.toList.count '\n') front back := by
  intro text ins
  have hconsidered : considered text (Include.ofText text) =
      [⟨.quoted, "a.h", ⟨0, 14⟩, 0⟩, ⟨.quoted, "z.h", ⟨15, 29⟩, 1⟩] := by decide +kernel
  have hsome : considered text (Include.ofText text) ≠ [] := by simp [hconsidered]
  have hown : ∀ i ∈ considered text (Include.ofText text), i.HasOwnLine text := by
    rw [hconsidered, List.forall_mem_cons, List.forall_mem_singleton]
    exact ⟨⟨by decide +kernel, by decide +kernel⟩, ⟨by decide +kernel, by decide +kernel⟩⟩
  exact ⟨hsome, hown, by decide, by decide, ofInclude_adds hsome hown (by decide) (by decide)⟩

end Insertion

end CppRefactor
