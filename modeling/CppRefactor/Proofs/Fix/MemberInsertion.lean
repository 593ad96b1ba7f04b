import CppRefactor.Fix.MemberInsertion
import CppRefactor.Proofs.Fix.Request
import CppRefactor.Proofs.Symbols.Sections
import CppRefactor.Proofs.Text.Lines

/-!
Where new members are put in a class: in front of the specifier that ends the last section of their
level, or of the closing brace. There they get the level, and every old member keeps its own, if the
access specifiers of the class begin lines.
-/

namespace CppRefactor

namespace Section

variable {access : Access} {s : Section} {m : Tree} {ms front behind : List Tree}

/-- Items where a section of an access level ends. -/
structure IsEnd (s : Section) (access : Access) (ms front behind : List Tree) : Prop where
  items : ms = front ++ behind
  ends : Ends behind
  access : s.behind front = plain access

/-- There is no such section, or some items lead up to the end of the last one. -/
inductive LastEnd (s : Section) (access : Access) (ms : List Tree) : Option (List Tree) → Prop
  | missing (h : ∀ front behind, ¬ s.IsEnd access ms front behind) : LastEnd s access ms none
  | last {front behind : List Tree} (h : s.IsEnd access ms front behind)
      (hlast : ∀ front' behind', s.IsEnd access ms front' behind' →
        front'.length ≤ front.length) : LastEnd s access ms (some behind)

theorem LastEnd.split {found : Option (List Tree)} (h : s.LastEnd access ms found) :
    ∃ front, ms = front ++ found.getD [] ∧ Ends (found.getD []) ∧
      (found.isSome = true → s.behind front = plain access) := by
  cases h with
  | missing => exact ⟨ms, (List.append_nil ms).symm, .close, nofun⟩
  | last h _ => exact ⟨_, h.items, h.ends, fun _ => h.access⟩

theorem isEnd_nil : s.IsEnd access [] front behind ↔
    front = [] ∧ behind = [] ∧ s = plain access := by
  constructor
  · rintro ⟨hitems, -, haccess⟩
    obtain ⟨rfl, rfl⟩ := List.append_eq_nil_iff.mp hitems.symm
    exact ⟨rfl, rfl, haccess⟩
  · rintro ⟨rfl, rfl, haccess⟩
    exact ⟨rfl, .close, haccess⟩

/-- A section ends before an item, if that begins another one, or behind it. -/
theorem isEnd_cons : s.IsEnd access (m :: ms) front behind ↔
    (front = [] ∧ behind = m :: ms ∧ (m.kind == .accessSpec) = true ∧ s = plain access) ∨
      ∃ rest, front = m :: rest ∧ (s.next m).IsEnd access ms rest behind := by
  constructor
  · rintro ⟨hitems, hends, haccess⟩
    cases front with
    | nil =>
      obtain rfl := hitems
      cases hends with
      | specifier _ _ hm => exact .inl ⟨rfl, rfl, hm, haccess⟩
    | cons m' rest =>
      obtain ⟨rfl, hrest⟩ := List.cons.inj hitems
      exact .inr ⟨rest, rfl, hrest, hends, haccess⟩
  · rintro (⟨rfl, rfl, hm, haccess⟩ | ⟨rest, rfl, h⟩)
    · exact ⟨rfl, .specifier m ms hm, haccess⟩
    · exact ⟨congrArg (m :: ·) h.items, h.ends, h.access⟩

/-- The last end behind an item is the last one, and without one it is the end before the item. -/
theorem LastEnd.cons {found : Option (List Tree)} (h : (s.next m).LastEnd access ms found) :
    s.LastEnd access (m :: ms) (found.or
      (if (m.kind == .accessSpec) && s == plain access then some (m :: ms) else none)) := by
  cases h with
  | @last front behind hend hlast =>
    refine .last (isEnd_cons.mpr (.inr ⟨front, rfl, hend⟩)) fun front' behind' h' => ?_
    rcases isEnd_cons.mp h' with ⟨rfl, -⟩ | ⟨rest, rfl, hrest⟩
    · exact Nat.zero_le _
    · exact Nat.succ_le_succ (hlast rest behind' hrest)
  | missing hnone =>
    rw [Option.none_or]
    split
    · rename_i hm
      rw [Bool.and_eq_true, beq_iff_eq (a := s)] at hm
      refine .last (isEnd_cons.mpr (.inl ⟨rfl, rfl, hm⟩)) fun front' behind' h' => ?_
      rcases isEnd_cons.mp h' with ⟨rfl, -⟩ | ⟨rest, rfl, hrest⟩
      · exact Nat.le_refl _
      · exact absurd hrest (hnone rest behind')
    · rename_i hm
      refine .missing fun front' behind' h' => ?_
      rcases isEnd_cons.mp h' with ⟨-, -, hm'⟩ | ⟨rest, -, hrest⟩
      · rw [Bool.and_eq_true, beq_iff_eq (a := s)] at hm
        exact hm hm'
      · exact hnone rest behind' hrest

end Section

namespace MemberInsertion

variable {text : String} {lines : LineIndex} {cls list : Tree} {brace : Token}

/-- The place in front of items, of which the first is a specifier, or of the end of a class. -/
def placeBefore (lines : LineIndex) (close : Nat) : List Tree → Nat
  | [] => close
  | m :: _ => lines.lineStart m.span.start

/-- What the place is in front of. -/
def stopOf (brace : Token) : List Tree → Nat
  | [] => brace.offset
  | m :: _ => m.span.start

theorem sectionEnd_eq (lines : LineIndex) (access : Access) (close : Nat) (s : Section)
    (ms : List Tree) : ∃ last, s.LastEnd access ms last ∧
      ∀ found, sectionEnd lines access close (s == .plain access) found ms =
        (last.map (placeBefore lines close)).or found := by
  have hplain (s : Section) :
      (s == .plain access) = (s.access == access && !s.isSignalsOrSlots) := by
    obtain ⟨a, b⟩ := s
    rw [Bool.eq_iff_iff, beq_iff_eq, Section.plain, Section.mk.injEq, Bool.and_eq_true,
      beq_iff_eq, Bool.not_eq_true']
  induction ms generalizing s with
  | nil =>
    by_cases hs : s = .plain access
    · refine ⟨some [], .last (Section.isEnd_nil.mpr ⟨rfl, rfl, hs⟩) ?_, fun found => ?_⟩
      · exact fun front' behind' h' => Nat.le_of_eq (congrArg _ (Section.isEnd_nil.mp h').1)
      · rw [sectionEnd, beq_iff_eq.mpr hs]
        rfl
    · refine ⟨none, .missing fun front' behind' h' => hs (Section.isEnd_nil.mp h').2.2, ?_⟩
      intro found
      rw [sectionEnd, beq_eq_false_iff_ne.mpr hs]
      rfl
  | cons m ms ih =>
    obtain ⟨last, hlast, heq⟩ := ih (s.next m)
    refine ⟨_, hlast.cons, fun found => ?_⟩
    rw [sectionEnd]
    cases hm : m.kind == .accessSpec with
    | true =>
      rw [Section.next_specifier hm, hplain (Section.begunBy m)] at heq
      rw [if_pos rfl]
      refine (heq _).trans ?_
      cases last with
      | some behind => rfl
      | none => cases s == .plain access <;> rfl
    | false =>
      rw [Section.next_member hm] at heq
      rw [Bool.false_and, if_neg Bool.false_ne_true, if_neg Bool.false_ne_true, Option.or_none]
      exact heq found

/-- What is opened in front of members: nothing, or a section of their level. -/
inductive Opens (access : Access) : String → List Tree → Prop
  | nothing {before : String} (h : before = "" ∨ before = "\n") : Opens access before []
  | specifier (gap : String) (h : squash gap = []) (m : Tree)
      (hkind : (m.kind == .accessSpec) = true) (hm : Section.begunBy m = .plain access) :
      Opens access (gap ++ access.text ++ ":\n") [m]

/-- The name of an access level and a colon are read as a specifier of that level. -/
theorem exists_specifier (access : Access) :
    ∃ m ∈ (parse ("class A \x7b\n" ++ access.text ++ ":\n\x7d;\n")).tree.preorder,
      (m.kind == .accessSpec) = true ∧ Section.begunBy m = .plain access := by
  cases access <;> decide +kernel

namespace Opens

variable {before gap : String} {opened ms : List Tree}

theorem squash_ne (access : Access) (gap : String) :
    squash (gap ++ access.text ++ ":\n") ≠ [] := by
  rw [squash_append, squash_append]
  intro h
  exact absurd (List.append_eq_nil_iff.mp h).2 (by decide)

theorem nonempty (h : Opens access (gap ++ access.text ++ ":\n") opened) : opened ≠ [] := by
  generalize hbefore : gap ++ access.text ++ ":\n" = before at h
  cases h with
  | nothing h =>
    refine absurd ?_ (squash_ne access gap)
    rcases h with rfl | rfl <;> rw [hbefore] <;> decide
  | specifier => exact List.cons_ne_nil _ _

theorem each (h : Opens access before opened) {s : Section}
    (hs : opened = [] → s = .plain access) (hms : ∀ m ∈ ms, (m.kind == .accessSpec) = false) :
    s.each (opened ++ ms) = .replicate (opened.length + ms.length) (.plain access) := by
  cases h with
  | nothing =>
    rw [hs rfl, List.nil_append, Section.each_members hms, List.length_nil, Nat.zero_add]
  | specifier _ _ m hkind hm =>
    rw [List.singleton_append, Section.each, Section.next_specifier hkind, hm,
      Section.each_members hms, List.length_singleton, Nat.add_comm]
    rfl

end Opens

/-- The place is where the last section of the level ends, or at the closing brace. -/
theorem find?_spec (h : find? text lines cls access width = some place) :
    ∃ list brace found, Class.members? cls = some list ∧ list.closeBrace? = some brace ∧
      (Section.plain (Class.defaultAccess cls)).LastEnd access list.items found ∧
      place.offset =
        placeBefore lines (Text.lineStartIfBlank text lines brace.offset) (found.getD []) ∧
      ((found.isSome = true ∧ (place.before = "" ∨ place.before = "\n")) ∨
        (found = none ∧ ∃ gap, squash gap = [] ∧ place.before = gap ++ access.text ++ ":\n")) := by
  obtain ⟨list, hlist, h⟩ := Option.bind_eq_some_iff.mp h
  obtain ⟨brace, hbrace, h⟩ := Option.bind_eq_some_iff.mp h
  obtain ⟨found, hlast, heq⟩ := sectionEnd_eq lines access
    (Text.lineStartIfBlank text lines brace.offset) (.plain (Class.defaultAccess cls)) list.items
  refine ⟨list, brace, found, hlist, hbrace, hlast, ?_⟩
  have hstart : (Class.defaultAccess cls == access) =
      (Section.plain (Class.defaultAccess cls) == .plain access) := by
    rw [Bool.eq_iff_iff, beq_iff_eq, beq_iff_eq, Section.plain, Section.plain, Section.mk.injEq,
      and_iff_left rfl]
  dsimp only at h
  rw [hstart, heq none, Option.or_none] at h
  obtain ⟨lineBreak, hbreak, hcases⟩ : ∃ lineBreak,
      (if Text.hasCodeBefore text lines brace.offset then "\n" else "") = lineBreak ∧
        (lineBreak = "" ∨ lineBreak = "\n") := by
    split
    · exact ⟨_, rfl, .inr rfl⟩
    · exact ⟨_, rfl, .inl rfl⟩
  rw [hbreak] at h
  generalize Text.lineStartIfBlank text lines brace.offset = close at h ⊢
  cases found with
  | some behind =>
    obtain rfl := Option.some.inj h
    refine ⟨rfl, .inl ⟨rfl, ?_⟩⟩
    dsimp only
    split
    · exact hcases
    · exact .inl rfl
  | none =>
    obtain rfl := Option.some.inj h
    refine ⟨rfl, .inr ⟨rfl, _, ?_, rfl⟩⟩
    rcases hcases with rfl | rfl <;> split <;> decide

/-- If specifiers begin lines, nothing but blanks is between the place and what stands behind. -/
theorem place_spec (hlist : IsTreeOf text list) (hbrace : list.closeBrace? = some brace)
    (hends : Section.Ends behind) (hmem : ∀ m ∈ behind, m ∈ list.items)
    (hlines : ∀ m ∈ list.items, (m.kind == .accessSpec) = true →
      Text.hasCodeBefore text (.ofText text) m.span.start = false) :
    let place := placeBefore (.ofText text)
      (Text.lineStartIfBlank text (.ofText text) brace.offset) behind
    place ≤ stopOf brace behind ∧ Text.isBoundary text place = true ∧
      Text.isBoundary text (stopOf brace behind) = true ∧
      squash (Text.slice text ⟨place, stopOf brace behind⟩) = [] := by
  cases hends with
  | close =>
    have ho := (hlist.part (Tree.mem_parts_of_lastToken? hbrace)).isBoundary_start
    simp only [placeBefore, stopOf]
    exact ⟨Text.lineStartIfBlank_le .., Text.isBoundary_lineStartIfBlank ho, ho,
      Text.squash_lineStartIfBlank ..⟩
  | specifier m ms hm =>
    have hitem := hmem m List.mem_cons_self
    have ho := (hlist.part (List.mem_filter.mp hitem).1).isBoundary_start
    simp only [placeBefore, stopOf]
    exact ⟨LineIndex.lineStart_le .., LineIndex.isBoundary_lineStart .., ho,
      squash_of_not_hasCodeBefore (hlines m hitem hm)⟩

/-- A place between the items of a class: in front of what ends the last section of the access
level, or of the closing brace, with nothing but blanks between and inside of the same nodes. New
members stand there in sections of the level, and the old ones in those they stood in. -/
structure Placed (text : String) (cls list : Tree) (brace : Token) (access : Access)
    (place : MemberInsertion) (front behind : List Tree) : Prop where
  items : list.items = front ++ behind
  last : ∃ found, (Section.plain (Class.defaultAccess cls)).LastEnd access list.items found ∧
    found.getD [] = behind
  blank : squash (Text.slice text ⟨place.offset, stopOf brace behind⟩) = []
  inside : ∀ t, IsTreeOf text t → Text.trim t.text = t.text →
    (t.span.IsAround place.offset ↔ t.span.IsAround (stopOf brace behind))
  opens : ∃ opened, Opens access place.before opened
  sections : ∀ opened ms, Opens access place.before opened →
    (∀ m ∈ ms, (m.kind == .accessSpec) = false) →
      (Section.plain (Class.defaultAccess cls)).each (front ++ (opened ++ ms) ++ behind) =
        (Section.plain (Class.defaultAccess cls)).each front ++
          .replicate (opened.length + ms.length) (.plain access) ++
            ((Section.plain (Class.defaultAccess cls)).each list.items).drop front.length

/-- If the access specifiers of a class begin lines, members are put between its items. -/
theorem find?_placed (hcls : IsTreeOf text cls)
    (h : find? text (.ofText text) cls access width = some place)
    (hlines : ∀ list, Class.members? cls = some list → ∀ m ∈ list.items,
      (m.kind == .accessSpec) = true →
        Text.hasCodeBefore text (.ofText text) m.span.start = false) :
    ∃ list brace front behind, Class.members? cls = some list ∧
      list.closeBrace? = some brace ∧ Placed text cls list brace access place front behind := by
  obtain ⟨list, brace, found, hlist, hbrace, hlast, hoffset, hbefore⟩ := find?_spec h
  obtain ⟨front, hitems, hends, haccess⟩ := hlast.split
  have hlist' : IsTreeOf text list := hcls.child hlist
  have hmem (m : Tree) (hm : m ∈ found.getD []) : m ∈ list.items :=
    hitems ▸ List.mem_append_right front hm
  obtain ⟨hle, hplace, hstop, hblank⟩ := place_spec hlist' hbrace hends hmem (hlines list hlist)
  rw [← hoffset] at hle hplace hblank
  refine ⟨list, brace, front, found.getD [], hlist, hbrace, hitems, ⟨found, hlast, rfl⟩, hblank,
    fun t ht htrim => ?_, ?_, fun opened ms hopened hms => ?_⟩
  · rw [← ht.slice] at htrim
    exact Text.isAround_iff_of_blank hplace hstop hle hblank ht.isBoundary_start ht.isBoundary_stop
      htrim
  · rcases hbefore with ⟨-, hbefore⟩ | ⟨-, gap, hgap, hbefore⟩
    · exact ⟨[], .nothing hbefore⟩
    · obtain ⟨m, -, hkind, hm⟩ := exists_specifier access
      exact ⟨[m], hbefore ▸ .specifier gap hgap m hkind hm⟩
  · rw [Section.each_insert _ hends, ← hitems, hopened.each ?_ hms]
    intro hnil
    rcases hbefore with ⟨hsome, -⟩ | ⟨-, gap, -, hbefore⟩
    · exact haccess hsome
    · rw [hbefore] at hopened
      exact absurd hnil hopened.nonempty

/-- A class that has the new members at the place declares them at the access level, and the old
ones each at its own. -/
theorem Placed.declares (h : Placed text cls list brace access place front behind)
    (hopened : Opens access place.before opened) (hms : ∀ m ∈ ms, (m.kind == .accessSpec) = false)
    (hinside : ∀ m ∈ front ++ (opened ++ ms) ++ behind, m.BeginsSection → m.kind = .accessSpec)
    (p : Declare.Place) (n : Nat) :
    let s := Section.plain (Class.defaultAccess cls)
    Declare.withAccess (some (Class.defaultAccess cls))
        ((front ++ (opened ++ ms) ++ behind).forM fun m => Declare.visit (n + 1) p (.ofItem m)) =
      ((s.each front ++ .replicate (opened.length + ms.length) (.plain access) ++
          (s.each list.items).drop front.length).zip (front ++ (opened ++ ms) ++ behind)).forM
        fun (level, m) =>
          Declare.withAccess (some level.access) (Declare.visit (n + 1) p (.ofItem m)) := by
  intro s
  rw [← h.sections opened ms hopened hms]
  exact Declare.withAccess_members p n _ s hinside

/-- Where members go in the first class of a text. -/
def placeIn? (text : String) (access : Access) : Option MemberInsertion := do
  let cls ← (parse text).tree.preorder.find? (·.kind == .classSpec)
  find? text (.ofText text) cls access 4

example : placeIn? "class A \x7b\npublic:\n    int a;\nprivate:\n    int b;\n\x7d;\n" .pub =
    some ⟨29, "", "    "⟩ := by
  decide +kernel

/-- The public section of a class on one line ends at the start of that line, before the class. A
member that is put there is a global variable. -/
theorem member_before_class :
    let text := "class A \x7b public: int a; private: int b; \x7d;\n"
    let place : MemberInsertion := ⟨0, "", "    "⟩
    let t := (RemoveUsing.snapshotOf (place.render ["int c;"] ++ text)).symbols
    placeIn? text .pub = some place ∧ (t.symbol 1).name = "c" ∧
      (t.symbol 1).kind = .variableKind ∧ t.owner? 1 = some SymbolTable.global := by
  decide +kernel

end MemberInsertion

end CppRefactor
