import CppRefactor.Proofs.Project.Normalized
import CppRefactor.Proofs.Text.Slices
import CppRefactor.Project.IncludeGraph

/-!
Paths as directives spell them. What is left of a path behind a directory is read back from its
spelling, and joined with the directory it is the path again. So the path is among those at which
the file of the directive is looked for, and the file is found there unless one stands at an earlier
path.
-/

namespace CppRefactor

/-- A component that stands in a path behind its root. A name is not empty and has no slash, and
dots alone are no name. -/
def Component.Plain : Component → Prop
  | .root | .here => False
  | .up => True
  | .name s => '/' ∉ s.toList ∧ s ≠ "" ∧ s ≠ "." ∧ s ≠ ".."

theorem Component.Plain.slash_notMem {c : Component} (h : c.Plain) : '/' ∉ c.text.toList := by
  cases c with
  | root => exact h.elim
  | here => exact h.elim
  | up => decide
  | name s => exact h.1

theorem Component.Plain.text_ne {c : Component} (h : c.Plain) : c.text ≠ "" ∧ c.text ≠ "." := by
  cases c with
  | root => exact h.elim
  | here => exact h.elim
  | up => decide
  | name s => exact ⟨h.2.1, h.2.2.1⟩

namespace Path

theorem pieces_eq (cs : List Char) : pieces cs = cs.splitOn '/' := by
  induction cs with
  | nil => rfl
  | cons c cs ih =>
    obtain ⟨first, rest, hcs⟩ := List.exists_cons_of_ne_nil (List.splitOn_ne_nil '/' cs)
    simp only [pieces, List.splitOn_cons_eq_if_modifyHead, ih, hcs, beq_iff_eq,
      List.modifyHead_cons]

theorem pieces_intercalate {texts : List String} (hn : texts ≠ [])
    (h : ∀ t ∈ texts, '/' ∉ t.toList) :
    (pieces ("/".intercalate texts).toList).map String.ofList = texts := by
  have hslash : "/".toList = ['/'] := rfl
  rw [pieces_eq, String.toList_intercalate, hslash,
    List.splitOn_intercalate '/' (List.forall_mem_map.mpr h) (by simpa using hn), List.map_map]
  simp [Function.comp_def]

theorem piece?_text {c : Component} (h : c.Plain) : piece? c.text = some c := by
  cases c with
  | root => exact h.elim
  | here => exact h.elim
  | up => rfl
  | name s =>
    obtain ⟨-, hempty, hhere, hup⟩ := h
    simp [piece?, Component.text, hempty, hhere, hup]

theorem plain_of_piece? {piece : String} (hp : piece? piece = some c) (h : '/' ∉ piece.toList) :
    c.Plain := by
  unfold piece? at hp
  split at hp
  · cases hp
  · split at hp
    · cases hp
      trivial
    · cases hp
      simp_all [Component.Plain]

theorem filterMap_piece? {cs : List Component} (h : ∀ c ∈ cs, c.Plain) :
    (cs.map Component.text).filterMap piece? = cs := by
  induction cs with
  | nil => rfl
  | cons c cs ih =>
    rw [List.map_cons, List.filterMap_cons_some (piece?_text (h c List.mem_cons_self)),
      ih fun d hd => h d (.tail _ hd)]

/-- Plain components, the first of which may be the root instead. -/
structure Proper (cs : List Component) : Prop where
  plain : ∀ c ∈ cs, c = .root ∨ c.Plain
  root_first : .root ∉ cs.tail

namespace Proper

theorem of_plain (h : ∀ c ∈ cs, Component.Plain c) : Proper cs where
  plain c hc := .inr (h c hc)
  root_first hr := h .root (List.mem_of_mem_tail hr)

theorem rest (h : Proper (c :: cs)) : ∀ d ∈ cs, d.Plain := by
  intro d hd
  obtain rfl | hplain := h.plain d (.tail c hd)
  · exact absurd hd h.root_first
  · exact hplain

theorem here_notMem (h : Proper cs) : .here ∉ cs := by
  intro hmem
  obtain hroot | hplain := h.plain .here hmem
  · cases hroot
  · exact hplain

theorem left (h : Proper (ds ++ cs)) : Proper ds where
  plain c hc := h.plain c (List.mem_append_left cs hc)
  root_first hr := by
    cases ds with
    | nil => cases hr
    | cons d ds => exact h.root_first (List.mem_append_left cs hr)

theorem right (h : Proper (ds ++ cs)) : Proper cs where
  plain c hc := h.plain c (List.mem_append_right ds hc)
  root_first hr := by
    cases ds with
    | nil => exact h.root_first hr
    | cons d ds => exact h.root_first (List.mem_append_right ds (List.mem_of_mem_tail hr))

theorem concat (h : Proper cs) (hc : c.Plain) : Proper (cs ++ [c]) where
  plain d hd := by
    obtain hd | hd := List.mem_append.mp hd
    · exact h.plain d hd
    · rw [List.mem_singleton.mp hd]
      exact .inr hc
  root_first hr := by
    cases cs with
    | nil => cases hr
    | cons d ds =>
      obtain hr | hr := List.mem_append.mp hr
      · exact h.root_first hr
      · rw [← List.mem_singleton.mp hr] at hc
        exact hc

theorem push {stack : List Component} {c : Component} (h : Proper stack.reverse) (hc : c.Plain) :
    Proper (Path.push stack c).reverse := by
  have hconcat : Proper (c :: stack).reverse := by
    rw [List.reverse_cons]
    exact h.concat hc
  cases c with
  | root => exact hc.elim
  | here => exact hc.elim
  | name s => exact hconcat
  | up =>
    cases stack with
    | nil => exact hconcat
    | cons d stack =>
      rw [List.reverse_cons] at h
      cases d with
      | root => exact hconcat
      | here => exact h.left
      | up => exact h.left
      | name s => exact h.left

theorem foldl_push {stack cs : List Component} (h : Proper stack.reverse)
    (hcs : ∀ c ∈ cs, c.Plain) : Proper (cs.foldl Path.push stack).reverse := by
  induction cs generalizing stack with
  | nil => exact h
  | cons c cs ih => exact ih (h.push (hcs c List.mem_cons_self)) fun d hd => hcs d (.tail c hd)

end Proper

theorem proper_normalize_ofString (text : String) :
    Proper (ofString text).normalize.components := by
  have hrest : ∀ c ∈ ((pieces text.toList).map String.ofList).filterMap piece?, c.Plain := by
    intro c hc
    obtain ⟨piece, hpiece, hc⟩ := List.mem_filterMap.mp hc
    obtain ⟨cs, hcs, rfl⟩ := List.mem_map.mp hpiece
    refine plain_of_piece? hc ?_
    rw [String.toList_ofList]
    rw [pieces_eq] at hcs
    exact Text.notMem_of_mem_splitOn hcs
  have hnil : Proper ([] : List Component).reverse := .of_plain nofun
  have hroot : Proper [Component.root].reverse := by
    refine ⟨fun c hc => ?_, List.not_mem_nil⟩
    exact .inl (List.mem_singleton.mp hc)
  unfold ofString normalize
  dsimp only
  split
  · exact hroot.foldl_push hrest
  · rw [List.foldl_cons]
    exact hnil.foldl_push hrest
  · exact hnil.foldl_push hrest

theorem slashed_plain {cs : List Component} (h : ∀ c ∈ cs, c.Plain) :
    slashed ⟨cs⟩ = "/".intercalate (cs.map Component.text) := by
  refine congrArg _ (List.map_congr_left fun c hc => if_neg ?_)
  rintro rfl
  exact h .root hc

theorem pieces_slashed {c : Component} {cs : List Component} (h : ∀ d ∈ c :: cs, d.Plain) :
    (pieces (slashed ⟨c :: cs⟩).toList).map String.ofList = (c :: cs).map Component.text := by
  rw [slashed_plain h]
  refine pieces_intercalate (List.cons_ne_nil _ _) fun t ht => ?_
  obtain ⟨d, hd, rfl⟩ := List.mem_map.mp ht
  exact (h d hd).slash_notMem

/-- A proper path is read back from its spelling. The root is spelled as a slash between slashes,
which starts the text of a path from the root as well. -/
theorem ofString_slashed {p : Path} (h : Proper p.components) : ofString p.slashed = p := by
  obtain ⟨cs⟩ := p
  cases cs with
  | nil => rfl
  | cons c cs =>
    obtain rfl | hc := h.plain c List.mem_cons_self
    · cases cs with
      | nil => decide
      | cons d cs =>
        have hslashed : slashed ⟨.root :: d :: cs⟩ = "/" ++ "/" ++ slashed ⟨d :: cs⟩ := by
          simp [slashed]
        have hpieces : pieces (slashed ⟨.root :: d :: cs⟩).toList =
            [] :: [] :: pieces (slashed ⟨d :: cs⟩).toList := by
          rw [hslashed]
          simp [pieces]
        have hrest := filterMap_piece? h.rest
        rw [← pieces_slashed h.rest] at hrest
        simp only [ofString, hpieces, List.map_cons]
        exact congrArg (fun cs => Path.mk (.root :: cs)) hrest
    · have hplain : ∀ d ∈ c :: cs, d.Plain := by
        intro d hd
        obtain rfl | hd := List.mem_cons.mp hd
        · exact hc
        · exact h.rest d hd
      simp only [ofString, pieces_slashed hplain, filterMap_piece? hplain]
      split
      · rename_i hempty
        exact absurd (List.cons.inj hempty).1 hc.text_ne.1
      · rename_i hhere
        exact absurd (List.cons.inj hhere).1 hc.text_ne.2
      · rfl

theorem append_of_behind? (h : behind? ds cs = some rest) : cs = ds ++ rest := by
  induction ds generalizing cs with
  | nil => exact Option.some.inj h
  | cons d ds ih =>
    cases cs with
    | nil => cases h
    | cons c cs =>
      rw [behind?] at h
      split at h
      · rename_i hdc
        rw [ih h, hdc, List.cons_append]
      · cases h

theorem append_of_from? {p dir rest : Path} (h : p.from? dir = some rest) :
    p.components = dir.components ++ rest.components := by
  obtain ⟨cs, hcs, rfl⟩ := Option.map_eq_some_iff.mp h
  exact append_of_behind? hcs

theorem join_of_from? {p dir rest : Path} (hp : Proper p.components)
    (h : p.from? dir = some rest) : dir.join rest = p := by
  have happend := append_of_from? h
  rw [happend] at hp
  have hmk : p = ⟨dir.components ++ rest.components⟩ := by
    rw [← happend]
  rw [join, hmk]
  split
  · rename_i habsolute
    cases hdir : dir.components with
    | nil => rfl
    | cons d ds =>
      rw [hdir] at hp
      have hroot : .root ∈ rest.components := List.mem_of_mem_head? (beq_iff_eq.mp habsolute)
      exact absurd (List.mem_append_right ds hroot) hp.root_first
  · have hhere := hp.right.here_notMem
    rw [List.filter_eq_self.mpr fun c hc => ?_]
    rw [bne_iff_ne]
    rintro rfl
    exact hhere hc

end Path

namespace Include

/-- The characters around the path of a directive. -/
def delimiters : IncludeKind → Char × Char
  | .quoted => ('"', '"')
  | .system => ('<', '>')

theorem toList_spell (kind : IncludeKind) (path : String) :
    (spell kind path).toList =
      (delimiters kind).1 :: (path.toList ++ [(delimiters kind).2]) := by
  cases kind <;> simp [spell, delimiters]

theorem upTo?_append {close : Char} {cs : List Char} (h : close ∉ cs) :
    upTo? close (cs ++ [close]) = some (.ofList cs) := by
  have htake : (cs ++ [close]).takeWhile (· != close) = cs := by
    rw [List.takeWhile_append_of_pos fun c hc => bne_iff_ne.mpr (ne_of_mem_of_not_mem hc h)]
    simp
  rw [upTo?, if_pos (by simp), htake]

theorem skip?_append (word : String) (cs : List Char) :
    skip? word (word.toList ++ cs) = some (Text.trimFront cs) := by
  simp [skip?, Text.dropStart?]

theorem parse_spell {kind : IncludeKind} {path : String}
    (h : (delimiters kind).2 ∉ path.toList) :
    parse ("#include " ++ spell kind path) = some (kind, path) := by
  have hopen : Text.isBlank (delimiters kind).1 = false := by cases kind <;> decide
  have hhash : skip? "#" (Text.trimFront ("#include " ++ spell kind path).toList) =
      some ("include".toList ++ ' ' :: (spell kind path).toList) := by
    have hchars : ("#include " ++ spell kind path).toList =
        "#".toList ++ ("include".toList ++ ' ' :: (spell kind path).toList) := by
      simp
    rw [hchars]
    exact skip?_append _ _
  have hnext : skip? "include_next" ("include".toList ++ ' ' :: (spell kind path).toList) =
      none := by
    simp [skip?, Text.dropStart?]
  have hword : skip? "include" ("include".toList ++ ' ' :: (spell kind path).toList) =
      some ((delimiters kind).1 :: (path.toList ++ [(delimiters kind).2])) := by
    have hspace : Text.isBlank ' ' = true := by decide
    rw [skip?_append, toList_spell, Text.trimFront, List.dropWhile_cons_of_pos hspace,
      List.dropWhile_cons_of_neg (by simp [hopen])]
  have hupTo := upTo?_append h
  rw [String.ofList_toList] at hupTo
  simp only [parse, hhash, hnext, hword, Option.bind_eq_bind, Option.bind_some, Option.none_or,
    Option.some_or]
  cases kind with
  | quoted => exact congrArg (Option.bind · fun p => some (IncludeKind.quoted, p)) hupTo
  | system => exact congrArg (Option.bind · fun p => some (IncludeKind.system, p)) hupTo
end Include

namespace IncludeGraph

variable {searchPaths paths : List Path} {including header dir rest : Path} {i : Include}

/-- A spelling of what is left of a path behind a directory leads from there to the path. -/
theorem normalize_join_ofString (hp : Path.Proper header.components)
    (hn : header.normalize = header) (h : header.from? dir = some rest)
    (hpath : i.path = rest.slashed) : (dir.join (Path.ofString i.path)).normalize = header := by
  have hrest : Path.Proper rest.components := by
    rw [Path.append_of_from? h] at hp
    exact hp.right
  rw [hpath, Path.ofString_slashed hrest, Path.join_of_from? hp h, hn]

theorem mem_candidates (hp : Path.Proper header.components) (hn : header.normalize = header)
    (h : header.from? dir = some rest) (hpath : i.path = rest.slashed)
    (hdir : dir ∈ searchPaths) : header ∈ candidates searchPaths including i :=
  List.mem_map.mpr ⟨dir, List.mem_append_right _ hdir, normalize_join_ofString hp hn h hpath⟩

theorem candidates_quoted (hp : Path.Proper header.components)
    (hn : header.normalize = header) (h : header.from? dir = some rest)
    (hpath : i.path = rest.slashed) (hdir : including.parent? = some dir)
    (hkind : i.kind = .quoted) :
    ∃ later, candidates searchPaths including i = header :: later := by
  simp only [candidates, hkind, hdir, Option.toList_some, List.cons_append, List.map_cons,
    normalize_join_ofString hp hn h hpath]
  exact ⟨_, rfl⟩

theorem findIdx?_path_eq_none {p : Path} : paths.findIdx? (· == p) = none ↔ p ∉ paths := by
  rw [List.findIdx?_eq_none_iff]
  exact ⟨fun h hp => by simpa using h p hp, fun h q hq => beq_false_of_ne fun he => h (he ▸ hq)⟩

theorem findIdx?_path_inj {p q : Path} (hp : paths.findIdx? (· == p) = some k)
    (hq : paths.findIdx? (· == q) = some k) : p = q := by
  obtain ⟨_, hp, -⟩ := List.findIdx?_eq_some_iff_getElem.mp hp
  obtain ⟨_, hq, -⟩ := List.findIdx?_eq_some_iff_getElem.mp hq
  exact (beq_iff_eq.mp hp).symm.trans (beq_iff_eq.mp hq)

/-- A file is found at a path exactly if none stands at a path that comes before it. -/
theorem resolve?_iff (hmem : header ∈ paths) (h : header ∈ candidates searchPaths including i) :
    resolve? searchPaths paths including i = paths.findIdx? (· == header) ↔
      ∀ p ∈ (candidates searchPaths including i).takeWhile (· != header), p ∉ paths := by
  obtain ⟨n, hn⟩ := Option.ne_none_iff_exists'.mp (mt findIdx?_path_eq_none.mp (not_not_intro hmem))
  rw [resolve?, hn]
  generalize candidates searchPaths including i = tried at h
  induction tried with
  | nil => cases h
  | cons p tried ih =>
    by_cases hp : p = header
    · simp [hp, hn]
    · have htail : header ∈ tried := (List.mem_cons.mp h).resolve_left (Ne.symm hp)
      have hwhile : (p :: tried).takeWhile (· != header) =
          p :: tried.takeWhile (· != header) :=
        List.takeWhile_cons_of_pos (bne_iff_ne.mpr hp)
      rw [hwhile, List.forall_mem_cons, ← ih htail, List.findSome?_cons, ← findIdx?_path_eq_none]
      cases hk : paths.findIdx? (· == p) with
      | none => simp
      | some k =>
        have hne : k ≠ n := by
          rintro rfl
          exact hp (findIdx?_path_inj hk hn)
        simp [hne]

end IncludeGraph

end CppRefactor
