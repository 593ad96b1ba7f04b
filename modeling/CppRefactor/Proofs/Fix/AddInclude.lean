import CppRefactor.Fix.AddInclude
import CppRefactor.Proofs.Fix.Request
import CppRefactor.Proofs.Project.Closure
import CppRefactor.Proofs.Project.Spelling
import CppRefactor.Proofs.Symbols.Seen

/-!
The include that is offered for a document leads to the document, unless another document stands at
a path that is tried before. Then it leads to that one, and the name is still not known.
-/

namespace CppRefactor

namespace AddInclude

variable {searchPaths : List Path} {directory header including : Path} {a : AddInclude}

theorem of_spelling? (h : spelling? searchPaths directory header = some a) :
    ∃ dir rest, header.from? dir = some rest ∧ a.path = rest.slashed ∧
      (a.kind = .quoted ∧ dir = directory ∨ a.kind = .system ∧ dir ∈ searchPaths) := by
  have hquoted {rest : Path} (hrest : header.from? directory = some rest)
      (ha : a = ⟨.quoted, rest.slashed⟩) :
      ∃ dir rest, header.from? dir = some rest ∧ a.path = rest.slashed ∧
        (a.kind = .quoted ∧ dir = directory ∨ a.kind = .system ∧ dir ∈ searchPaths) := by
    subst ha
    exact ⟨directory, rest, hrest, rfl, .inl ⟨rfl, rfl⟩⟩
  unfold spelling? at h
  split at h
  · rename_i hbeside
    exact hquoted hbeside (Option.some.inj h).symm
  · dsimp only at h
    split at h
    · rename_i path hleast
      obtain ⟨rest, hrest, rfl⟩ := List.mem_map.mp (SymbolTable.leastBy_mem hleast)
      obtain ⟨dir, hdir, hfrom⟩ := List.mem_filterMap.mp hrest
      cases h
      exact ⟨dir, rest, hfrom, rfl, .inr ⟨rfl, hdir⟩⟩
    · obtain ⟨rest, hrest, ha⟩ := Option.map_eq_some_iff.mp h
      exact hquoted hrest ha.symm

/-- A directive with what is offered for a path leads to the path, unless it is between angle
brackets and there is a document at a path that is tried before. -/
theorem resolve?_spelling {paths : List Path} {i : Include}
    (ha : spelling? searchPaths directory header = some a)
    (hp : Path.Proper header.components) (hn : header.normalize = header)
    (hdir : including.parent? = some directory) (hmem : header ∈ paths)
    (hkind : i.kind = a.kind) (hpath : i.path = a.path) :
    IncludeGraph.resolve? searchPaths paths including i = paths.findIdx? (· == header) ↔
      (a.kind = .system →
        ∀ p ∈ (IncludeGraph.candidates searchPaths including i).takeWhile (· != header),
          p ∉ paths) := by
  obtain ⟨dir, rest, hfrom, hrest, hcase⟩ := of_spelling? ha
  have hspelled : i.path = rest.slashed := hpath.trans hrest
  obtain ⟨hquoted, rfl⟩ | ⟨hsystem, hsearch⟩ := hcase
  · obtain ⟨later, hfirst⟩ := IncludeGraph.candidates_quoted hp hn hfrom hspelled hdir
      (hkind.trans hquoted)
    rw [IncludeGraph.resolve?_iff hmem (hfirst ▸ List.mem_cons_self), hfirst]
    simp [hquoted]
  · rw [IncludeGraph.resolve?_iff hmem
      (IncludeGraph.mem_candidates hp hn hfrom hspelled hsearch)]
    simp [hsystem]

theorem of_mem_declaringFiles {s : Snapshot} {file id : FileId} {names : List String}
    (h : id ∈ declaringFiles s file names) : (s.file id).path ∈ s.files.toList.map (·.path) := by
  have hlt : id < s.files.size := List.mem_range.mp (List.mem_filter.mp h).1
  refine List.mem_map.mpr ⟨s.file id, ?_, rfl⟩
  rw [Snapshot.file, Array.getD_eq_getD_getElem?, Array.getElem?_eq_getElem hlt]
  exact Array.getElem_mem_toList hlt

/-- What is offered for a document that declares a name is read back from the directive. The
directive leads to the document, unless it is between angle brackets and there is another document
at a path that is tried before. -/
theorem offered_leads {s : Snapshot} {file id : FileId} {names : List String} {text : String}
    (hid : id ∈ declaringFiles s file names)
    (hpath : (s.file id).path = (Path.ofString text).normalize)
    (hdir : (s.file file).path.parent? = some directory)
    (ha : spelling? s.searchPaths directory (s.file id).path = some a)
    (hends : (Include.delimiters a.kind).2 ∉ a.path.toList) :
    Include.parse ("#include " ++ Include.spell a.kind a.path) = some (a.kind, a.path) ∧
      ∀ i : Include, i.kind = a.kind → i.path = a.path →
        let paths := s.files.toList.map (·.path)
        let tried := IncludeGraph.candidates s.searchPaths (s.file file).path i
        IncludeGraph.resolve? s.searchPaths paths (s.file file).path i =
            s.idOf? (s.file id).path ↔
          (a.kind = .system → ∀ p ∈ tried.takeWhile (· != (s.file id).path), p ∉ paths) := by
  refine ⟨Include.parse_spell hends, fun i hkind hspelled => ?_⟩
  have hp : Path.Proper (s.file id).path.components :=
    hpath ▸ Path.proper_normalize_ofString text
  have hn : (s.file id).path.normalize = (s.file id).path := by
    rw [hpath, Path.normalize_normalize]
  have hleads := resolve?_spelling ha hp hn hdir (of_mem_declaringFiles hid) hkind hspelled
  have hplace : s.idOf? (s.file id).path =
      (s.files.toList.map (·.path)).findIdx? (· == (s.file id).path) := by
    rw [Snapshot.idOf?, List.findIdx?_map]
    exact List.findIdx?_toArray ..
  rw [hplace]
  exact hleads

theorem sees_of_directive {headers : List Header} {documents : PathMap Document}
    {file target : FileId} {f : SourceFile} {i : Include} :
    let s := Snapshot.ofDocuments searchPaths headers documents
    s.file? file = some f → i ∈ f.includes →
      IncludeGraph.resolve? searchPaths (s.files.toList.map (·.path)) f.path i = some target →
      s.symbols.isSeenFrom file target = true := by
  intro s hfile hi hres
  refine isSeenFrom_iff.mpr ?_
  by_cases hself : target = file
  · rw [hself]
  · have hnames : IncludeGraph.Names searchPaths (s.files.toList.map fun f => (f.path, f.includes))
        file target := by
      refine ⟨f.path, f.includes, ?_, i, hi, ?_⟩
      · rw [List.getElem?_map, Array.getElem?_toList, ← Snapshot.file?, hfile]
        rfl
      · rw [List.map_map]
        exact hres
    exact .single (IncludeGraph.includes_iff.mpr ⟨hself, hnames⟩)

/-- A file without includes beside two headers, the second of which has the name that the first has
from the second search path. Only the first one declares something. -/
def withHeaders (text : String) : Snapshot :=
  let w := (Workspace.ofSearchPaths none [.ofString "/inc", .ofString "/inc/lib"]).set
    (.ofString "/a.cpp") text
  let w := w.2.set (.ofString "/inc/lib/x.h") "class B \x7b\x7d;\n"
  (w.2.set (.ofString "/inc/x.h") "").2.snapshot

/-- The shortest path from a search path is `x.h`, but from the search path before it the path leads
to another header. The class is still unknown, and the same is offered again. -/
theorem header_shadowed :
    let before := withHeaders "B b;\n"
    let after := withHeaders "#include <x.h>\n\nB b;\n"
    Request.textsOffered offers changes before 0 0 =
        [some [("/a.cpp", "#include <x.h>\n\nB b;\n")]] ∧
      declaringFiles before 0 ["B"] = [1] ∧ after.graph.includes 0 = [2] ∧
      Request.textsOffered offers changes after 0 16 =
        [some [("/a.cpp", "#include <x.h>\n#include <x.h>\n\nB b;\n")]] := by
  decide +kernel

end AddInclude

end CppRefactor
