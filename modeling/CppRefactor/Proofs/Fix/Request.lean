import CppRefactor.Fix.Request
import CppRefactor.Proofs.Edit.Overlap
import CppRefactor.Proofs.Fix.RemoveUsing
import CppRefactor.Proofs.Syntax.Cursors

/-!
Requests on the documents of a project: the nodes around the spot are trees of the text.
-/

namespace CppRefactor

theorem Changeset.editsAt_editFile_add (c : Changeset) (s : Snapshot) (file : FileId) (e : Edit)
    (path : Path) :
    (c.editFile s file (·.add e)).editsAt path =
      c.editsAt path ++ if RemoveUsing.pathOf s file = path then [e] else [] :=
  Changeset.editsAt_edit_add c _ _ e path

theorem of_bind_eq_ok {x : Except ε α} {g : α → Except ε β} (h : x >>= g = .ok b) :
    ∃ a, x = .ok a ∧ g a = .ok b := by
  cases x with
  | error e => cases h
  | ok a => exact ⟨a, rfl, h⟩

theorem of_orError {o : Option α} (h : orError e o = .ok a) : o = some a := by
  cases o with
  | none => cases h
  | some b =>
    cases h
    rfl

variable {s : Snapshot} {id : FileId}

namespace Snapshot

/-- The trees of the files are those of their texts. -/
def Parsed (s : Snapshot) : Prop := ∀ f ∈ s.files, f.parse = parse f.text

theorem ofDocuments_parsed (searchPaths : List Path) (headers : List Header)
    (documents : PathMap Document) : (ofDocuments searchPaths headers documents).Parsed := by
  intro f hf
  obtain ⟨⟨p, d⟩, -, rfl⟩ := List.mem_map.mp (List.mem_toArray.mp hf)
  rfl

theorem ofDocuments_lines {paths : List Path} {headers : List Header}
    (h : f ∈ (ofDocuments paths headers documents).files) : f.lines = .ofText f.text := by
  obtain ⟨⟨p, d⟩, -, rfl⟩ := List.mem_map.mp (List.mem_toArray.mp h)
  rfl

theorem Parsed.isTreeOf (h : s.Parsed) (hfile : s.file? id = some f)
    {c : Cursor} (hc : c.Within f.tree) : IsTreeOf f.text c.focus := by
  have hparse : f.parse = parse f.text := h f (Array.mem_of_getElem? hfile)
  rw [IsTreeOf, ← hparse]
  exact hc.focus

theorem file_of_file? (h : s.file? id = some f) : s.file id = f := by
  rw [Snapshot.file, Array.getD_eq_getD_getElem?, ← file?, h]
  rfl

end Snapshot

namespace Request

/-- A request in a file of a parsed snapshot, at a spot of its tree. -/
structure Sound (r : Request) : Prop where
  parsed : r.snapshot.Parsed
  found : r.snapshot.file? r.file = some r.source
  within : ∀ c ∈ r.spot.around, c.Within r.source.tree

theorem atOffset_sound (hs : s.Parsed) (h : atOffset s look id o = some r) : r.Sound := by
  obtain ⟨f, hf, h⟩ := Option.bind_eq_some_iff.mp h
  cases h
  have hsource : s.file id = f := Snapshot.file_of_file? hf
  refine ⟨hs, hf.trans (congrArg some hsource.symm), fun c hc => ?_⟩
  rw [source, hsource]
  exact Spot.ofRoot_within hc

theorem ofSelection_snapshot (h : ofSelection s look id span = some r) : r.snapshot = s := by
  unfold ofSelection at h
  split at h
  · obtain ⟨f, -, h⟩ := Option.bind_eq_some_iff.mp h
    cases h
    rfl
  · obtain ⟨f, -, h⟩ := Option.bind_eq_some_iff.mp h
    cases h
    rfl

theorem ofSelection_sound (hs : s.Parsed) (h : ofSelection s look id span = some r) :
    r.Sound := by
  unfold ofSelection at h
  split at h
  · exact atOffset_sound hs h
  · obtain ⟨f, hf, h⟩ := Option.bind_eq_some_iff.mp h
    cases h
    have hsource : s.file id = f := Snapshot.file_of_file? hf
    refine ⟨hs, hf.trans (congrArg some hsource.symm), fun c hc => ?_⟩
    rw [source, hsource]
    exact Spot.ofRoot_within hc

theorem kind_of_find? {r : Request} {c : Cursor} (hc : r.find? k = some c) :
    (c.kind == k) = true :=
  List.find?_some (p := fun d : Cursor => d.kind == k) hc

namespace Sound

theorem isTreeOf {r : Request} (h : r.Sound) {c : Cursor} (hc : c.Within r.source.tree) :
    IsTreeOf r.text c.focus :=
  h.parsed.isTreeOf h.found hc

theorem source_mem {r : Request} (h : r.Sound) : r.source ∈ r.snapshot.files :=
  Array.mem_of_getElem? h.found

theorem find {r : Request} (h : r.Sound) (hc : r.find? k = some c) : c.Within r.source.tree :=
  h.within c (List.mem_of_find?_eq_some hc)

end Sound

/-- The texts that changes make of the documents of the snapshot. -/
def textsAfter? (r : Request) (c : Changeset) : Option (List (String × String)) :=
  (c.preview fun path => (r.snapshot.idOf? path).map fun id =>
    (r.snapshot.file id).document).toOption

/-- What the fixes that are offered at an offset of a file make of the texts. -/
def textsOffered (offers : Request → Except FixError (List φ)) (changes : Request → φ → Changeset)
    (s : Snapshot) (file : FileId) (offset : Nat) : List (Option (List (String × String))) :=
  match atOffset s {} file offset with
  | none => []
  | some r => ((offers r).toOption.getD []).map fun f => r.textsAfter? (changes r f)

end Request

end CppRefactor
