import CppRefactor.Proofs.Syntax.Apart
import CppRefactor.Symbols.Declare

/-!
Where the names that a declaration declares stand in its tree: each in a part that has none of the
scopes and other names of the declaration in it.
-/

namespace CppRefactor

theorem Tree.isChild_of_child? {t : Tree} (h : t.child? k = some u) : u.isChild k = true :=
  List.find?_some (p := isChild k) h

theorem Tree.isChild_of_childrenOf {t : Tree} (h : u ∈ t.childrenOf k) :
    u ∈ t.parts ∧ u.isChild k = true :=
  List.mem_filter.mp h

theorem Tree.kind_of_isChild {t : Tree} (h : t.isChild k = true) :
    t.isNode = true ∧ t.kind = k := by
  obtain ⟨s, ts, rfl⟩ := isChild_iff.mp h
  exact ⟨rfl, rfl⟩

theorem Tree.isChild_kind {t : Tree} (h : u ∈ t.parts) : t.isChild t.kind = true := by
  cases t with
  | token => cases h
  | node k s ts => exact isChild_iff.mpr ⟨s, ts, rfl⟩

theorem Tree.mem_parts_of_tokens {t : Tree} (h : w ∈ t.tokens) : .token w ∈ t.parts := by
  obtain ⟨u, hu, hw⟩ := List.mem_filterMap.mp h
  cases u with
  | token w' => exact Option.some.inj hw ▸ hu
  | node => cases hw

namespace IsTreeOf

variable {text : String} {t u v : Tree}

theorem tokens_start (h : IsTreeOf text t) (hw : w ∈ t.tokens) : w.span.start ∈ t.span.offsets := by
  have hpart := Tree.mem_parts_of_tokens hw
  exact (h.part_within hpart).offsets (h.part hpart).token_start

theorem apart_of_kind (h : IsTreeOf text t) (hu : u ∈ t.parts) (hv : v ∈ t.parts)
    (hk : u.kind ≠ v.kind) : Disjoint u.span.offsets v.span.offsets :=
  h.apart hu hv fun he => hk (he ▸ rfl)

/-- The start of what begins with a token is in none of the nodes below. -/
theorem start_mem (h : IsTreeOf text t) (hk : t.isChild k = true) (hhead : k.isHeaded = true) :
    t.span.start ∈ t.span.offsets ∧
      ∀ u ∈ t.parts, u.isNode = true → t.span.start ∉ u.span.offsets := by
  obtain ⟨s, ts, rfl⟩ := Tree.isChild_iff.mp hk
  obtain ⟨w, rest, rfl⟩ := h.headed hhead
  have hw : IsTreeOf text (.token w) := h.part List.mem_cons_self
  have hstart : w.span.start = s.start := h.tiled.1
  constructor
  · exact (h.part_within List.mem_cons_self).offsets (hstart ▸ hw.token_start)
  · intro u hu hnode hmem
    rcases List.mem_cons.mp hu with rfl | hu
    · cases hnode
    · exact absurd (h.start_lt rfl hu) (Nat.not_lt.mpr hmem.1)

end IsTreeOf

namespace Declare

variable {text : String} {t u outer : Tree}

/-- The name of a class or an enumeration is in none of the nodes below but its name. -/
theorem typeName_start (h : IsTreeOf text t) (hk : t.isChild k = true) (hhead : k.isHeaded = true) :
    (typeName t).2.start ∈ t.span.offsets ∧
      ∀ u ∈ t.parts, u.isNode = true → u.kind ≠ .qualifiedName →
        (typeName t).2.start ∉ u.span.offsets := by
  unfold typeName
  split
  · rename_i segment hs
    obtain ⟨name, hname, hs⟩ := Option.bind_eq_some_iff.mp hs
    have hpart := Tree.mem_parts_of_child? hname
    have hmem := (h.part hpart).last?_start hs
    refine ⟨(h.part_within hpart).offsets hmem, fun u hu _ hk => ?_⟩
    have hd := h.apart_of_kind hpart hu
      ((Tree.kind_of_isChild (Tree.isChild_of_child? hname)).2 ▸ hk.symm)
    exact Set.disjoint_left.mp hd hmem
  · obtain ⟨hmem, hapart⟩ := h.start_mem hk hhead
    exact ⟨hmem, fun u hu hn _ => hapart u hu hn⟩

theorem mem_of_nameIn (h : TemplateParameter.nameIn angle name ts = some w) :
    name = some w ∨ w ∈ ts := by
  induction ts generalizing angle name with
  | nil => exact .inl h
  | cons u ts ih =>
    rw [List.mem_cons]
    unfold TemplateParameter.nameIn at h
    split at h
    · exact (ih h).imp_right .inr
    · exact (ih h).imp_right .inr
    · split at h
      · exact .inl h
      · exact (ih h).imp_right .inr
    · rcases ih h with h | h
      · split at h
        · exact .inr (.inl (Option.some.inj h).symm)
        · exact .inl h
      · exact .inr (.inr h)
    · exact (ih h).imp_right .inr

theorem templateParameter_start (h : IsTreeOf text t) (hw : TemplateParameter.name? t = some w) :
    w.span.start ∈ t.span.offsets :=
  h.tokens_start ((mem_of_nameIn hw).resolve_left nofun)

/-- The offsets of the first part of a kind. -/
def childOffsets (k : Kind) (t : Tree) : Set Nat :=
  {o | ∃ u, t.child? k = some u ∧ o ∈ u.span.offsets}

theorem childOffsets_of (h : t.child? k = some u) : childOffsets k t = u.span.offsets := by
  simp [childOffsets, h]

theorem childOffsets_subset (h : IsTreeOf text t) (k : Kind) : childOffsets k t ⊆ t.span.offsets :=
  fun _ ⟨_, hu, ho⟩ => (h.part_within (Tree.mem_parts_of_child? hu)).offsets ho

theorem childOffsets_apart (h : IsTreeOf text t) (hu : u ∈ t.parts) (hk : u.kind ≠ k) :
    Disjoint (childOffsets k t) u.span.offsets := by
  refine Set.disjoint_left.mpr fun o ⟨v, hv, ho⟩ => Set.disjoint_left.mp ?_ ho
  have hkind := (Tree.kind_of_isChild (Tree.isChild_of_child? hv)).2
  exact h.apart_of_kind (Tree.mem_parts_of_child? hv) hu (hkind ▸ hk.symm)

/-- The offsets of the parameters of a template. -/
def templateNames (outer : Tree) : Set Nat :=
  {o | outer.kind = .templateDecl ∧ o ∈ childOffsets .templateParamList outer}

theorem templateNames_subset (h : IsTreeOf text outer) : templateNames outer ⊆ outer.span.offsets :=
  fun _ ho => childOffsets_subset h _ ho.2

theorem templateNames_apart (h : IsTreeOf text outer) (hu : u ∈ outer.parts)
    (hk : u.kind ≠ .templateParamList) : Disjoint (templateNames outer) u.span.offsets :=
  (childOffsets_apart h hu hk).mono_left fun _ => And.right

/-- The segments of a name that a declarator declares are not among its parameters. -/
theorem segment_start (h : IsTreeOf text t) (hname : Declarator.name? t = some name)
    (hs : s ∈ Name.segments name) :
    s.span.start ∈ t.span.offsets \ childOffsets .paramList t := by
  obtain ⟨part, hpart, hmem, hk⟩ := Declarator.mem_of_name? hname
  have hstart := ((h.part hpart).inside hmem).segments_pairwise.2 s hs
  have hin := ((h.part hpart).within hmem).offsets hstart
  exact ⟨(h.part_within hpart).offsets hin,
    Set.disjoint_right.mp (childOffsets_apart h hpart hk) hin⟩

/-- The names of the namespaces that are defined together, one in the other. -/
def namespaceNames (t : Tree) : List (String × Span) :=
  let names := ((t.name?.map Name.segments).getD []).map fun s => (s.text, s.span)
  if names.isEmpty then [("", .point t.span.start)] else names

/-- They start one behind the other, and in none of the nodes below but the name. -/
theorem namespaceNames_start (h : IsTreeOf text t) (hk : t.isChild .namespaceDef = true) :
    ((namespaceNames t).map (·.2.start)).Pairwise (· < ·) ∧
      ∀ x ∈ namespaceNames t, x.2.start ∈ t.span.offsets ∧
        ∀ u ∈ t.parts, u.isNode = true → u.kind ≠ .qualifiedName → x.2.start ∉ u.span.offsets := by
  unfold namespaceNames
  dsimp only
  split
  · refine ⟨List.pairwise_singleton _ _, fun x hx => ?_⟩
    obtain rfl := List.mem_singleton.mp hx
    obtain ⟨hmem, hapart⟩ := h.start_mem hk rfl
    exact ⟨hmem, fun u hu hn _ => hapart u hu hn⟩
  · cases hname : t.name? with
    | none => exact ⟨.nil, nofun⟩
    | some name =>
      have hpart := Tree.mem_parts_of_child? hname
      have hkind := (Tree.kind_of_isChild (Tree.isChild_of_child? hname)).2
      obtain ⟨hpairs, hmem⟩ := (h.part hpart).segments_pairwise
      refine ⟨?_, fun x hx => ?_⟩
      · rw [Option.map_some, Option.getD_some, List.map_map]
        exact hpairs
      · obtain ⟨s, hs, rfl⟩ := List.mem_map.mp hx
        refine ⟨(h.part_within hpart).offsets (hmem s hs), fun u hu _ hk => ?_⟩
        exact Set.disjoint_left.mp (h.apart_of_kind hpart hu (hkind ▸ hk.symm)) (hmem s hs)

end Declare

end CppRefactor
