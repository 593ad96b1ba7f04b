import CppRefactor.Proofs.Symbols.Naming
import CppRefactor.Proofs.Symbols.Sections
import Mathlib.Data.List.Induction

/-!
The access level at a place in the body of a class: that of the last specifier before it. Specifiers
stand directly in the body, or behind templates there; inside of anything else there is none.
-/

namespace CppRefactor

namespace Tree

variable {t u : Tree}

theorem mem_items : u ∈ t.items ↔ u ∈ t.parts ∧ u.isItem = true := List.mem_filter

theorem mem_items_of_item? (h : t.item? = some u) : u ∈ t.items :=
  mem_items.mpr ⟨List.mem_of_find?_eq_some h, List.find?_some h⟩

theorem depth_le_depthOf {ts : List Tree} (h : u ∈ ts) : u.depth ≤ depthOf ts := by
  induction ts with
  | nil => cases h
  | cons t ts ih =>
    rw [depthOf]
    rcases List.mem_cons.mp h with rfl | h
    · exact Nat.le_max_left ..
    · exact Nat.le_trans (ih h) (Nat.le_max_right ..)

theorem depth_lt (h : u ∈ t.parts) : u.depth < t.depth := by
  cases t with
  | token => cases h
  | node k s ts => exact Nat.lt_succ_of_le (depth_le_depthOf h)

theorem depth_pos (h : t.isNode = true) : 0 < t.depth := by
  cases t with
  | token => cases h
  | node => exact Nat.succ_pos _

theorem withoutTemplates_of_kind (h : t.kind ≠ .templateDecl) : t.withoutTemplates = t := by
  unfold withoutTemplates
  split
  · exact absurd rfl h
  · rfl

theorem itemWithoutTemplates?_eq (ts : List Tree) :
    itemWithoutTemplates? ts = (ts.find? isItem).map withoutTemplates := by
  induction ts with
  | nil => rfl
  | cons t ts ih =>
    rw [itemWithoutTemplates?, List.find?_cons, ih]
    cases t.isItem <;> rfl

theorem withoutTemplates_template (h : t.kind = .templateDecl) (hu : t.item? = some u) :
    t.withoutTemplates = u.withoutTemplates := by
  cases t with
  | token w => cases hu
  | node k s ts =>
    subst h
    have hfind : ts.find? isItem = some u := hu
    rw [withoutTemplates, itemWithoutTemplates?_eq, hfind]
    rfl

theorem withoutTemplates_nil (h : t.item? = none) : t.withoutTemplates = t := by
  by_cases hk : t.kind = .templateDecl
  · cases t with
    | token w => rfl
    | node k s ts =>
      subst hk
      have hfind : ts.find? isItem = none := h
      rw [withoutTemplates, itemWithoutTemplates?_eq, hfind]
      rfl
  · exact withoutTemplates_of_kind hk

/-- Templates nest, so what holds of an item if it holds of the item in it holds of each. -/
theorem templates_induction {P : Tree → Prop}
    (here : ∀ t, t.withoutTemplates = t → P t)
    (template : ∀ t u, t.kind = .templateDecl → t.item? = some u → P u → P t) (t : Tree) : P t := by
  induction hn : t.depth using Nat.strongRecOn generalizing t with
  | _ n ih =>
    by_cases hk : t.kind = .templateDecl
    · cases hu : t.item? with
      | none => exact here t (withoutTemplates_nil hu)
      | some u =>
        have hlt := depth_lt (List.mem_of_find?_eq_some hu)
        exact template t u hk hu (ih u.depth (hn ▸ hlt) u rfl)
    · exact here t (withoutTemplates_of_kind hk)

theorem withoutTemplates_mem (t : Tree) : t.withoutTemplates ∈ t.preorder := by
  induction t using templates_induction with
  | here t ht => exact ht.symm ▸ t.self_mem_preorder
  | template t u hk hu ih =>
    rw [withoutTemplates_template hk hu]
    exact mem_preorder_trans (mem_preorder_of_mem_parts (List.mem_of_find?_eq_some hu)) ih

/-- The item is an access specifier, perhaps behind templates. -/
def specifies (t : Tree) : Bool := t.withoutTemplates.kind == .accessSpec

theorem specifies_template (h : t.kind = .templateDecl) (hu : t.item? = some u) :
    t.specifies = u.specifies := by
  rw [specifies, withoutTemplates_template h hu, specifies]

theorem specifies_of_kind (h : t.kind ≠ .templateDecl) :
    t.specifies = (t.kind == .accessSpec) := by
  rw [specifies, withoutTemplates_of_kind h]

end Tree

theorem Outline.Plain.specifies {p : Outline} (hp : p.Plain) {f : Feed} (ht : t ∈ (p.weave f).1)
    (hitem : t.isItem = true) : t.specifies = false := by
  induction hp generalizing f t with
  | word =>
    obtain ⟨w, rfl⟩ := of_mem_next ht
    cases hitem
  | gap => cases ht
  | @node k ps hk _ ih =>
    obtain ⟨s, rfl⟩ := of_mem_weave_node ht
    by_cases htemplate : k = .templateDecl
    · subst htemplate
      cases hu : (Tree.node .templateDecl s (weaveAll ps f).1).item? with
      | none =>
        rw [Tree.specifies, Tree.withoutTemplates_nil hu]
        rfl
      | some u =>
        rw [Tree.specifies_template rfl hu]
        obtain ⟨hpart, hitem⟩ := Tree.mem_items.mp (Tree.mem_items_of_item? hu)
        rcases of_mem_weaveAll hpart with ⟨w, -, rfl⟩ | ⟨p, hp, g, hmem, -⟩
        · cases hitem
        · exact ih rfl p hp hmem hitem
    · exact (Tree.specifies_of_kind (t := .node k s _) htemplate).trans (beq_false_of_ne hk)

namespace IsTreeOf

variable {text : String} {t u : Tree}

/-- The items of a namespace or a linkage specification specify no level. -/
theorem item_specifies (h : IsTreeOf text t) (hk : t.kind.isPlain = true) (hu : u ∈ t.items) :
    u.specifies = false := by
  obtain ⟨hpart, hitem⟩ := Tree.mem_items.mp hu
  cases t with
  | token w => cases hpart
  | node k s ts =>
    obtain ⟨ps, f, hform, -, rfl⟩ := h.form (by rintro rfl; cases hk)
    have hplain : ∀ p ∈ ps, p.Plain := by
      unfold Outline.HasForm at hform
      split at hform
      all_goals first | exact hform | cases hk | simp_all [Tree.kind, Kind.isPlain]
    rcases Outline.of_mem_weaveAll hpart with ⟨w, -, rfl⟩ | ⟨p, hp, g, hmem, -⟩
    · cases hitem
    · exact (hplain p hp).specifies hmem hitem

theorem specifies_of_beginsSection (h : IsTreeOf text t) (ht : t.BeginsSection) :
    t.specifies = true := by
  induction ht with
  | here ht =>
    rw [Tree.specifies_of_kind (ht ▸ nofun)]
    exact beq_iff_eq.mpr ht
  | @inside t u hcarries _ ih =>
    cases hcarries with
    | item hk hu =>
      have hmem := Tree.mem_items_of_item? hu
      have hspecifies := ih (h.part (Tree.mem_items.mp hmem).1)
      rcases hk with hk | hk
      · rwa [Tree.specifies_template hk hu]
      · exact absurd hspecifies (Bool.eq_false_iff.mp (h.item_specifies (hk ▸ rfl) hmem))
    | list hk body hbody hu =>
      have hbodyTree := h.child hbody
      have hplain := (Tree.kind_of_isChild (Tree.isChild_of_child? hbody)).2
      have hspecifies := ih (hbodyTree.part (Tree.mem_items.mp hu).1)
      exact absurd hspecifies (Bool.eq_false_iff.mp
        (hbodyTree.item_specifies (hplain ▸ rfl) hu))

end IsTreeOf

theorem Section.behind_concat (s : Section) (ms : List Tree) (m : Tree) :
    s.behind (ms ++ [m]) = (s.behind ms).next m :=
  List.foldl_append

namespace Class

/-- The access specifiers in the body of a class. -/
def specifiers (list : Tree) : List Tree :=
  (list.items.map Tree.withoutTemplates).filter (·.kind == .accessSpec)

/-- The access level of what is declared at an offset of the body of a class: that of the last
specifier before, or the one that the key of the class gives. -/
def levelAt (c list : Tree) (offset : Nat) : Access :=
  (((specifiers list).filter (·.span.stop ≤ offset)).getLast?.map AccessSection.access).getD
    (defaultAccess c)

/-- The section behind items, some of which may stand behind templates. -/
def sectionBehind (c : Tree) (ms : List Tree) : Section :=
  (Section.plain (defaultAccess c)).behind (ms.map Tree.withoutTemplates)

theorem sectionBehind_concat (c : Tree) (ms : List Tree) (m : Tree) :
    sectionBehind c (ms ++ [m]) = (sectionBehind c ms).next m.withoutTemplates := by
  rw [sectionBehind, List.map_append]
  exact Section.behind_concat ..

end Class

theorem Section.behind_access (s : Section) (ms : List Tree) : (s.behind ms).access =
    ((ms.filter (·.kind == .accessSpec)).getLast?.map AccessSection.access).getD s.access := by
  induction ms using List.reverseRecOn with
  | nil => rfl
  | append_singleton ms m ih =>
    rw [behind_concat, List.filter_append]
    cases hm : m.kind == .accessSpec with
    | true =>
      rw [next_specifier hm, List.filter_cons, if_pos hm]
      simp [begunBy]
    | false =>
      rw [next_member hm, ih, List.filter_cons, if_neg (Bool.eq_false_iff.mp hm)]
      simp

namespace IsTreeOf

variable {text : String} {t c list m : Tree} {front back : List Tree} {offset : Nat}

/-- The level at a place of an item that specifies none is that of the section behind the items
before. -/
theorem levelAt_item (h : IsTreeOf text list) (hitems : list.items = front ++ m :: back)
    (hm : m.specifies = false) (ho : offset ∈ m.span.offsets) (c : Tree) :
    Class.levelAt c list offset = (Class.sectionBehind c front).access := by
  have hpairs : (front ++ m :: back).Pairwise fun u v => u.span.stop ≤ v.span.start :=
    hitems ▸ h.tiled.pairwise.sublist List.filter_sublist
  have htree : ∀ u ∈ front ++ m :: back, IsTreeOf text u := fun u hu =>
    h.part (Tree.mem_items.mp (hitems ▸ hu)).1
  have hinner {u : Tree} (hu : u ∈ front ++ m :: back) :
      u.withoutTemplates.span.Within u.span ∧
        u.withoutTemplates.span.start ≤ u.withoutTemplates.span.stop := by
    have hmem := u.withoutTemplates_mem
    exact ⟨(htree u hu).within hmem, ((htree u hu).inside hmem).tiled.start_le_stop⟩
  obtain ⟨-, hbehind, hcross⟩ := List.pairwise_append.mp hpairs
  have hfront : ∀ u ∈ front.map Tree.withoutTemplates, u.span.stop ≤ offset := by
    intro u hu
    obtain ⟨v, hv, rfl⟩ := List.mem_map.mp hu
    have hle := hcross v hv m List.mem_cons_self
    exact Nat.le_trans (hinner (List.mem_append_left _ hv)).1.2 (Nat.le_trans hle ho.1)
  have hback : ∀ u ∈ back.map Tree.withoutTemplates, offset < u.span.stop := by
    intro u hu
    obtain ⟨v, hv, rfl⟩ := List.mem_map.mp hu
    have hle := (List.pairwise_cons.mp hbehind).1 v hv
    obtain ⟨hwithin, hstop⟩ := hinner (List.mem_append_right _ (List.mem_cons_of_mem m hv))
    exact Nat.lt_of_lt_of_le ho.2 (Nat.le_trans hle (Nat.le_trans hwithin.1 hstop))
  have hspecifiers : (Class.specifiers list).filter (·.span.stop ≤ offset) =
      (front.map Tree.withoutTemplates).filter (·.kind == .accessSpec) := by
    have hkeep : ((front.map Tree.withoutTemplates).filter (·.kind == .accessSpec)).filter
        (·.span.stop ≤ offset) = (front.map Tree.withoutTemplates).filter (·.kind == .accessSpec) :=
      List.filter_eq_self.mpr fun u hu => decide_eq_true (hfront u (List.mem_filter.mp hu).1)
    have hdrop : ((back.map Tree.withoutTemplates).filter (·.kind == .accessSpec)).filter
        (·.span.stop ≤ offset) = [] :=
      List.filter_eq_nil_iff.mpr fun u hu hle =>
        absurd (of_decide_eq_true hle) (Nat.not_le.mpr (hback u (List.mem_filter.mp hu).1))
    have hself : (m.withoutTemplates.kind == .accessSpec) = false := hm
    rw [Class.specifiers, hitems, List.map_append, List.map_cons, List.filter_append,
      List.filter_cons, hself, List.filter_append, hkeep, if_neg nofun, hdrop, List.append_nil]
  rw [Class.levelAt, Class.sectionBehind, Section.behind_access, hspecifiers]
  rfl

end IsTreeOf

end CppRefactor
