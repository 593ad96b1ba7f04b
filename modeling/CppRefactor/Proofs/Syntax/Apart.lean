import CppRefactor.Proofs.Syntax.Functions
import Mathlib.Data.List.Pairwise
import Mathlib.Data.Set.Lattice
import Mathlib.Order.CompletePartialOrder

/-!
What stands where in the tree of a text. Two parts of a node have no offset in common, every token
has one, and the segments of a name begin one behind the other.
-/

namespace CppRefactor

namespace Span

/-- The offsets of the bytes of a span. -/
def offsets (s : Span) : Set Nat := {o | s.start ≤ o ∧ o < s.stop}

/-- The span lies inside another one. -/
def Within (s t : Span) : Prop := t.start ≤ s.start ∧ s.stop ≤ t.stop

theorem Within.refl (s : Span) : s.Within s := ⟨Nat.le_refl _, Nat.le_refl _⟩

theorem Within.trans {s t u : Span} (h : s.Within t) (h' : t.Within u) : s.Within u :=
  ⟨Nat.le_trans h'.1 h.1, Nat.le_trans h.2 h'.2⟩

theorem Within.offsets {s t : Span} (h : s.Within t) : s.offsets ⊆ t.offsets :=
  fun _ ho => ⟨Nat.le_trans h.1 ho.1, Nat.lt_of_lt_of_le ho.2 h.2⟩

theorem disjoint_offsets {s t : Span} (h : s.stop ≤ t.start) : Disjoint s.offsets t.offsets :=
  Set.disjoint_left.mpr fun _ ho ho' =>
    absurd (Nat.lt_of_lt_of_le ho.2 h) (Nat.not_lt.mpr ho'.1)

end Span

namespace Tree

theorem Tiles.pairwise (h : Tiles start ts stop) :
    ts.Pairwise fun t u => t.span.stop ≤ u.span.start := by
  induction ts generalizing start with
  | nil => exact List.Pairwise.nil
  | cons t ts ih =>
    obtain ⟨-, -, h⟩ := h
    refine List.pairwise_cons.mpr ⟨fun u hu => ?_, ih h⟩
    obtain ⟨front, behind, rfl⟩ := List.append_of_mem hu
    exact h.split.1.le

theorem Tiled.pairwise {t : Tree} (h : t.Tiled) :
    t.parts.Pairwise fun u v => u.span.stop ≤ v.span.start := by
  cases t with
  | token => exact List.Pairwise.nil
  | node k s ts => exact Tiles.pairwise h

mutual

theorem mem_leaves {t : Tree} (h : .token w ∈ t.preorder) : w ∈ t.leaves := by
  cases t with
  | token t =>
    cases List.mem_singleton.mp h
    exact List.mem_singleton_self w
  | node k s ts =>
    rw [preorder_node, List.mem_cons] at h
    rw [leaves_node]
    exact mem_flatMap_leaves (h.resolve_left nofun)

theorem mem_flatMap_leaves {ts : List Tree} (h : .token w ∈ ts.flatMap preorder) :
    w ∈ ts.flatMap leaves := by
  cases ts with
  | nil => cases h
  | cons t ts =>
    rw [List.flatMap_cons, List.mem_append] at h ⊢
    exact h.imp mem_leaves mem_flatMap_leaves

end

end Tree

theorem Consecutive.lt_stop (h : Consecutive offset ts) (hw : w ∈ ts) : w.offset < w.stop := by
  induction ts generalizing offset with
  | nil => cases hw
  | cons t ts ih =>
    obtain ⟨-, ht, h⟩ := h
    rcases List.mem_cons.mp hw with rfl | hw
    · have hpos : w.text.utf8ByteSize ≠ 0 := fun h0 => ht (String.utf8ByteSize_eq_zero_iff.mp h0)
      exact Nat.lt_add_of_pos_right (Nat.pos_of_ne_zero hpos)
    · exact ih h hw

namespace IsTreeOf

variable {text : String} {t u v : Tree}

theorem within (h : IsTreeOf text t) (hu : u ∈ t.preorder) : u.span.Within t.span :=
  h.encloses hu

theorem part_within (h : IsTreeOf text t) (hu : u ∈ t.parts) : u.span.Within t.span :=
  h.within (Tree.mem_preorder_of_mem_parts hu)

theorem token_start (h : IsTreeOf text (.token w)) : w.span.start ∈ w.span.offsets := by
  have hw := Tree.mem_leaves h
  rw [parse, parseTokens_leaves] at hw
  exact ⟨Nat.le_refl _, (tokenize_consecutive text).lt_stop hw⟩

theorem apart (h : IsTreeOf text t) (hu : u ∈ t.parts) (hv : v ∈ t.parts) (hne : u ≠ v) :
    Disjoint u.span.offsets v.span.offsets := by
  have hpairs : t.parts.Pairwise fun u v => Disjoint u.span.offsets v.span.offsets :=
    h.tiled.pairwise.imp Span.disjoint_offsets
  have : Std.Symm fun u v : Tree => Disjoint u.span.offsets v.span.offsets :=
    ⟨fun _ _ hd => hd.symm⟩
  exact hpairs.forall hu hv hne

theorem pairwise_disjoint (h : IsTreeOf text t) {us : List Tree} (hus : us.Sublist t.parts) :
    us.Pairwise fun u v => Disjoint u.span.offsets v.span.offsets :=
  (h.tiled.pairwise.sublist hus).imp Span.disjoint_offsets

/-- The token that a node begins with stands before all its other parts. -/
theorem start_lt (h : IsTreeOf text t) (ht : t.parts = .token w :: rest) (hu : u ∈ rest) :
    t.span.start < u.span.start := by
  have htiles : Tree.Tiles t.span.start ([] ++ .token w :: rest) t.span.stop := h.tiled.parts ht
  have hstart : w.offset = t.span.start := htiles.1
  have hw : IsTreeOf text (.token w) := h.part (ht ▸ List.mem_cons_self)
  have hpairs := h.tiled.pairwise
  rw [ht] at hpairs
  have hlt : w.offset < w.stop := hw.token_start.2
  exact hstart ▸ Nat.lt_of_lt_of_le hlt ((List.pairwise_cons.mp hpairs).1 u hu)

end IsTreeOf

namespace Name

namespace Reading

/-- Where segments, and what may become one, start, the last first. -/
def starts (r : Reading) : List Nat :=
  (r.operator.map (·.2.start)).toList ++ (r.tilde.map (·.start)).toList ++
    r.found.map (·.span.start)

/-- The segments start one behind the other, between two offsets. -/
structure Between (r : Reading) (first stop : Nat) : Prop where
  pairwise : r.starts.Pairwise (· > ·)
  mem : ∀ o ∈ r.starts, first ≤ o ∧ o < stop

namespace Between

variable {r r' : Reading}

theorem mono (h : r.Between first lo) (hlo : lo ≤ hi) : r.Between first hi :=
  ⟨h.pairwise, fun o ho => ⟨(h.mem o ho).1, Nat.lt_of_lt_of_le (h.mem o ho).2 hlo⟩⟩

theorem sublist (h : r.Between first lo) (hr : r'.starts.Sublist r.starts) :
    r'.Between first lo :=
  ⟨h.pairwise.sublist hr, fun o ho => h.mem o (hr.subset ho)⟩

theorem cons (h : r.Between first lo) (hfirst : first ≤ lo) (hlo : lo < hi)
    (hr : r'.starts.Sublist (lo :: r.starts)) : r'.Between first hi := by
  have hcons : (lo :: r.starts).Pairwise (· > ·) :=
    List.pairwise_cons.mpr ⟨fun o ho => (h.mem o ho).2, h.pairwise⟩
  refine ⟨hcons.sublist hr, fun o ho => ?_⟩
  rcases List.mem_cons.mp (hr.subset ho) with rfl | ho
  · exact ⟨hfirst, hlo⟩
  · exact ⟨(h.mem o ho).1, Nat.lt_trans (h.mem o ho).2 hlo⟩

theorem cover (h : r.Between first lo) (hop : r.operator = some (text, span)) (hlo : lo ≤ s.start) :
    Reading.starts { r with operator := some (text', span.cover s) } = r.starts := by
  have hmem : span.start ∈ r.starts := by simp [starts, hop]
  have hmin : min span.start s.start = span.start :=
    Nat.min_eq_left (Nat.le_trans (Nat.le_of_lt (h.mem _ hmem).2) hlo)
  simp [starts, hop, Span.cover, hmin]

theorem token (h : r.Between first t.offset) (hfirst : first ≤ t.offset) (ht : t.offset < t.stop) :
    (r.token t).Between first t.stop := by
  unfold Reading.token
  split
  · rename_i text span hop
    refine (h.mono (Nat.le_of_lt ht)).sublist ?_
    exact (h.cover hop (s := t.span) (Nat.le_refl t.offset)) ▸ List.Sublist.refl _
  · rename_i hop
    split
    · refine h.cons hfirst ht ?_
      simp [starts, hop, Token.span]
    · refine h.cons hfirst ht ?_
      split
      · rename_i tilde htilde
        have hmem : tilde.start ∈ r.starts := by simp [starts, htilde]
        have hmin : min tilde.start t.offset = tilde.start :=
          Nat.min_eq_left (Nat.le_of_lt (h.mem _ hmem).2)
        simp [starts, hop, htilde, Span.cover, Token.span, hmin]
      · rename_i htilde
        simp [starts, hop, htilde, Token.span]
    · refine h.cons hfirst ht ?_
      simp [starts, hop, Token.span]
    · exact h.mono (Nat.le_of_lt ht)

theorem part {t : Tree} (h : r.Between first t.span.start) (hfirst : first ≤ t.span.start)
    (ht : t.Tiled) (hpos : ∀ w, t = .token w → w.offset < w.stop) :
    (r.part t).Between first t.span.stop := by
  cases t with
  | token w =>
    rw [Reading.part]
    split
    · exact h.mono (Nat.le_of_lt (hpos w rfl))
    · exact h.token hfirst (hpos w rfl)
  | node k s ts =>
    have h' := h.mono ht.start_le_stop
    rw [Reading.part]
    split
    · split
      · rename_i last rest hfound
        refine h'.sublist ?_
        simp [starts, hfound]
      · exact h'
    · split
      · rename_i text span hop
        refine h'.sublist ?_
        exact (h.cover hop (s := s) (Nat.le_refl s.start)) ▸ List.Sublist.refl _
      · exact h'

theorem foldl {ts : List Tree} (h : r.Between first lo) (hfirst : first ≤ lo)
    (hts : Tree.Tiles lo ts hi) (hpos : ∀ w, .token w ∈ ts → w.offset < w.stop) :
    (ts.foldl Reading.part r).Between first hi := by
  induction ts generalizing r lo with
  | nil => exact hts ▸ h
  | cons t ts ih =>
    obtain ⟨rfl, ht, hts⟩ := hts
    refine ih (h.part hfirst ht ?_) (Nat.le_trans hfirst ht.start_le_stop) hts fun w hw =>
      hpos w (List.mem_cons_of_mem t hw)
    rintro w rfl
    exact hpos w List.mem_cons_self

end Between

end Reading

end Name

namespace IsTreeOf

/-- The segments of a name start one behind the other, inside the name. -/
theorem segments_pairwise (h : IsTreeOf text name) :
    ((Name.segments name).map (·.span.start)).Pairwise (· < ·) ∧
      ∀ s ∈ Name.segments name, s.span.start ∈ name.span.offsets := by
  have hempty : (⟨[], none, none⟩ : Name.Reading).Between name.span.start name.span.start :=
    ⟨List.Pairwise.nil, nofun⟩
  have hread : (name.parts.foldl Name.Reading.part ⟨[], none, none⟩).Between
      name.span.start name.span.stop := by
    cases name with
    | token w => exact hempty.mono h.tiled.start_le_stop
    | node k s ts =>
      exact hempty.foldl (Nat.le_refl _) h.tiled fun w hw => (h.part hw).token_start.2
  have hstarts : ((Name.segments name).map (·.span.start)).Sublist
      (name.parts.foldl Name.Reading.part ⟨[], none, none⟩).starts.reverse := by
    unfold Name.segments
    dsimp only
    split
    · rename_i hop
      simp [Name.Reading.starts, hop]
    · simp [Name.Reading.starts]
  refine ⟨(List.pairwise_reverse.mpr hread.pairwise).sublist hstarts, fun s hs => ?_⟩
  exact hread.mem _ (List.mem_reverse.mp (hstarts.subset (List.mem_map_of_mem hs)))

theorem last?_start (h : IsTreeOf text name) (hs : Name.last? name = some s) :
    s.span.start ∈ name.span.offsets :=
  h.segments_pairwise.2 s (List.mem_of_mem_getLast? hs)

end IsTreeOf

namespace Declarator

theorem name?_node (h : name? (.node k s ts) = some name) :
    (name ∈ ts ∧ name.kind = .qualifiedName) ∨ nestedName? ts = some name := by
  rw [name?, Option.or_eq_some_iff] at h
  refine h.imp (fun h => ⟨List.mem_of_find?_eq_some h, ?_⟩) And.right
  have hk := List.find?_some h
  simp only [Bool.and_eq_true, beq_iff_eq] at hk
  exact hk.2

mutual

theorem mem_of_nestedName? {ts : List Tree} (h : nestedName? ts = some name) :
    ∃ p ∈ ts, name ∈ p.preorder ∧ p.kind = .nestedDeclarator := by
  cases ts with
  | nil => cases h
  | cons t ts =>
    have hrest (h : nestedName? ts = some name) :
        ∃ p ∈ t :: ts, name ∈ p.preorder ∧ p.kind = .nestedDeclarator := by
      obtain ⟨p, hp, hname⟩ := mem_of_nestedName? h
      exact ⟨p, List.mem_cons_of_mem t hp, hname⟩
    cases t with
    | token => exact hrest h
    | node k s us =>
      by_cases hk : k = .nestedDeclarator
      · subst hk
        refine ⟨_, List.mem_cons_self, ?_, rfl⟩
        rw [Tree.preorder_node]
        exact List.mem_cons_of_mem _ (mem_of_innerName? (show innerName? us = some name from h))
      · rw [nestedName?.eq_3 _ _ fun s' us' he => hk (Tree.node.inj he).1] at h
        exact hrest h

theorem mem_of_innerName? {ts : List Tree} (h : innerName? ts = some name) :
    name ∈ ts.flatMap Tree.preorder := by
  cases ts with
  | nil => cases h
  | cons t ts =>
    rw [List.flatMap_cons, List.mem_append]
    cases t with
    | token => exact .inr (mem_of_innerName? h)
    | node k s us =>
      by_cases hk : k = .declarator
      · subst hk
        rw [Tree.preorder_node]
        refine .inl (List.mem_cons_of_mem _ (List.mem_flatMap.mpr ?_))
        rcases name?_node h with ⟨hname, -⟩ | h
        · exact ⟨name, hname, name.self_mem_preorder⟩
        · obtain ⟨p, hp, hname, -⟩ := mem_of_nestedName? (show nestedName? us = some name from h)
          exact ⟨p, hp, hname⟩
      · rw [innerName?.eq_3 _ _ fun s' us' he => hk (Tree.node.inj he).1] at h
        exact .inr (mem_of_innerName? h)

end

/-- The name that is declared stands in a part of the declarator, which is no list of parameters. -/
theorem mem_of_name? {t : Tree} (h : name? t = some name) :
    ∃ p ∈ t.parts, name ∈ p.preorder ∧ p.kind ≠ .paramList := by
  cases t with
  | token => cases h
  | node k s ts =>
    rcases name?_node h with ⟨hname, hk⟩ | h
    · exact ⟨name, hname, name.self_mem_preorder, by rw [hk]; decide⟩
    · obtain ⟨p, hp, hname, hk⟩ := mem_of_nestedName? h
      exact ⟨p, hp, hname, by rw [hk]; decide⟩

end Declarator

end CppRefactor
