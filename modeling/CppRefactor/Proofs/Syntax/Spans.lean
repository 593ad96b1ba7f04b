import CppRefactor.Proofs.Syntax.Lossless
import CppRefactor.Proofs.Text.Slices

/-!
Where the trees of a text stand: the parts of a node follow each other from its start to its end,
and the slice of the text at the span of a tree is the text of the tree.
-/

namespace CppRefactor

namespace Tree

mutual

/-- The parts of each node in the tree follow each other from its start to its end. -/
def Tiled : Tree → Prop
  | token _ => True
  | node _ s ts => Tiles s.start ts s.stop

/-- Trees that follow each other from one offset to another. -/
def Tiles : Nat → List Tree → Nat → Prop
  | start, [], stop => start = stop
  | start, t :: ts, stop => t.span.start = start ∧ Tiled t ∧ Tiles t.span.stop ts stop

end

@[simp] theorem tiles_nil : Tiles start [] stop ↔ start = stop := Iff.rfl

@[simp] theorem tiles_cons : Tiles start (t :: ts) stop ↔
    t.span.start = start ∧ Tiled t ∧ Tiles t.span.stop ts stop := Iff.rfl

theorem tiles_append : Tiles start (ts ++ us) stop ↔
    ∃ middle, Tiles start ts middle ∧ Tiles middle us stop := by
  induction ts generalizing start with
  | nil => simp
  | cons t ts ih => simp [ih, and_assoc]

theorem Tiles.append (h : Tiles start ts middle) (h' : Tiles middle us stop) :
    Tiles start (ts ++ us) stop :=
  tiles_append.mpr ⟨middle, h, h'⟩

end Tree

namespace Outline

open CppRefactor.Tree (Tiles Tiled)

/-- A feed whose offset is that of its first token. -/
def Feed.Placed (f : Feed) : Prop := Consecutive f.offset f.tokens

theorem advance_tiles {ts us : List Token} (h : Consecutive offset (ts ++ us)) :
    Tiles offset (ts.map .token) (Feed.advance offset ts) ∧
      Consecutive (Feed.advance offset ts) us := by
  induction ts generalizing offset with
  | nil => exact ⟨rfl, h⟩
  | cons t ts ih =>
    obtain ⟨rfl, -, h⟩ := h
    obtain ⟨htiles, hrest⟩ := ih h
    exact ⟨⟨rfl, trivial, htiles⟩, hrest⟩

theorem Feed.Placed.trivia {f : Feed} (h : f.Placed) :
    Tiles f.offset f.trivia.1 f.trivia.2.offset ∧ f.trivia.2.Placed := by
  rw [Placed, ← List.takeWhile_append_dropWhile (p := (·.isTrivia)) (l := f.tokens)] at h
  exact advance_tiles h

theorem Feed.Placed.next {f : Feed} (h : f.Placed) :
    Tiles f.offset f.next.1 f.next.2.offset ∧ f.next.2.Placed := by
  obtain ⟨offset, tokens⟩ := f
  cases tokens with
  | nil => exact ⟨rfl, h⟩
  | cons t ts =>
    obtain ⟨rfl, -, h⟩ := h
    exact ⟨⟨rfl, trivial, rfl⟩, h⟩

theorem Feed.Placed.rest {f : Feed} (h : f.Placed) : Tiles f.offset f.rest.1 f.rest.2.offset := by
  rw [Placed, ← List.append_nil f.tokens] at h
  exact (advance_tiles h).1

mutual

theorem weave_tiles (p : Outline) {f : Feed} (h : f.Placed) :
    Tiles f.offset (weave p f).1 (weave p f).2.offset ∧ (weave p f).2.Placed := by
  cases p with
  | word => exact h.next
  | gap => exact ⟨rfl, h⟩
  | node k ps =>
    obtain ⟨htiles, hrest⟩ := weaveAll_tiles ps h
    exact ⟨⟨rfl, htiles, rfl⟩, hrest⟩

theorem weaveAll_tiles (ps : List Outline) {f : Feed} (h : f.Placed) :
    Tiles f.offset (weaveAll ps f).1 (weaveAll ps f).2.offset ∧ (weaveAll ps f).2.Placed := by
  cases ps with
  | nil => exact ⟨rfl, h⟩
  | cons p ps =>
    obtain ⟨hblank, h₁⟩ := h.trivia
    obtain ⟨htree, h₂⟩ := weave_tiles p h₁
    obtain ⟨htrees, h₃⟩ := weaveAll_tiles ps h₂
    exact ⟨(hblank.append htree).append htrees, h₃⟩

end

theorem weaveRoot_tiled (kind : Kind) (parts : List Outline) {tokens : List Token}
    (h : Consecutive 0 tokens) : (weaveRoot kind parts tokens).Tiled := by
  obtain ⟨htiles, hrest⟩ := weaveAll_tiles parts (f := ⟨0, tokens⟩) h
  exact htiles.append hrest.rest

end Outline

theorem parse_tiled (text : String) : (parse text).tree.Tiled :=
  Outline.weaveRoot_tiled _ _ (tokenize_consecutive text)

namespace Tree

/-- The characters of a tree. -/
def chars (t : Tree) : List Char := t.leaves.flatMap (·.text.toList)

theorem toList_text (t : Tree) : t.text.toList = t.chars := by
  rw [text, String.toList_join, List.flatMap_map, chars]

theorem join_text (ts : List Tree) :
    ts.flatMap chars = (String.join (ts.map text)).toList := by
  rw [String.toList_join, List.flatMap_map]
  congr 1
  funext t
  exact t.toList_text.symm

@[simp] theorem chars_token (t : Token) : (token t).chars = t.text.toList := by
  simp [chars]

@[simp] theorem chars_node (k : Kind) (s : Span) (ts : List Tree) :
    (node k s ts).chars = ts.flatMap chars := by
  simp only [chars, leaves_node, List.flatMap_assoc]
  rfl

mutual

theorem Tiled.stop_eq {t : Tree} (h : t.Tiled) :
    t.span.start + Text.bytes t.chars = t.span.stop := by
  cases t with
  | token t =>
    rw [chars_token, Text.bytes_toList]
    rfl
  | node k s ts =>
    have hts : Tiles s.start ts s.stop := h
    rw [chars_node]
    exact hts.stop_eq

theorem Tiles.stop_eq {ts : List Tree} (h : Tiles start ts stop) :
    start + Text.bytes (ts.flatMap chars) = stop := by
  cases ts with
  | nil => exact h
  | cons t ts =>
    obtain ⟨rfl, ht, hts⟩ := h
    rw [List.flatMap_cons, Text.bytes_append, ← Nat.add_assoc, ht.stop_eq, hts.stop_eq]

end

theorem Tiled.start_le_stop {t : Tree} (h : t.Tiled) : t.span.start ≤ t.span.stop :=
  Nat.le_of_add_right_le (Nat.le_of_eq h.stop_eq)

theorem Tiles.le (h : Tiles start ts stop) : start ≤ stop :=
  Nat.le_of_add_right_le (Nat.le_of_eq h.stop_eq)

/-- What stands before a part of trees that follow each other, the part, and what stands behind. -/
theorem Tiles.split (h : Tiles start (front ++ t :: behind) stop) :
    Tiles start front t.span.start ∧ t.Tiled ∧ Tiles t.span.stop behind stop := by
  obtain ⟨middle, hfront, rfl, ht, hbehind⟩ := tiles_append.mp h
  exact ⟨hfront, ht, hbehind⟩

/-- A tree stands inside another one: behind some of its characters, and before the others. -/
structure Inside (u t : Tree) (before after : List Char) : Prop where
  tiled : u.Tiled
  chars : t.chars = before ++ u.chars ++ after
  start : t.span.start + Text.bytes before = u.span.start

theorem Inside.encloses {u t : Tree} (h : u.Inside t before after) (ht : t.Tiled) :
    t.span.start ≤ u.span.start ∧ u.span.stop ≤ t.span.stop := by
  have hstart := h.start
  have hu := h.tiled.stop_eq
  have hstop := ht.stop_eq
  rw [h.chars, Text.bytes_append, Text.bytes_append] at hstop
  omega

mutual

theorem Tiled.inside {t : Tree} (h : t.Tiled) (hu : u ∈ t.preorder) :
    ∃ before after, u.Inside t before after := by
  cases t with
  | token t =>
    rw [preorder_token, List.mem_singleton] at hu
    subst hu
    exact ⟨[], [], h, (List.append_nil _).symm, rfl⟩
  | node k s ts =>
    rw [preorder_node, List.mem_cons] at hu
    rcases hu with rfl | hu
    · exact ⟨[], [], h, (List.append_nil _).symm, rfl⟩
    · have hts : Tiles s.start ts s.stop := h
      obtain ⟨before, after, htiled, hchars, hstart⟩ := hts.inside hu
      exact ⟨before, after, htiled, (chars_node ..).trans hchars, hstart⟩

theorem Tiles.inside {ts : List Tree} (h : Tiles start ts stop) (hu : u ∈ ts.flatMap preorder) :
    ∃ before after, u.Tiled ∧ ts.flatMap Tree.chars = before ++ u.chars ++ after ∧
      start + Text.bytes before = u.span.start := by
  cases ts with
  | nil => cases hu
  | cons t ts =>
    obtain ⟨rfl, ht, hts⟩ := h
    rw [List.flatMap_cons, List.mem_append] at hu
    rcases hu with hu | hu
    · obtain ⟨before, after, htiled, hchars, hstart⟩ := ht.inside hu
      refine ⟨before, after ++ ts.flatMap Tree.chars, htiled, ?_, hstart⟩
      rw [List.flatMap_cons, hchars, List.append_assoc]
    · obtain ⟨before, after, htiled, hchars, hstart⟩ := hts.inside hu
      refine ⟨t.chars ++ before, after, htiled, ?_, ?_⟩
      · rw [List.flatMap_cons, hchars]
        simp only [List.append_assoc]
      · rw [Text.bytes_append, ← Nat.add_assoc, ht.stop_eq, hstart]

end

end Tree

namespace Tree

mutual

theorem mem_preorder_trans {t : Tree} (hu : u ∈ t.preorder) (hv : v ∈ u.preorder) :
    v ∈ t.preorder := by
  cases t with
  | token t =>
    rw [preorder_token, List.mem_singleton] at hu
    rwa [hu] at hv
  | node k s ts =>
    rw [preorder_node, List.mem_cons] at hu
    rcases hu with rfl | hu
    · exact hv
    · rw [preorder_node]
      exact List.mem_cons_of_mem _ (mem_flatMap_preorder_trans hu hv)

theorem mem_flatMap_preorder_trans {ts : List Tree} (hu : u ∈ ts.flatMap preorder)
    (hv : v ∈ u.preorder) : v ∈ ts.flatMap preorder := by
  cases ts with
  | nil => cases hu
  | cons t ts =>
    rw [List.flatMap_cons, List.mem_append] at hu ⊢
    exact hu.imp (mem_preorder_trans · hv) (mem_flatMap_preorder_trans · hv)

end

theorem self_mem_preorder (t : Tree) : t ∈ t.preorder := by
  cases t <;> simp

theorem mem_preorder_of_mem_parts {t : Tree} (h : p ∈ t.parts) : p ∈ t.preorder := by
  cases t with
  | token => cases h
  | node k s ts =>
    rw [preorder_node]
    exact List.mem_cons_of_mem _ (List.mem_flatMap.mpr ⟨p, h, p.self_mem_preorder⟩)

theorem Tiled.parts {t : Tree} (h : t.Tiled) (ht : t.parts = front ++ u :: behind) :
    Tiles t.span.start (front ++ u :: behind) t.span.stop := by
  cases t with
  | token => cases front <;> cases ht
  | node k s ts =>
    cases ht
    exact h

mutual

theorem Tiled.lastLeaf_stop {t : Tree} (h : t.Tiled) (hw : t.lastLeaf? = some w) :
    w.stop = t.span.stop := by
  cases t with
  | token t =>
    cases hw
    rfl
  | node k s ts =>
    have hts : Tiles s.start ts s.stop := h
    exact hts.lastLeaf_stop hw

theorem Tiles.lastLeaf_stop {ts : List Tree} (h : Tiles start ts stop)
    (hw : lastLeafOf ts = some w) : w.stop = stop := by
  cases ts with
  | nil => cases hw
  | cons t ts =>
    obtain ⟨rfl, ht, hts⟩ := h
    cases ts with
    | nil =>
      rw [lastLeafOf] at hw
      exact (ht.lastLeaf_stop hw).trans hts
    | cons u us =>
      rw [lastLeafOf] at hw
      · exact hts.lastLeaf_stop hw
      · exact nofun

end

/-- Of two parts of a tree the first ends where the second begins, or before. -/
theorem Tiled.stop_le_start {t : Tree} (h : t.Tiled)
    (hparts : t.parts = front ++ u :: (between ++ v :: behind)) : u.span.stop ≤ v.span.start := by
  obtain ⟨-, -, hbehind⟩ := (h.parts hparts).split
  exact hbehind.split.1.le

theorem mem_parts_of_child? {t : Tree} (h : t.child? k = some u) : u ∈ t.parts :=
  List.mem_of_find?_eq_some h

theorem mem_parts_of_lastToken? {t : Tree} (h : t.lastToken? k = some w) : .token w ∈ t.parts := by
  rw [lastToken?, List.findRev?_eq_findRev?TR] at h
  obtain ⟨p, hp, hw⟩ := List.mem_filterMap.mp (List.mem_reverse.mp (List.mem_of_find?_eq_some h))
  cases p with
  | token =>
    cases hw
    exact hp
  | node => cases hw

end Tree

/-- The trees of a text. -/
def IsTreeOf (text : String) (t : Tree) : Prop := t ∈ (parse text).tree.preorder

namespace IsTreeOf

theorem tiled (h : IsTreeOf text t) : t.Tiled := by
  obtain ⟨_, _, h⟩ := (parse_tiled text).inside h
  exact h.tiled

theorem split (h : IsTreeOf text t) : ∃ before after,
    text.toList = before ++ t.chars ++ after ∧ Text.bytes before = t.span.start := by
  obtain ⟨before, after, h⟩ := (parse_tiled text).inside h
  refine ⟨before, after, ?_, (Nat.zero_add _).symm.trans h.start⟩
  have htext : (parse text).tree.text = text := (parse_lossless text).2.2.2.2
  rw [← h.chars, ← Tree.toList_text, htext]

theorem isBoundary_start (h : IsTreeOf text t) : Text.isBoundary text t.span.start = true := by
  obtain ⟨before, after, htext, hstart⟩ := h.split
  exact Text.isBoundary_iff.mpr ⟨before, _, htext.trans (List.append_assoc ..), hstart⟩

theorem isBoundary_stop (h : IsTreeOf text t) : Text.isBoundary text t.span.stop = true := by
  obtain ⟨before, after, htext, hstart⟩ := h.split
  refine Text.isBoundary_iff.mpr ⟨before ++ t.chars, after, htext, ?_⟩
  rw [Text.bytes_append, hstart, h.tiled.stop_eq]

theorem slice (h : IsTreeOf text t) : Text.slice text t.span = t.text := by
  obtain ⟨before, after, htext, hstart⟩ := h.split
  have hspan : t.span = ⟨Text.bytes before, Text.bytes before + Text.bytes t.chars⟩ := by
    rw [hstart, h.tiled.stop_eq]
  rw [hspan, Text.slice_eq htext, ← Tree.toList_text, String.ofList_toList]

theorem inside (h : IsTreeOf text t) (hu : u ∈ t.preorder) : IsTreeOf text u :=
  Tree.mem_preorder_trans h hu

theorem part (h : IsTreeOf text t) (hp : p ∈ t.parts) : IsTreeOf text p :=
  h.inside (Tree.mem_preorder_of_mem_parts hp)

theorem child (h : IsTreeOf text t) (hu : t.child? k = some u) : IsTreeOf text u :=
  h.part (Tree.mem_parts_of_child? hu)

theorem encloses (h : IsTreeOf text t) (hu : u ∈ t.preorder) :
    t.span.start ≤ u.span.start ∧ u.span.stop ≤ t.span.stop := by
  obtain ⟨_, _, hu⟩ := h.tiled.inside hu
  exact hu.encloses h.tiled

theorem slice_behind (h : IsTreeOf text t) (hparts : t.parts = front ++ p :: behind) :
    Text.slice text ⟨p.span.stop, t.span.stop⟩ = .join (behind.map Tree.text) := by
  cases t with
  | token => cases front <;> cases hparts
  | node k s ts =>
    cases hparts
    obtain ⟨before, after, htext, hstart⟩ := h.split
    have htiles : Tree.Tiles s.start (front ++ p :: behind) s.stop := h.tiled
    obtain ⟨hfront, hp, hbehind⟩ := htiles.split
    have hpstop : Text.bytes (before ++ front.flatMap Tree.chars ++ p.chars) = p.span.stop := by
      rw [Text.bytes_append, Text.bytes_append, hstart]
      exact hfront.stop_eq ▸ hp.stop_eq
    have htext' : text.toList = (before ++ front.flatMap Tree.chars ++ p.chars) ++
        behind.flatMap Tree.chars ++ after := by
      rw [htext]
      simp
    have hslice := Text.slice_eq htext'
    rw [hpstop, hbehind.stop_eq] at hslice
    rw [Tree.span, hslice, Tree.join_text, String.ofList_toList]

end IsTreeOf

end CppRefactor
