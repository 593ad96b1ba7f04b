import CppRefactor.Proofs.Syntax.Cursors
import CppRefactor.Syntax.Parse
import CppRefactor.Syntax.View.Statement

/-!
Jumps in the statements of a block. Nothing leads out of the statements if they have no return and
no goto, and each other jump and each label of a switch belongs to a loop or a switch inside one of
them.
-/

namespace CppRefactor

theorem Tree.anyEscapes_eq (inLoop inSwitch : Bool) (ts : List Tree) :
    anyEscapes inLoop inSwitch ts = ts.any (escapes inLoop inSwitch) := by
  induction ts with
  | nil => rfl
  | cons t ts ih => rw [anyEscapes, ih, List.any_cons]

namespace Cursor

theorem sizeOf_part {c p : Cursor} (h : p ∈ c.parts) : sizeOf p.focus < sizeOf c.focus := by
  have hp : p.focus ∈ c.focus.parts := by
    rw [← map_focus_parts]
    exact List.mem_map_of_mem h
  obtain ⟨t, above⟩ := c
  cases t with
  | token => cases hp
  | node k s ts =>
    have hlt := List.sizeOf_lt_of_mem hp
    simp only [Tree.node.sizeOf_spec, Tree.parts] at hlt ⊢
    omega

theorem above_part {c p : Cursor} (h : p ∈ c.parts) : ∃ i, p.above = (c.focus, i) :: c.above := by
  obtain ⟨i, _, rfl⟩ := List.mem_mapIdx.mp h
  exact ⟨i, rfl⟩

theorem length_above_child {c p : Cursor} (h : p ∈ c.children) :
    p.above.length = c.above.length + 1 := by
  obtain ⟨i, habove⟩ := above_part (List.mem_filter.mp h).1
  rw [habove, List.length_cons]

/-- The nodes on the way up, as far as `above`. -/
def climbTo (above : List (Tree × Nat)) : List (Tree × Nat) → List Cursor
  | [] => []
  | (t, _) :: path => ⟨t, path ++ above⟩ :: climbTo above path

theorem climb_append (path above : List (Tree × Nat)) :
    climb (path ++ above) = climbTo above path ++ climb above := by
  induction path with
  | nil => rfl
  | cons p path ih => exact congrArg _ ih

theorem climbTo_append (path more above : List (Tree × Nat)) :
    climbTo above (path ++ more) = climbTo (more ++ above) path ++ climbTo above more := by
  induction path with
  | nil => rfl
  | cons p path ih => simp only [List.cons_append, climbTo, ih, List.append_assoc]

theorem any_climbTo (q : Kind → Bool) (above path : List (Tree × Nat)) :
    (climbTo above path).any (fun c => q c.kind) = path.any fun p => q p.1.kind := by
  induction path with
  | nil => rfl
  | cons p path ih => exact congrArg _ ih

theorem length_above_of_mem_climb {above : List (Tree × Nat)} (h : c ∈ climb above) :
    c.above.length < above.length := by
  induction above with
  | nil => cases h
  | cons p above ih =>
    rcases List.mem_cons.mp h with rfl | h
    · exact Nat.lt_succ_self _
    · exact Nat.lt_succ_of_lt (ih h)

theorem exists_path {s c : Cursor} (h : c ∈ s.preorder) :
    ∃ path, c.above = path ++ s.above ∧ ∀ d ∈ climbTo s.above path, d ∈ s.preorder := by
  induction hn : sizeOf s.focus using Nat.strongRecOn generalizing s with
  | ind n ih =>
    subst hn
    have hself : s ∈ s.preorder := preorder_eq s ▸ List.mem_cons_self
    rw [preorder_eq] at h
    rcases List.mem_cons.mp h with rfl | h
    · exact ⟨[], rfl, nofun⟩
    · obtain ⟨p, hp, hc⟩ := List.mem_flatMap.mp h
      obtain ⟨i, habove⟩ := above_part hp
      obtain ⟨path, hpath, hinside⟩ := ih _ (sizeOf_part hp) hc rfl
      rw [habove] at hpath hinside
      refine ⟨path ++ [(s.focus, i)], by rw [hpath, List.append_assoc]; rfl, fun d hd => ?_⟩
      rw [climbTo_append, List.mem_append] at hd
      rcases hd with hd | hd
      · rw [preorder_eq]
        exact List.mem_cons_of_mem _ (List.mem_flatMap.mpr ⟨p, hp, hinside d hd⟩)
      · cases List.mem_singleton.mp hd
        exact hself

theorem nodes_eq {c : Cursor} (h : c.focus.isNode = true) :
    c.nodes = c :: c.parts.flatMap nodes := by
  rw [nodes, preorder_eq, List.filter_cons, if_pos h, List.filter_flatMap]
  rfl

theorem nodes_token {c : Cursor} (h : c.focus.isNode = false) : c.nodes = [] := by
  obtain ⟨t, above⟩ := c
  cases t with
  | token => rfl
  | node => cases h

/-- A node of the kind, at the end of a path, leads out of what the path is in. -/
def leadsAlong (inLoop inSwitch : Bool) (path : List (Tree × Nat)) (k : Kind) : Bool :=
  k.leads (inLoop || path.any (·.1.kind.isLoop)) (inSwitch || path.any (·.1.kind == .switchStmt))

theorem any_loop_or_switch (path : List (Tree × Nat)) :
    (path.any fun p => p.1.kind.isLoop || p.1.kind == .switchStmt) =
      (path.any (·.1.kind.isLoop) || path.any (·.1.kind == .switchStmt)) := by
  rw [Bool.eq_iff_iff]
  simp only [Bool.or_eq_true, List.any_eq_true, ← exists_or, and_or_left]

theorem leadsAlong_concat (inLoop inSwitch : Bool) (path : List (Tree × Nat)) (t : Tree) (i : Nat)
    (k : Kind) : leadsAlong inLoop inSwitch (path ++ [(t, i)]) k =
      leadsAlong (inLoop || t.kind.isLoop) (inSwitch || t.kind == .switchStmt) path k := by
  have hany (q : Kind → Bool) (b : Bool) : (b || (path ++ [(t, i)]).any fun p => q p.1.kind) =
      (b || q t.kind || path.any fun p => q p.1.kind) := by
    rw [List.any_append, List.any_cons, List.any_nil, Bool.or_false, Bool.or_assoc,
      Bool.or_comm (q t.kind)]
  rw [leadsAlong, hany Kind.isLoop, hany (· == .switchStmt)]
  rfl

/-- Something leads out of a statement: its kind and those of the nodes on the path to it tell. -/
theorem escapes_iff (inLoop inSwitch : Bool) (s : Cursor) :
    s.focus.escapes inLoop inSwitch = true ↔ ∃ c ∈ s.nodes, ∃ path, c.above = path ++ s.above ∧
      leadsAlong inLoop inSwitch path c.kind = true := by
  induction hn : sizeOf s.focus using Nat.strongRecOn generalizing s inLoop inSwitch with
  | ind n ih =>
    subst hn
    cases hs : s.focus with
    | token w =>
      rw [nodes_token (by rw [hs]; rfl)]
      exact iff_of_false Bool.false_ne_true nofun
    | node k span ts =>
      obtain rfl : s.kind = k := by rw [kind, hs]; rfl
      obtain rfl : s.parts.map focus = ts := by rw [map_focus_parts, hs]; rfl
      have hpart (p : Cursor) (hp : p ∈ s.parts) := ih _ (sizeOf_part hp)
        (inLoop || s.kind.isLoop) (inSwitch || s.kind == .switchStmt) p rfl
      rw [Tree.escapes, Tree.anyEscapes_eq, Bool.or_eq_true_iff, List.any_map,
        nodes_eq (by rw [hs]; rfl)]
      constructor
      · rintro (h | h)
        · exact ⟨s, List.mem_cons_self, [], rfl, by simpa [leadsAlong] using h⟩
        · obtain ⟨p, hp, h⟩ := List.any_eq_true.mp h
          obtain ⟨i, habove⟩ := above_part hp
          obtain ⟨c, hc, path, hpath, hleads⟩ := (hpart p hp).mp h
          refine ⟨c, List.mem_cons_of_mem _ (List.mem_flatMap.mpr ⟨p, hp, hc⟩),
            path ++ [(s.focus, i)], by rw [hpath, habove, List.append_assoc]; rfl, ?_⟩
          rw [leadsAlong_concat]
          exact hleads
      · rintro ⟨c, hc, path, hpath, hleads⟩
        rcases List.mem_cons.mp hc with rfl | hc
        · obtain rfl := List.self_eq_append_left.mp hpath
          exact .inl (by simpa [leadsAlong] using hleads)
        · obtain ⟨p, hp, hc⟩ := List.mem_flatMap.mp hc
          obtain ⟨i, habove⟩ := above_part hp
          obtain ⟨inside, hinside, -⟩ := exists_path (List.mem_filter.mp hc).1
          have hpath' : path = inside ++ [(s.focus, i)] := by
            refine (List.append_left_inj s.above).mp ?_
            rw [← hpath, hinside, habove, List.append_assoc]
            rfl
          rw [hpath', leadsAlong_concat] at hleads
          have hleadsTo := (hpart p hp).mpr ⟨c, hc, inside, hinside, hleads⟩
          exact .inr (List.any_eq_true.mpr ⟨p, hp, hleadsTo⟩)

/-- The innermost node around a jump or a label that it could belong to is in a statement. -/
def BelongsInside (statements : List Cursor) (q : Kind → Bool) (c : Cursor) : Prop :=
  ∃ d, c.enclosing.find? (fun d => q d.kind) = some d ∧ ∃ s ∈ statements, d ∈ s.preorder

theorem belongsInside_iff {block : Cursor} {statements : List Cursor}
    (hblock : ∀ s ∈ statements, s ∈ block.children) (hs : s ∈ statements) (hc : c ∈ s.preorder)
    (hpath : c.above = path ++ s.above) (q : Kind → Bool) :
    c.BelongsInside statements q ↔ path.any (fun p => q p.1.kind) = true := by
  obtain ⟨inside, hinside, hon⟩ := exists_path hc
  obtain rfl : path = inside := List.append_cancel_right (hpath.symm.trans hinside)
  rw [BelongsInside, enclosing, hpath, climb_append, List.find?_append, ← any_climbTo q s.above]
  constructor
  · rintro ⟨d, hd, s', hs', hds'⟩
    by_contra hnone
    have hfind : (climbTo s.above path).find? (fun d => q d.kind) = none := by
      rw [List.find?_eq_none]
      exact fun e he hq => hnone (List.any_eq_true.mpr ⟨e, he, hq⟩)
    rw [hfind, Option.none_or] at hd
    -- Nodes around a statement are no deeper than the block, so they are in none of its statements.
    have hlt := length_above_of_mem_climb (List.mem_of_find?_eq_some hd)
    obtain ⟨path', hpath', -⟩ := exists_path hds'
    have hle : s'.above.length ≤ d.above.length := by
      rw [hpath', List.length_append]
      exact Nat.le_add_left _ _
    rw [length_above_child (hblock s hs)] at hlt
    rw [length_above_child (hblock s' hs')] at hle
    omega
  · intro h
    obtain ⟨d, hd⟩ := List.find?_isSome.mpr (List.any_eq_true.mp h) |> Option.isSome_iff_exists.mp
    rw [hd, Option.some_or]
    exact ⟨d, rfl, s, hs, hon d (List.mem_of_find?_eq_some hd)⟩

theorem same_of_above {c d : Cursor} (h : c.above = d.above) : c.same d = true := by
  rw [same, place, h, ← place, beq_self_eq_true]

theorem not_same_of_length {c d : Cursor} (h : c.above.length ≠ d.above.length) :
    c.same d = false := by
  refine beq_false_of_ne fun he => h ?_
  have hlength := congrArg List.length he
  rwa [place, place, List.length_map, List.length_map] at hlength

section

variable {statements : List Cursor} {s c : Cursor} (hs : s ∈ statements)
  (hdepth : ∀ s' ∈ statements, s'.above.length = s.above.length)

include hs in
theorem any_same_of_above (h : s.above = c.above) : statements.any (·.same c) = true :=
  List.any_eq_true.mpr ⟨s, hs, same_of_above h⟩

include hdepth

theorem any_same_of_below (h : s.above.length < c.above.length) :
    statements.any (·.same c) = false := by
  refine List.any_eq_false.mpr fun s' hs' => Bool.eq_false_iff.mp (not_same_of_length ?_)
  rw [hdepth s' hs']
  exact Nat.ne_of_lt h

include hs

theorem meets_climbTo (q : Kind → Bool) {path : List (Tree × Nat)} (hne : path ≠ [])
    (hc : path.length + s.above.length ≤ c.above.length) (way : List Cursor) :
    meets statements q c (climbTo s.above path ++ way) = path.any fun p => q p.1.kind := by
  induction path with
  | nil => exact absurd rfl hne
  | cons p path ih =>
    obtain ⟨t, i⟩ := p
    rw [List.length_cons] at hc
    have hself : (⟨t, path ++ s.above⟩ : Cursor).same c = false :=
      not_same_of_length (by rw [List.length_append]; omega)
    rw [climbTo, List.cons_append, meets, hself, Bool.not_false, Bool.true_and, List.any_cons]
    cases hq : q t.kind with
    | true => exact if_pos hq
    | false =>
      refine (if_neg (Bool.eq_false_iff.mp hq)).trans ?_
      cases path with
      | nil =>
        rw [any_same_of_above hs (c := ⟨t, [] ++ s.above⟩) rfl]
        rfl
      | cons p path =>
        have hbelow : statements.any (·.same ⟨t, (p :: path) ++ s.above⟩) = false :=
          any_same_of_below hdepth (by rw [List.length_append, List.length_cons]; omega)
        rw [hbelow, if_neg Bool.false_ne_true, ih (List.cons_ne_nil p path) (by omega)]
        rfl

theorem isEnclosedBy_eq (q : Kind → Bool) (hpath : c.above = path ++ s.above) :
    c.isEnclosedBy statements q = path.any fun p => q p.1.kind := by
  rw [isEnclosedBy, ancestors, meets, same_of_above rfl, Bool.not_true, Bool.false_and,
    if_neg Bool.false_ne_true, enclosing, hpath, climb_append]
  cases path with
  | nil =>
    rw [any_same_of_above hs hpath.symm]
    rfl
  | cons p path =>
    have hbelow : statements.any (·.same c) = false :=
      any_same_of_below hdepth (by rw [hpath, List.length_append, List.length_cons]; omega)
    rw [hbelow, if_neg Bool.false_ne_true]
    exact meets_climbTo hs hdepth q (List.cons_ne_nil p path)
      (Nat.le_of_eq (by rw [hpath, List.length_append])) _

theorem leadsOut_eq (hpath : c.above = path ++ s.above) :
    c.leadsOut statements = leadsAlong false false path c.kind := by
  have henclosed (q : Kind → Bool) := isEnclosedBy_eq hs hdepth q hpath
  unfold leadsOut leadsAlong Kind.leads
  simp only [henclosed, any_loop_or_switch, Bool.not_or, Bool.false_or]

end

/-- Going down into statements with the loops and switches on the way finds the same as going up
from each jump. -/
theorem leaveSelection_eq {block : Cursor} {statements : List Cursor}
    (hblock : ∀ s ∈ statements, s ∈ block.children) :
    leaveSelection statements = statements.any fun s => s.focus.escapes false false := by
  rw [leaveSelection, List.any_flatMap, Bool.eq_iff_iff, List.any_eq_true, List.any_eq_true]
  refine exists_congr fun s => and_congr_right fun hs => ?_
  have hleads {path : List (Tree × Nat)} {c : Cursor} (hpath : c.above = path ++ s.above) :=
    leadsOut_eq hs (fun s' hs' => (length_above_child (hblock s' hs')).trans
      (length_above_child (hblock s hs)).symm) hpath
  rw [List.any_eq_true, escapes_iff]
  refine exists_congr fun c => and_congr_right fun hc => ?_
  obtain ⟨path, hpath, -⟩ := exists_path (List.mem_filter.mp hc).1
  constructor
  · exact fun h => ⟨path, hpath, hleads hpath ▸ h⟩
  · rintro ⟨path', hpath', h⟩
    rw [hleads hpath']
    exact h

end Cursor

theorem Kind.leads_eq_false_iff (inLoop inSwitch : Bool) (k : Kind) :
    k.leads inLoop inSwitch = false ↔ k ≠ .returnStmt ∧ k ≠ .gotoStmt ∧
      (k = .breakStmt → (inLoop || inSwitch) = true) ∧ (k = .continueStmt → inLoop = true) ∧
      (k = .caseLabel ∨ k = .defaultLabel → inSwitch = true) := by
  cases inLoop <;> cases inSwitch <;> unfold leads <;> split <;> simp_all

/-- Nothing leads out of statements of a block if and only if they have no return and no goto, and
the innermost loop or switch around each break, the innermost loop around each continue and the
innermost switch around each label of a switch are inside one of the statements. Going up from each
jump and going down into the statements find the same. -/
theorem jumps_inside_iff {block : Cursor} {statements : List Cursor}
    (hblock : ∀ s ∈ statements, s ∈ block.children) :
    (Cursor.leaveSelection statements = statements.any fun s => s.focus.escapes false false) ∧
    ((statements.any fun s => s.focus.escapes false false) = false ↔
      ∀ s ∈ statements, ∀ c ∈ s.nodes, c.kind ≠ .returnStmt ∧ c.kind ≠ .gotoStmt ∧
        (c.kind = .breakStmt → c.BelongsInside statements fun k => k.isLoop || k == .switchStmt) ∧
        (c.kind = .continueStmt → c.BelongsInside statements Kind.isLoop) ∧
        (c.kind = .caseLabel ∨ c.kind = .defaultLabel →
          c.BelongsInside statements (· == .switchStmt))) := by
  have hstays (s : Cursor) (hs : s ∈ statements) (c : Cursor) (hc : c ∈ s.nodes)
      (path : List (Tree × Nat)) (hpath : c.above = path ++ s.above) :
      Cursor.leadsAlong false false path c.kind = false ↔
        c.kind ≠ .returnStmt ∧ c.kind ≠ .gotoStmt ∧
        (c.kind = .breakStmt → c.BelongsInside statements fun k => k.isLoop || k == .switchStmt) ∧
        (c.kind = .continueStmt → c.BelongsInside statements Kind.isLoop) ∧
        (c.kind = .caseLabel ∨ c.kind = .defaultLabel →
          c.BelongsInside statements (· == .switchStmt)) := by
    have hiff := Cursor.belongsInside_iff hblock hs (List.mem_filter.mp hc).1 hpath
    rw [Cursor.leadsAlong, Kind.leads_eq_false_iff, hiff, hiff, hiff,
      Cursor.any_loop_or_switch, Bool.false_or, Bool.false_or]
  refine ⟨Cursor.leaveSelection_eq hblock, ?_⟩
  rw [List.any_eq_false]
  constructor
  · intro h s hs c hc
    obtain ⟨path, hpath, -⟩ := Cursor.exists_path (List.mem_filter.mp hc).1
    refine (hstays s hs c hc path hpath).mp (Bool.eq_false_iff.mpr fun hleads => h s hs ?_)
    exact (Cursor.escapes_iff _ _ s).mpr ⟨c, hc, path, hpath, hleads⟩
  · intro h s hs hescapes
    obtain ⟨c, hc, path, hpath, hleads⟩ := (Cursor.escapes_iff _ _ s).mp hescapes
    have hstay := (hstays s hs c hc path hpath).mpr (h s hs c hc)
    exact Bool.false_ne_true (hstay.symm.trans hleads)

/-- A break belongs to the loop around it, also where a return follows the loop. -/
theorem jumps_inside_loop :
    let root := Cursor.root (parse "void f() \x7b while (a) \x7b break; \x7d return; \x7d").tree
    ∃ block ∈ root.nodesOf .compoundStmt, block.children.length = 2 ∧
      (∀ s ∈ block.children.take 1, s ∈ block.children) ∧
      ∃ s ∈ block.children.take 1, ∃ c ∈ s.nodes, c.kind = .breakStmt ∧
        c.BelongsInside (block.children.take 1) fun k => k.isLoop || k == .switchStmt := by
  intro root
  have hexists : ∃ block ∈ root.nodesOf .compoundStmt, block.children.length = 2 ∧
      ((block.children.take 1).any fun s => s.focus.escapes false false) = false ∧
      ∃ s ∈ block.children.take 1, ∃ c ∈ s.nodes, c.kind = .breakStmt := by decide +kernel
  obtain ⟨block, hblock, hlength, hstays, s, hs, c, hc, hbreak⟩ := hexists
  have htake : ∀ s ∈ block.children.take 1, s ∈ block.children := fun _ => List.mem_of_mem_take
  have hinside := (jumps_inside_iff htake).2.mp hstays s hs c hc
  exact ⟨block, hblock, hlength, htake, s, hs, c, hc, hbreak, hinside.2.2.1 hbreak⟩

end CppRefactor
