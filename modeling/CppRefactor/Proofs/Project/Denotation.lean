import CppRefactor.Proofs.Project.Normalized

/-!
What paths denote. Behind a root a normalized path leads where the path led. Without one, every
second `..` that goes above the start takes the one before it off the stack, so that the normalized
path goes up once or not at all.
-/

namespace CppRefactor

/-- The location that a component leads to. A location is given by the names on the way from the
root, the last of them first; `..` stays at the root. -/
def Component.step (dir : List String) : Component → List String
  | .root => []
  | .here => dir
  | .up => dir.tail
  | .name s => s :: dir

namespace Path

/-- The location that a path leads to, one component after the other, from another. -/
def locationFrom (dir : List String) (p : Path) : List String :=
  p.components.foldl Component.step dir

def location (p : Path) : List String := p.locationFrom []

/-- The directory at the end of names, from the root on. -/
def ofNames (names : List String) : Path := ⟨.root :: names.map .name⟩

theorem location_ofNames (names : List String) : (ofNames names).location = names.reverse := by
  have hstep (dir : List String) :
      (names.map Component.name).foldl Component.step dir = names.reverse ++ dir := by
    induction names generalizing dir with
    | nil => rfl
    | cons s names ih => simp [Component.step, ih]
  exact (hstep []).trans (List.append_nil _)

theorem location_join (dir p : Path) : (dir.join p).location = p.locationFrom dir.location := by
  unfold join
  split
  · rename_i h
    obtain ⟨components⟩ := p
    cases components with
    | nil => simp [isAbsolute] at h
    | cons c cs =>
      obtain rfl : c = .root := by simpa [isAbsolute] using h
      rfl
  · have hfilter (cs : List Component) (dir : List String) :
        (cs.filter (· != .here)).foldl Component.step dir = cs.foldl Component.step dir := by
      induction cs generalizing dir with
      | nil => rfl
      | cons c cs ih => cases c <;> exact ih _
    simp only [location, locationFrom, List.foldl_append, hfilter]

/-- The location that a stack of components leads to. -/
def located (dir : List String) (stack : List Component) : List String :=
  stack.foldr (fun c dir => c.step dir) dir

theorem locationFrom_normalize (dir : List String) (p : Path) :
    p.normalize.locationFrom dir = located dir (p.components.foldl push []) :=
  List.foldl_reverse ..

/-- On a root, a component leads where it leads from the location of the stack. -/
theorem Settled.located_push (h : Settled stack) (hroot : .root ∈ stack) (dir : List String)
    (c : Component) : located dir (Path.push stack c) = c.step (located dir stack) := by
  cases c with
  | root => rfl
  | here => rfl
  | name s => rfl
  | up =>
    cases stack with
    | nil => cases hroot
    | cons d rest =>
      cases d with
      | root => rfl
      | here => exact h.elim
      | name s => rfl
      | up =>
        obtain ⟨hrest | hrest, -⟩ := h
        · simp [hrest] at hroot
        · obtain ⟨rest, rfl⟩ := List.head?_eq_some_iff.mp hrest
          rfl

theorem mem_push (hroot : .root ∈ stack) (c : Component) : .root ∈ push stack c := by
  cases c with
  | up =>
    cases stack with
    | nil => cases hroot
    | cons d rest => cases d <;> simp_all [push]
  | _ => simp [push, hroot]

theorem Settled.located_foldl (h : Settled stack) (hroot : .root ∈ stack) (dir : List String)
    (cs : List Component) :
    located dir (cs.foldl Path.push stack) = cs.foldl Component.step (located dir stack) := by
  induction cs generalizing stack with
  | nil => rfl
  | cons c cs ih =>
    rw [List.foldl_cons, List.foldl_cons, ih (h.push c) (mem_push hroot c),
      h.located_push hroot]

theorem locationFrom_normalize_of_root (dir : List String) {p : Path}
    (hroot : .root ∈ p.components) : p.normalize.locationFrom dir = p.locationFrom dir := by
  obtain ⟨front, back, hsplit⟩ := List.append_of_mem hroot
  have hs : Settled (.root :: front.foldl push []) := settled_foldl front trivial
  rw [locationFrom_normalize, locationFrom, hsplit, List.foldl_append, List.foldl_append]
  exact hs.located_foldl List.mem_cons_self dir back

/-- How far a path goes above where it starts, and the names it goes down from there, the last
first. -/
structure Route where
  ups : Nat
  names : List String

namespace Route

def step (r : Route) : Component → Route
  | .up =>
    match r.names with
    | [] => { r with ups := r.ups + 1 }
    | _ :: rest => { r with names := rest }
  | .name s => { r with names := s :: r.names }
  | _ => r

/-- The location at the end. -/
def target (r : Route) (dir : List String) : List String := r.names ++ dir.drop r.ups

/-- The stack that normalizing has at the end: an odd number of components up leaves one, an even
number none. -/
def stack (r : Route) : List Component := r.names.map .name ++ List.replicate (r.ups % 2) .up

theorem step_target (r : Route) (dir : List String) (hc : c ≠ .root) :
    (r.step c).target dir = c.step (r.target dir) := by
  obtain ⟨ups, names⟩ := r
  cases c with
  | root => exact (hc rfl).elim
  | here => rfl
  | name s => rfl
  | up =>
    cases names with
    | nil => exact List.tail_drop.symm
    | cons s rest => rfl

theorem step_stack (r : Route) (hc : c ≠ .root) : (r.step c).stack = push r.stack c := by
  obtain ⟨ups, names⟩ := r
  cases c with
  | root => exact (hc rfl).elim
  | here => rfl
  | name s => rfl
  | up =>
    cases names with
    | cons s rest => rfl
    | nil =>
      -- a `..` that is left takes the next one off the stack
      rcases Nat.mod_two_eq_zero_or_one ups with hups | hups
      · simp [step, stack, push, hups, Nat.add_mod]
      · simp [step, stack, push, hups, Nat.add_mod]

theorem foldl_target (r : Route) (dir : List String) {cs : List Component} (hcs : .root ∉ cs) :
    (cs.foldl step r).target dir = cs.foldl Component.step (r.target dir) := by
  induction cs generalizing r with
  | nil => rfl
  | cons c cs ih =>
    have hc : c ≠ .root := Ne.symm (List.ne_of_not_mem_cons hcs)
    rw [List.foldl_cons, List.foldl_cons, ih _ (List.not_mem_of_not_mem_cons hcs),
      r.step_target dir hc]

theorem foldl_stack (r : Route) {cs : List Component} (hcs : .root ∉ cs) :
    (cs.foldl step r).stack = cs.foldl push r.stack := by
  induction cs generalizing r with
  | nil => rfl
  | cons c cs ih =>
    have hc : c ≠ .root := Ne.symm (List.ne_of_not_mem_cons hcs)
    rw [List.foldl_cons, List.foldl_cons, ih _ (List.not_mem_of_not_mem_cons hcs),
      r.step_stack hc]

theorem located_stack (r : Route) (dir : List String) :
    located dir r.stack = r.names ++ dir.drop (r.ups % 2) := by
  have hnames (names : List String) (dir : List String) :
      located dir (names.map .name) = names ++ dir := by
    induction names with
    | nil => rfl
    | cons s names ih => exact congrArg (s :: ·) ih
  rw [stack, located, List.foldr_append, ← located, hnames]
  rcases Nat.mod_two_eq_zero_or_one r.ups with hups | hups
  · rw [hups]
    rfl
  · rw [hups, List.drop_one]
    rfl

/-- Going up once for an odd number of times and not at all for an even one leads to the same place
if the number is one or none, or if the way is at the root by then. -/
theorem drop_mod_two (ups : Nat) (dir : List String) :
    dir.drop (ups % 2) = dir.drop ups ↔ ups ≤ 1 ∨ dir.length ≤ ups % 2 := by
  have hle : ups % 2 ≤ ups := Nat.mod_le ups 2
  constructor
  · intro h
    have hlength := congrArg List.length h
    rw [List.length_drop, List.length_drop] at hlength
    omega
  · rintro (hups | hdir)
    · rw [Nat.mod_eq_of_lt (by omega)]
    · rw [List.drop_of_length_le hdir, List.drop_of_length_le (Nat.le_trans hdir hle)]

end Route

/-- The way a path takes that goes through no root. -/
def route (p : Path) : Route := p.components.foldl Route.step ⟨0, []⟩

/-- Normalized, a path leads from a directory where it led before exactly if it goes through a root,
goes up above the directory at most once, or ends at the root above both times. -/
theorem location_normalize_iff (names : List String) (p : Path) :
    ((ofNames names).join p.normalize).location = ((ofNames names).join p).location ↔
      .root ∈ p.components ∨ p.route.ups ≤ 1 ∨ names.length ≤ p.route.ups % 2 := by
  rw [location_join, location_join, location_ofNames]
  by_cases hroot : .root ∈ p.components
  · exact iff_of_true (locationFrom_normalize_of_root _ hroot) (.inl hroot)
  · have hstack : p.components.foldl push [] = p.route.stack :=
      (Route.foldl_stack ⟨0, []⟩ hroot).symm
    have htarget : p.locationFrom names.reverse = p.route.target names.reverse :=
      (Route.foldl_target ⟨0, []⟩ names.reverse hroot).symm
    rw [locationFrom_normalize, hstack, htarget, Route.located_stack, Route.target,
      List.append_right_inj, Route.drop_mod_two, List.length_reverse, or_iff_right hroot]

/-- The second `..` of two takes the first one away. -/
theorem second_up_cancels :
    (ofString "../../a").normalize = ofString "a" ∧
      ((ofNames ["x", "y"]).join (ofString "../../a")).location = ["a"] ∧
      ((ofNames ["x", "y"]).join (ofString "../../a").normalize).location = ["a", "y", "x"] := by
  decide +kernel

end Path

end CppRefactor
