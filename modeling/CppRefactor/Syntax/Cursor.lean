import CppRefactor.Syntax.Tree

/-!
Cursors: a tree together with the nodes around it, so that a reader can go up and sideways.
-/

namespace CppRefactor

/-- A tree in its surroundings: for each node around it, the innermost first, the node and the
number of the part that leads to the tree. -/
structure Cursor where
  focus : Tree
  above : List (Tree × Nat)
  deriving Inhabited

namespace Cursor

def root (t : Tree) : Cursor := ⟨t, []⟩

def kind (c : Cursor) : Kind := c.focus.kind

def span (c : Cursor) : Span := c.focus.span

/-- The way from the root, last step first; it tells the trees of one root apart. -/
def place (c : Cursor) : List Nat := c.above.map (·.2)

def same (c d : Cursor) : Bool := c.place == d.place

def parts (c : Cursor) : List Cursor :=
  c.focus.parts.mapIdx fun i t => ⟨t, (c.focus, i) :: c.above⟩

/-- The nodes directly below. -/
def children (c : Cursor) : List Cursor := c.parts.filter (·.focus.isNode)

def childrenOf (k : Kind) (c : Cursor) : List Cursor :=
  c.parts.filter fun p => p.focus.isNode && p.kind == k

def child? (k : Kind) (c : Cursor) : Option Cursor :=
  c.parts.find? fun p => p.focus.isNode && p.kind == k

def up? (c : Cursor) : Option Cursor :=
  match c.above with
  | [] => none
  | (t, _) :: rest => some ⟨t, rest⟩

/-- The cursors of the nodes on the way up. -/
def climb : List (Tree × Nat) → List Cursor
  | [] => []
  | (t, _) :: rest => ⟨t, rest⟩ :: climb rest

/-- The nodes around the focus, the innermost first. -/
def enclosing (c : Cursor) : List Cursor := climb c.above

/-- The focus and the nodes around it. -/
def ancestors (c : Cursor) : List Cursor := c :: c.enclosing

/-- The parts before the focus in its parent, the nearest first. -/
def before (c : Cursor) : List Tree :=
  match c.above with
  | [] => []
  | (t, i) :: _ => (t.parts.take i).reverse

/-- The parts behind the focus in its parent. -/
def after (c : Cursor) : List Tree :=
  match c.above with
  | [] => []
  | (t, i) :: _ => t.parts.drop (i + 1)

mutual

/-- A tree inside the nodes `above` and all trees in it, each before its parts, and behind them
`rest`. -/
def walk : List Cursor → List (Tree × Nat) → Tree → List Cursor
  | rest, above, .token t => ⟨.token t, above⟩ :: rest
  | rest, above, .node k s ts =>
    ⟨.node k s ts, above⟩ :: walkParts rest (.node k s ts) 0 above ts

def walkParts : List Cursor → Tree → Nat → List (Tree × Nat) → List Tree → List Cursor
  | rest, _, _, _, [] => rest
  | rest, parent, i, above, t :: ts =>
    walk (walkParts rest parent (i + 1) above ts) ((parent, i) :: above) t

end

/-- The focus and all trees in it in preorder. -/
def preorder (c : Cursor) : List Cursor := walk [] c.above c.focus

mutual

theorem walk_append (xs ys : List Cursor) (above : List (Tree × Nat)) (t : Tree) :
    walk (xs ++ ys) above t = walk xs above t ++ ys := by
  cases t with
  | token => rfl
  | node k s ts => simp only [walk, walkParts_append xs ys _ 0 above ts, List.cons_append]

theorem walkParts_append (xs ys : List Cursor) (parent : Tree) (i : Nat)
    (above : List (Tree × Nat)) (ts : List Tree) :
    walkParts (xs ++ ys) parent i above ts = walkParts xs parent i above ts ++ ys := by
  cases ts with
  | nil => rfl
  | cons t ts => simp only [walkParts, walkParts_append xs ys parent (i + 1) above ts, walk_append]

end

theorem walkParts_eq (rest : List Cursor) (parent : Tree) (i : Nat) (above : List (Tree × Nat))
    (ts : List Tree) :
    walkParts rest parent i above ts =
      (ts.mapIdx fun j t => (⟨t, (parent, i + j) :: above⟩ : Cursor)).flatMap preorder ++ rest := by
  induction ts generalizing i with
  | nil => rfl
  | cons t ts ih =>
    have h := walk_append [] (walkParts rest parent (i + 1) above ts) ((parent, i) :: above) t
    simp_all [walkParts, preorder, List.mapIdx_cons, Nat.add_assoc, Nat.add_comm 1]

theorem preorder_eq (c : Cursor) : c.preorder = c :: c.parts.flatMap preorder := by
  obtain ⟨t, above⟩ := c
  cases t with
  | token => rfl
  | node k s ts => simp [preorder, walk, walkParts_eq, parts, Tree.parts]

/-- The nodes of the focus in preorder, itself among them. -/
def nodes (c : Cursor) : List Cursor := c.preorder.filter (·.focus.isNode)

def nodesOf (k : Kind) (c : Cursor) : List Cursor :=
  c.preorder.filter fun d => d.focus.isNode && d.kind == k

/-- The tokens of the focus from left to right. -/
def leaves (c : Cursor) : List Cursor := c.preorder.filter (!·.focus.isNode)

end Cursor

end CppRefactor
