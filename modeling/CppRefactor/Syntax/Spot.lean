import CppRefactor.Syntax.Cursor

/-!
Spots: a place in a tree with the token there and the nodes around it.
-/

namespace CppRefactor

structure Spot where
  offset : Nat
  selection : Option Span
  token : Option Cursor
  /-- The nodes around the token or the selection, the innermost first. -/
  around : List Cursor
  deriving Inhabited

namespace Spot

/-- How much a token is preferred to its neighbour when a place is between them. -/
def rank (k : Kind) : Nat :=
  if k == .ident || k.isLiteral then 3
  else if k.isKeyword then 2
  else if !k.isTrivia then 1
  else 0

/-- The token at an offset; between two tokens the one of higher rank, else the right one. -/
def tokenAt? (root : Cursor) (offset : Nat) : Option Cursor :=
  match root.leaves.filter (·.span.touches offset) with
  | left :: right :: _ => if rank right.kind < rank left.kind then some left else some right
  | [only] => some only
  | [] => none

/-- The innermost tree that encloses a span. -/
def covering (root : Cursor) (span : Span) : Cursor :=
  ((root.preorder.filter (·.span.encloses span)).getLast?).getD root

/-- The node a tree is, or the one a token is in, and the nodes around it. -/
def nodesFrom (c : Cursor) : List Cursor := c.ancestors.filter (·.focus.isNode)

/-- The spot at an offset or around a selection; offsets past the end are taken as the end. -/
def ofRoot (root : Cursor) (offset : Nat) (selection : Option Span) : Spot :=
  let offset := min offset root.span.stop
  let token := tokenAt? root offset
  let innermost :=
    match selection.filter fun s => !s.isEmpty && s.stop ≤ root.span.stop with
    | some s => some (covering root s)
    | none => token
  { offset, selection, token, around := (innermost.map nodesFrom).getD [root] }

/-- The innermost node of a kind. -/
def find? (s : Spot) (k : Kind) : Option Cursor := s.around.find? (·.kind == k)

end Spot

end CppRefactor
