import CppRefactor.Syntax.Token

/-!
Syntax trees. The leaves are tokens, trivia included, so the text of a tree is the text it covers.
-/

namespace CppRefactor

/-- A token, or a node with the span of its children; a node without any has an empty span. -/
inductive Tree
  | token (token : Token)
  | node (kind : Kind) (span : Span) (children : List Tree)
  deriving Repr, Inhabited

namespace Tree

def kind : Tree → Kind
  | token t => t.kind
  | node k _ _ => k

def span : Tree → Span
  | token t => t.span
  | node _ s _ => s

def parts : Tree → List Tree
  | token _ => []
  | node _ _ ts => ts

def isNode : Tree → Bool
  | token _ => false
  | node .. => true

def token? : Tree → Option Token
  | token t => some t
  | node .. => none

mutual

/-- The tokens of a tree from left to right, and behind them `rest`. -/
def leavesBefore : List Token → Tree → List Token
  | rest, token t => t :: rest
  | rest, node _ _ ts => leavesOfBefore rest ts

def leavesOfBefore : List Token → List Tree → List Token
  | rest, [] => rest
  | rest, t :: ts => leavesBefore (leavesOfBefore rest ts) t

end

/-- The tokens of a tree from left to right. -/
def leaves (t : Tree) : List Token := leavesBefore [] t

mutual

theorem leavesBefore_append (xs ys : List Token) (t : Tree) :
    leavesBefore (xs ++ ys) t = leavesBefore xs t ++ ys := by
  cases t with
  | token => rfl
  | node k s ts => exact leavesOfBefore_append xs ys ts

theorem leavesOfBefore_append (xs ys : List Token) (ts : List Tree) :
    leavesOfBefore (xs ++ ys) ts = leavesOfBefore xs ts ++ ys := by
  cases ts with
  | nil => rfl
  | cons t ts => simp only [leavesOfBefore, leavesOfBefore_append xs ys ts, leavesBefore_append]

end

theorem leavesOfBefore_eq (rest : List Token) (ts : List Tree) :
    leavesOfBefore rest ts = ts.flatMap leaves ++ rest := by
  induction ts with
  | nil => rfl
  | cons t ts ih =>
    have h := leavesBefore_append [] (ts.flatMap leaves ++ rest) t
    simp_all [leavesOfBefore, leaves]

@[simp] theorem leaves_token (t : Token) : leaves (token t) = [t] := rfl

@[simp] theorem leaves_node (k : Kind) (s : Span) (ts : List Tree) :
    leaves (node k s ts) = ts.flatMap leaves := by
  simp [leaves, leavesBefore, leavesOfBefore_eq]

mutual

/-- A tree and all trees in it, each before its parts, and behind them `rest`. -/
def preorderBefore : List Tree → Tree → List Tree
  | rest, token t => token t :: rest
  | rest, node k s ts => node k s ts :: preorderOfBefore rest ts

def preorderOfBefore : List Tree → List Tree → List Tree
  | rest, [] => rest
  | rest, t :: ts => preorderBefore (preorderOfBefore rest ts) t

end

/-- The tree and all trees in it, each before its parts. -/
def preorder (t : Tree) : List Tree := preorderBefore [] t

mutual

theorem preorderBefore_append (xs ys : List Tree) (t : Tree) :
    preorderBefore (xs ++ ys) t = preorderBefore xs t ++ ys := by
  cases t with
  | token => rfl
  | node k s ts => simp only [preorderBefore, preorderOfBefore_append xs ys ts, List.cons_append]

theorem preorderOfBefore_append (xs ys : List Tree) (ts : List Tree) :
    preorderOfBefore (xs ++ ys) ts = preorderOfBefore xs ts ++ ys := by
  cases ts with
  | nil => rfl
  | cons t ts =>
    simp only [preorderOfBefore, preorderOfBefore_append xs ys ts, preorderBefore_append]

end

theorem preorderOfBefore_eq (rest : List Tree) (ts : List Tree) :
    preorderOfBefore rest ts = ts.flatMap preorder ++ rest := by
  induction ts with
  | nil => rfl
  | cons t ts ih =>
    have h := preorderBefore_append [] (ts.flatMap preorder ++ rest) t
    simp_all [preorderOfBefore, preorder]

@[simp] theorem preorder_token (t : Token) : preorder (token t) = [token t] := rfl

@[simp] theorem preorder_node (k : Kind) (s : Span) (ts : List Tree) :
    preorder (node k s ts) = node k s ts :: ts.flatMap preorder := by
  simp [preorder, preorderBefore, preorderOfBefore_eq]

mutual

/-- The token that ends a tree; a tree that ends with an empty node has none. -/
def lastLeaf? : Tree → Option Token
  | token t => some t
  | node _ _ ts => lastLeafOf ts

def lastLeafOf : List Tree → Option Token
  | [] => none
  | [t] => lastLeaf? t
  | _ :: ts => lastLeafOf ts

end

/-- The nodes of a tree in preorder, itself among them. -/
def nodes (t : Tree) : List Tree := t.preorder.filter isNode

def text (t : Tree) : String := .join (t.leaves.map (·.text))

/-- The tokens that are not trivia. -/
def significant (t : Tree) : List Token := t.leaves.filter (!·.isTrivia)

/-- The nodes directly below. -/
def children (t : Tree) : List Tree := t.parts.filter isNode

def childrenOf (k : Kind) (t : Tree) : List Tree :=
  t.parts.filter fun p => p.isNode && p.kind == k

def child? (k : Kind) (t : Tree) : Option Tree :=
  t.parts.find? fun p => p.isNode && p.kind == k

/-- The tokens directly below. -/
def tokens (t : Tree) : List Token := t.parts.filterMap token?

def firstToken? (k : Kind) (t : Tree) : Option Token := t.tokens.find? (·.kind == k)

def lastToken? (k : Kind) (t : Tree) : Option Token := t.tokens.findRev? (·.kind == k)

def hasToken (k : Kind) (t : Tree) : Bool := t.tokens.any (·.kind == k)

/-- The first token directly below that is not trivia. -/
def leadToken? (t : Tree) : Option Token := t.tokens.find? (!·.isTrivia)

/-- The kind of that token: the class key, the access level or the operator a node begins with. -/
def leadKind? (t : Tree) : Option Kind := t.leadToken?.map fun t => t.kind

end Tree

end CppRefactor
