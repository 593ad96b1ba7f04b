import CppRefactor.Syntax.Tree

/-!
Outlines: trees whose leaves stand for words, the tokens that are not trivia. An outline says how
the words nest; weaving it with the tokens of a text gives the tree of the text, with trivia outside
every node that starts behind it. Trivia at the end of a text is in a node only where a word was
looked for there.
-/

namespace CppRefactor

inductive Outline
  | word
  /-- The place of a word that is not there. -/
  | gap
  | node (kind : Kind) (parts : List Outline)
  deriving Repr, Inhabited

namespace Outline

mutual

/-- How many words an outline has. -/
def words : Outline → Nat
  | word => 1
  | gap => 0
  | node _ ps => wordsOf ps

def wordsOf : List Outline → Nat
  | [] => 0
  | p :: ps => words p + wordsOf ps

end

@[simp] theorem words_word : words word = 1 := rfl

@[simp] theorem words_gap : words gap = 0 := rfl

@[simp] theorem words_node (k : Kind) (ps : List Outline) : words (node k ps) = wordsOf ps := rfl

@[simp] theorem wordsOf_nil : wordsOf [] = 0 := rfl

@[simp] theorem wordsOf_cons (p : Outline) (ps : List Outline) :
    wordsOf (p :: ps) = words p + wordsOf ps := rfl

@[simp] theorem wordsOf_append (ps qs : List Outline) :
    wordsOf (ps ++ qs) = wordsOf ps + wordsOf qs := by
  induction ps with
  | nil => simp
  | cons p ps ih => simp [ih, Nat.add_assoc]

@[simp] theorem wordsOf_reverse (ps : List Outline) : wordsOf ps.reverse = wordsOf ps := by
  induction ps with
  | nil => rfl
  | cons p ps ih => simp [ih, Nat.add_comm]

/-- The tokens that are not yet in the tree, and the offset of the first. -/
structure Feed where
  offset : Nat
  tokens : List Token

namespace Feed

/-- The offset behind tokens that start at `offset`. -/
def advance (offset : Nat) : List Token → Nat
  | [] => offset
  | t :: ts => advance (offset + t.text.utf8ByteSize) ts

/-- The trivia at the front, and what is left. -/
def trivia (f : Feed) : List Tree × Feed :=
  let blank := f.tokens.takeWhile (·.isTrivia)
  (blank.map .token, ⟨advance f.offset blank, f.tokens.dropWhile (·.isTrivia)⟩)

def next (f : Feed) : List Tree × Feed :=
  match f.tokens with
  | [] => ([], f)
  | t :: ts => ([.token t], ⟨f.offset + t.text.utf8ByteSize, ts⟩)

/-- All tokens, and the end. -/
def rest (f : Feed) : List Tree × Feed :=
  (f.tokens.map .token, ⟨advance f.offset f.tokens, []⟩)

end Feed

mutual

/-- The tree of an outline whose first word, or whose place if it has none, the feed is at. -/
def weave : Outline → Feed → List Tree × Feed
  | word, f => f.next
  | gap, f => ([], f)
  | node k ps, f =>
    let (ts, f') := weaveAll ps f
    ([.node k ⟨f.offset, f'.offset⟩ ts], f')

/-- The trees of consecutive outlines, with the trivia before each. -/
def weaveAll : List Outline → Feed → List Tree × Feed
  | [], f => ([], f)
  | p :: ps, f =>
    let (blank, f₁) := f.trivia
    let (tree, f₂) := p.weave f₁
    let (trees, f₃) := weaveAll ps f₂
    (blank ++ tree ++ trees, f₃)

end

/-- The tree of a whole text: its root holds the trees of the outlines and all tokens left over. -/
def weaveRoot (kind : Kind) (parts : List Outline) (tokens : List Token) : Tree :=
  let (ts, f) := weaveAll parts ⟨0, tokens⟩
  let (last, f') := f.rest
  .node kind ⟨0, f'.offset⟩ (ts ++ last)

end Outline

end CppRefactor
