import CppRefactor.Grammar.Declarations
import CppRefactor.Syntax.Lexer

/-!
Parsing a text: a tree that holds every token, and the errors in the order in which they were found.
-/

namespace CppRefactor

namespace Grammar

/-- What a rule stands for, with `go` for the rules in it. -/
def ruleBody (go : Rule → Parser Unit) : Rule → Parser Unit
  | .declaration place => declaration go place
  | .statement => statement go
  | .expression stops => expression go stops
  | .specifiers place => specifiers go place
  | .declarator place => discard (declarator go place)

/-- Runs a rule, with rules in it down to a depth. -/
def runRule : Nat → Rule → Parser Unit
  | 0, _ => failure
  | depth + 1, rule => ruleBody (runRule depth) rule

/-- A depth that rules over so many words do not reach: between two words at most four of them
begin. -/
def depthFor (words : Nat) : Nat := 4 * words + 4

/-- Declarations up to the end. What follows a closing brace without an opening one is skipped. -/
def sourceFile : Parser Unit := do
  let depth := depthFor (← upcoming).length
  loop do
    if ← atEnd then return false
    if ← isAt .rBrace then recover .unmatchedBrace []
    else runRule depth (.declaration .scope)
    return true

/-- The outlines of the declarations of a file, and the faults in the order they were reported. -/
def outline (words : List Word) : List Outline × List Fault :=
  match sourceFile.run (.start words) with
  | some (_, s) => (s.built.reverse, s.faults.reverse)
  | none => ([], [])

end Grammar

structure SyntaxError where
  complaint : Grammar.Complaint
  span : Span
  deriving DecidableEq, Repr, Inhabited

def SyntaxError.message (e : SyntaxError) : String := e.complaint.message

structure Parse where
  tree : Tree
  errors : List SyntaxError
  deriving Inhabited

/-- The parse found nothing to complain of. -/
def Parse.ok (p : Parse) : Bool := p.errors.isEmpty

def parseTokens (tokens : List Token) : Parse :=
  let (parts, faults) := Grammar.outline (Grammar.wordsOf .none tokens)
  let tree := Outline.weaveRoot .sourceFile parts tokens
  let words := (tokens.filter (!·.isTrivia)).toArray
  { tree
    errors := faults.map fun fault =>
      ⟨fault.complaint, (words[fault.words]?.map Token.span).getD (.point tree.span.stop)⟩ }

def parse (text : String) : Parse := parseTokens (tokenize text)

end CppRefactor
