import CppRefactor.Syntax.Outline

/-!
Parsers: they take words from the front, build outlines and report faults. A parser sees of a token
its kind, its text and what kind of gap stands before it, and nothing of the trivia in the gap.
-/

namespace CppRefactor.Grammar

/-- What stands between a word and the one before: nothing, trivia on one line, or a line break. -/
inductive Gap
  | none
  | space
  | newline
  deriving DecidableEq, Repr, Inhabited

/-- The gap that grows by one token of trivia. -/
def Gap.add (gap : Gap) (t : Token) : Gap :=
  if gap = .newline || t.breaksLine then .newline else .space

/-- A token that is not trivia, as the grammar sees it. -/
structure Word where
  kind : Kind
  text : String
  gap : Gap
  deriving DecidableEq, Repr, Inhabited

/-- The words of a text behind a gap. -/
def wordsOf (gap : Gap) : List Token → List Word
  | [] => []
  | t :: ts =>
    if t.isTrivia then wordsOf (gap.add t) ts else ⟨t.kind, t.text, gap⟩ :: wordsOf .none ts

/-- What can be wrong with a text. -/
inductive Complaint
  | expected (kind : Kind)
  | noSemicolon
  | noName
  | noNamespaceName
  | noNamespaceBody
  | noClassBody
  | noBaseName
  | noEnumerator
  | noEnumeratorEnd
  | noParameterEnd
  | noMemberName
  | noMemberInitializer
  | noFunctionBody
  | noStatement
  | noCaseColon
  | noTryBlock
  | noCatchBlock
  | unexpectedInInitializer
  | unmatchedBrace
  deriving DecidableEq, Repr, Inhabited

def Complaint.message : Complaint → String
  | expected kind => "expected " ++ kind.name
  | noSemicolon => "expected ';'"
  | noName => "expected name"
  | noNamespaceName => "expected namespace name"
  | noNamespaceBody => "expected namespace body"
  | noClassBody => "expected class body"
  | noBaseName => "expected base class name"
  | noEnumerator => "expected enumerator"
  | noEnumeratorEnd => "expected ',' or '\x7d'"
  | noParameterEnd => "expected ',' or ')'"
  | noMemberName => "expected member name"
  | noMemberInitializer => "expected member initializer"
  | noFunctionBody => "expected function body"
  | noStatement => "expected statement"
  | noCaseColon => "expected ':' after case label"
  | noTryBlock => "expected '\x7b' after try"
  | noCatchBlock => "expected '\x7b' after catch"
  | unexpectedInInitializer => "unexpected token in initializer"
  | unmatchedBrace => "unmatched '\x7d'"

/-- A complaint about the word behind the first `words` ones, or about the end of the text. -/
structure Fault where
  complaint : Complaint
  words : Nat
  deriving DecidableEq, Repr, Inhabited

structure State where
  ahead : List Word
  /-- How many words have been taken. -/
  taken : Nat
  /-- A node has begun since the last word: the gap before the next one is closed. -/
  settled : Bool
  /-- The parts of the open node so far, the last first. -/
  built : List Outline
  /-- The last fault first. -/
  faults : List Fault

/-- Before the first word. -/
def State.start (words : List Word) : State := ⟨words, 0, false, [], []⟩

/-- A parser gives no result if it is cut off: rules nest deeper, or a step is repeated more often,
than it may. -/
abbrev Parser := StateT State Option

def upcoming : Parser (List Word) := return (← get).ahead

def atEnd : Parser Bool := return (← upcoming).isEmpty

def word? (n : Nat) : Parser (Option Word) := return (← upcoming)[n]?

/-- The kind of the word `n` places ahead; `error` past the end. -/
def kindAt (n : Nat) : Parser Kind := return ((← word? n).map (·.kind)).getD .error

def textAt (n : Nat) : Parser String := return ((← word? n).map (·.text)).getD ""

def peek : Parser Kind := kindAt 0

def isAtAny (ks : List Kind) : Parser Bool := do
  match ← word? 0 with
  | some w => return ks.contains w.kind
  | none => return false

def isAt (k : Kind) : Parser Bool := isAtAny [k]

/-- Takes the next word. At the end, the gap is closed and its place is in the open node. -/
def advance : Parser Unit :=
  modify fun s =>
    match s.ahead with
    | [] => { s with settled := true, built := .gap :: s.built }
    | _ :: ws => ⟨ws, s.taken + 1, false, .word :: s.built, s.faults⟩

def advanceBy : Nat → Parser Unit
  | 0 => pure ()
  | n + 1 => do advance; advanceBy n

def accept (k : Kind) : Parser Bool := do
  if ← isAt k then
    advance
    return true
  else return false

def report (complaint : Complaint) : Parser Unit :=
  modify fun s => { s with faults := ⟨complaint, s.taken⟩ :: s.faults }

def expect (k : Kind) : Parser Bool := do
  if ← accept k then return true
  else
    report (.expected k)
    return false

/-- The words up to the closer of a group; `depth` groups are open. -/
def groupLength (opener closer : Kind) : Nat → List Word → Nat
  | _, [] => 0
  | depth, w :: ws =>
    if w.kind = opener then 1 + groupLength opener closer (depth + 1) ws
    else if w.kind = closer then
      if depth ≤ 1 then 1 else 1 + groupLength opener closer (depth - 1) ws
    else 1 + groupLength opener closer depth ws

/-- Takes a parenthesised group up to its closer, or up to the end without one. -/
def takeParentheses : Parser Unit := do
  advanceBy (groupLength .lParen .rParen 0 (← upcoming))

def takeBrackets : Parser Unit := do
  advanceBy (groupLength .lBracket .rBracket 0 (← upcoming))

/-- How far the parser is: the words taken, and whether the gap behind them is closed. -/
def progress : Parser (Nat × Bool) := do
  let s ← get
  return (s.taken, s.settled || s.ahead.head?.all (·.gap == .none))

/-- A node of what `body` builds. -/
def node (kind : Kind) (body : Parser α) : Parser α := do
  let outer := (← get).built
  modify fun s => { s with settled := true, built := [] }
  let a ← body
  modify fun s => { s with built := .node kind s.built.reverse :: outer }
  return a

/-- A place among the parts of the open node, from which a node may begin. -/
def mark : Parser Nat :=
  modifyGet fun s => (s.built.length, { s with settled := true })

/-- Makes a node of the parts built since a mark. -/
def wrap (kind : Kind) (since : Nat) : Parser Unit :=
  modify fun s =>
    let n := s.built.length - since
    { s with built := .node kind (s.built.take n).reverse :: s.built.drop n }

/-- Repeats a step on a value for as long as it asks for more; cut off after `n` times. -/
def repeatUpTo : Nat → (σ → Parser (Bool × σ)) → σ → Parser σ
  | 0, _, _ => failure
  | n + 1, step, a => do
    let (more, b) ← step a
    if more then repeatUpTo n step b else return b

/-- Repeats a step that takes a word or closes a gap whenever it asks for more. -/
def loopFrom (a : σ) (step : σ → Parser (Bool × σ)) : Parser σ := do
  repeatUpTo (2 * (← upcoming).length + 2) step a

def loop (step : Parser Bool) : Parser Unit :=
  loopFrom () fun _ => return (← step, ())

/-- Repeats a step that takes a word for as long as a condition holds. -/
def loopWhile (condition : Parser Bool) (step : Parser Unit) : Parser Unit :=
  loop do
    if ← condition then
      step
      return true
    else return false

/-- Complains and skips words up to a stop, in any case one. -/
def recover (complaint : Complaint) (stops : List Kind) : Parser Unit := do
  report complaint
  node .error do
    let n := (← upcoming).findIdx fun w => stops.contains w.kind
    advanceBy (max n 1)

/-- A semicolon; without one, words are skipped up to it or to a closing brace. -/
def endWithSemicolon : Parser Unit := do
  unless ← accept .semicolon do
    if (← isAt .rBrace) || (← atEnd) then report .noSemicolon
    else
      recover .noSemicolon [.semicolon, .rBrace]
      discard (accept .semicolon)

/-- Where a declaration stands; names that could be types or not are read by it. -/
inductive Place
  | scope
  /-- In the body of a class of that name. -/
  | members (className : Option String)
  | block
  | parameter
  deriving DecidableEq, Repr, Inhabited

/-- The rules of the grammar that refer to each other. -/
inductive Rule
  | declaration (place : Place)
  | statement
  | expression (stops : List Kind)
  | specifiers (place : Place)
  | declarator (place : Place)
  deriving DecidableEq, Repr, Inhabited

end CppRefactor.Grammar
