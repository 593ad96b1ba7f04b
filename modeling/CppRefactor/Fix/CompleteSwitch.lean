import CppRefactor.Fix.Request
import CppRefactor.Text.Placement

/-!
Completing a `switch` over an enumeration: a case for each enumerator that has none.
-/

namespace CppRefactor

structure CompleteSwitch where
  offset : Nat
  text : String
  deriving DecidableEq, Repr, Inhabited

namespace CompleteSwitch

/-- The labels of a switch, and not of one inside it. -/
def labels (switch body : Cursor) : List Cursor :=
  (body.nodesOf .caseLabel).filter fun label =>
    (label.ancestors.find? (·.kind == .switchStmt)).any (·.same switch)

/-- The values of labels, if all of them can be read. -/
def labelValue (label : Cursor) : Except FixError Cursor := do
  unless label.focus.hasToken .colon do throw (.malformed .caseWithoutColon)
  let value ← orError (.malformed .caseWithoutValue)
    ((label.child? .expr).filter fun e => !Expression.isEmpty e.focus)
  if Expression.hasErrors value.focus then throw (.malformed .brokenCaseValue)
  return value

/-- What a case is for: a symbol, or a name that nothing is found for. -/
inductive Case
  | symbol (id : SymbolId)
  | name (text : String)
  deriving DecidableEq, Repr

/-- What a name in a label's value stands for. -/
def caseOf? (r : Request) (reference : Cursor) : Option Case :=
  match r.symbols.resolveReference r.file reference with
  | some id => some (.symbol id)
  | none => (reference.focus.name?.bind Name.last?).map fun s => .name s.text

/-- The cases a switch has already. -/
def present (r : Request) (switch body : Cursor) : Except FixError (List Case) := do
  let values ← (labels switch body).mapM labelValue
  return (values.flatMap (·.nodesOf .nameRef)).filterMap (caseOf? r)

def covers (t : SymbolTable) (enumerator : SymbolId) : Case → Bool
  | .symbol id => t.denoteSame id enumerator
  | .name text => text == (t.symbol enumerator).name

/-- New cases go before `default`, or else before the closing brace. -/
def place (body : Tree) : Except FixError Nat :=
  match body.child? .defaultLabel with
  | some label => .ok label.span.start
  | none => orError (.malformed .openSwitchBody) (body.closeBrace?.map (·.offset))

def caseText (indent inner label : String) : String :=
  indent ++ "case " ++ label ++ ":\n" ++ indent ++ inner ++ "break;\n"

/-- The cases for labels as they are inserted at a place. If code stands before it on its line, they
begin a line of their own, and so does what is behind them. -/
def insertion (r : Request) (switch : Cursor) (place : Nat) (labels : List String) :
    CompleteSwitch :=
  let indent := r.indentationAt switch.span.start
  let cases := String.join (labels.map (caseText indent (r.settings.indent 1)))
  { offset := Text.lineStartIfBlank r.text r.lines place
    text :=
      if Text.hasCodeBefore r.text r.lines place then "\n" ++ cases ++ indent else cases }

def offersFor (r : Request) (switch : Cursor) : Except FixError (List CompleteSwitch) := do
  let t := r.symbols
  let body ← orError (.malformed .switchWithoutBody) (switch.child? .compoundStmt)
  if r.hasErrorsIn body.span then throw (.malformed .brokenSwitchBody)
  let condition ← orError (.malformed .switchWithoutCondition)
    ((switch.focus.child? .condition).bind (·.child? .expr))
  let type ← orError (.unresolved .switchType) (t.typeOfExpression? r.file condition)
  unless (t.symbol type).kind == .enumKind do throw (.unresolved .switchEnumeration)
  let cases ← present r switch body
  let missing := (t.members type).filter fun e =>
    (t.symbol e).kind == .enumerator && !cases.any (covers t e)
  if missing.isEmpty then return []
  let site ← orError (.unresolved .switchScope) (r.siteAt? switch.span.start)
  let names := missing.map (t.shortestName site [])
  return [insertion r switch (← place body.focus) names]

/-- The fix offered in a switch that lacks a case for some enumerator. -/
def offers (r : Request) : Except FixError (List CompleteSwitch) :=
  match r.find? .switchStmt with
  | some switch => offersFor r switch
  | none => .ok []

def changes (r : Request) (f : CompleteSwitch) : Changeset :=
  Changeset.empty.editFile r.snapshot r.file (·.insert f.offset f.text)

end CompleteSwitch

end CppRefactor
