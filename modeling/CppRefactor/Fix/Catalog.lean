import CppRefactor.Edit.Host
import CppRefactor.Fix.Accessors
import CppRefactor.Fix.CompleteSwitch
import CppRefactor.Fix.ExtractFunction
import CppRefactor.Fix.ExtractLiteral
import CppRefactor.Fix.ForwardDeclaration
import CppRefactor.Fix.MoveOutside
import CppRefactor.Fix.MoveToDeclaration
import CppRefactor.Fix.RemoveUsing

/-!
All fixes: which are offered at a place, and how one is made.
-/

namespace CppRefactor

/-- A fix that was offered, with what it has found out about the program. -/
inductive Fix
  | completeSwitch (fix : CompleteSwitch)
  | accessors (fix : AccessorFix)
  | moveOutside (fix : MoveOutside)
  | moveToDeclaration (fix : MoveToDeclaration)
  | addInclude (fix : AddInclude)
  | forwardDeclaration (fix : ForwardDeclaration)
  | extractLiteral (fix : ExtractLiteral)
  | extractFunction (fix : ExtractFunction)
  | removeUsing (fix : RemoveUsing)
  deriving Inhabited

namespace Fix

/-- The line a menu shows. -/
def description : Fix → String
  | completeSwitch _ => "Complete Switch Statement"
  | accessors f => f.description
  | moveOutside f => f.description
  | moveToDeclaration f => f.description
  | addInclude f => f.description
  | forwardDeclaration f => f.description
  | extractLiteral _ => "Extract Constant as Function Parameter"
  | extractFunction _ => "Extract Function"
  | removeUsing f => f.description

/-- The changes of a fix, for the request it was offered for. -/
def changes (r : Request) : Fix → Except FixError Changeset
  | completeSwitch f => .ok (f.changes r)
  | accessors f => .ok (f.changes r)
  | moveOutside f => .ok (f.changes r)
  | moveToDeclaration f => .ok (f.changes r)
  | addInclude f => .ok (f.changes r)
  | forwardDeclaration f => .ok (f.changes r)
  | extractLiteral f => f.changes r
  | extractFunction f => .ok (f.changes r)
  | removeUsing f => .ok (f.changes r)

/-- The changes with the edits of each file sorted and checked. -/
def finished (r : Request) (f : Fix) : Except FixError Changeset := do
  let c ← f.changes r
  c.finish.mapError .edit

/-- Makes a fix in the documents of a host, in all of them or in none. -/
def perform (r : Request) (f : Fix) (h : Host) : Except FixError (Changeset × Host) := do
  let c ← f.finished r
  return (c, ← (h.apply c).mapError .edit)

end Fix

/-- The kinds of fixes. -/
inductive FixKind
  | completeSwitch
  | accessors
  | moveOutside
  | moveAllOutside
  | moveToDeclaration
  | addInclude
  | forwardDeclaration
  | extractLiteral
  | extractFunction
  | removeUsing
  deriving DecidableEq, Repr, Inhabited

namespace FixKind

/-- All kinds in the order in which their fixes are offered. -/
def all : List FixKind :=
  [completeSwitch, accessors, moveOutside, moveAllOutside, moveToDeclaration, addInclude,
    forwardDeclaration, extractLiteral, extractFunction, removeUsing]

/-- The name a kind is reported by. -/
def name : FixKind → String
  | completeSwitch => "CompleteSwitchCaseStatement"
  | accessors => "GenerateGetterSetter"
  | moveOutside => "MoveFuncDefOutside"
  | moveAllOutside => "MoveAllFuncDefOutside"
  | moveToDeclaration => "MoveFuncDefToDecl"
  | addInclude => "AddIncludeForUndefinedIdentifier"
  | forwardDeclaration => "AddForwardDeclForUndefinedIdentifier"
  | extractLiteral => "ExtractLiteralAsParameter"
  | extractFunction => "ExtractFunction"
  | removeUsing => "RemoveUsingNamespace"

/-- The fixes of a kind that are offered for a request. -/
def offers (r : Request) : FixKind → Except FixError (List Fix)
  | completeSwitch => return (← CompleteSwitch.offers r).map .completeSwitch
  | accessors => return (← AccessorFix.offers r).map .accessors
  | moveOutside => return (← MoveOutside.offers r).map .moveOutside
  | moveAllOutside => return (← MoveOutside.offersAll r).map .moveOutside
  | moveToDeclaration => return (← MoveToDeclaration.offers r).map .moveToDeclaration
  | addInclude => return (← AddInclude.offers r).map .addInclude
  | forwardDeclaration => return (← ForwardDeclaration.offers r).map .forwardDeclaration
  | extractLiteral => return (← ExtractLiteral.offers r).map .extractLiteral
  | extractFunction => return (← ExtractFunction.offers r).map .extractFunction
  | removeUsing => return (← RemoveUsing.offers r).map .removeUsing

end FixKind

/-- A fix on the list of those offered for a request. -/
structure Candidate where
  kind : FixKind
  fix : Fix
  deriving Inhabited

namespace Request

/-- The fixes of one kind; if looking for them fails there are none. -/
def candidatesOf (r : Request) (kind : FixKind) : List Candidate :=
  match kind.offers r with
  | .ok fixes => fixes.map fun f => ⟨kind, f⟩
  | .error _ => []

/-- All fixes offered for a request. -/
def candidates (r : Request) : List Candidate := FixKind.all.flatMap r.candidatesOf

/-- Why kinds of fixes are not offered, where that is an error. -/
def failures (r : Request) : List (FixKind × FixError) :=
  FixKind.all.filterMap fun kind =>
    match kind.offers r with
    | .ok _ => none
    | .error e => some (kind, e)

end Request

end CppRefactor
