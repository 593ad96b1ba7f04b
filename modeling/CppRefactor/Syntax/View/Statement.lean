import CppRefactor.Syntax.Cursor

/-!
Reading statements: which of them lead out of the statements around them.
-/

namespace CppRefactor

namespace Kind

def isLoop : Kind → Bool
  | .forStmt | .whileStmt | .doStmt => true
  | _ => false

/-- A statement of this kind leads somewhere else, or is led to from somewhere else. `inLoop` and
`inSwitch` tell whether a loop or a switch that counts is around it. -/
def leads (inLoop inSwitch : Bool) : Kind → Bool
  | .returnStmt | .gotoStmt => true
  | .breakStmt => !inLoop && !inSwitch
  | .continueStmt => !inLoop
  | .caseLabel | .defaultLabel => !inSwitch
  | _ => false

end Kind

namespace Tree

mutual

/-- Something in a statement leads out of it, or belongs to a switch around it. Loops and switches
inside the statement keep their own jumps and labels; those around it that count are given. -/
def escapes (inLoop inSwitch : Bool) : Tree → Bool
  | .token _ => false
  | .node k _ ts =>
    k.leads inLoop inSwitch || anyEscapes (inLoop || k.isLoop) (inSwitch || k == .switchStmt) ts

def anyEscapes (inLoop inSwitch : Bool) : List Tree → Bool
  | [] => false
  | t :: ts => escapes inLoop inSwitch t || anyEscapes inLoop inSwitch ts

end

end Tree

namespace Cursor

/-- Whether a node on a way up from the focus has a kind. The way ends with the statement that the
focus is in. -/
def meets (statements : List Cursor) (q : Kind → Bool) (c : Cursor) : List Cursor → Bool
  | [] => false
  | d :: way =>
    if !d.same c && q d.kind then true
    else if statements.any (·.same d) then false
    else meets statements q c way

def isEnclosedBy (statements : List Cursor) (q : Kind → Bool) (c : Cursor) : Bool :=
  meets statements q c c.ancestors

/-- A node leads out of the statements that it is in, or belongs to a switch around them. -/
def leadsOut (statements : List Cursor) (c : Cursor) : Bool :=
  match c.kind with
  | .returnStmt | .gotoStmt => true
  | .breakStmt => !c.isEnclosedBy statements fun k => k.isLoop || k == .switchStmt
  | .continueStmt => !c.isEnclosedBy statements Kind.isLoop
  | .caseLabel | .defaultLabel => !c.isEnclosedBy statements (· == .switchStmt)
  | _ => false

def leaveSelection (statements : List Cursor) : Bool :=
  (statements.flatMap nodes).any (leadsOut statements)

end Cursor

end CppRefactor
