import CppRefactor.Syntax.View.Declaration
import CppRefactor.Text.Placement

/-!
Where new members go in a class: at the end of its last section of their access level, or in a new
section before the closing brace.
-/

namespace CppRefactor

structure MemberInsertion where
  offset : Nat
  /-- What goes before the members: a new section, or a line break for a brace on a line with
  code. -/
  before : String
  indent : String
  deriving DecidableEq, Repr, Inhabited

namespace MemberInsertion

/-- The text for member declarations, each of which gets a line. -/
def render (m : MemberInsertion) (declarations : List String) : String :=
  m.before ++ .join (declarations.map fun d => m.indent ++ d ++ "\n")

/-- The indentation of members: that of the first one, unless it has none. -/
def memberIndent (text : String) (lines : LineIndex) (width : Nat) (members : List Tree) : String :=
  let first := members.find? (·.kind != .accessSpec)
  let written := (first.map fun m => lines.indentationAt text m.span.start).getD ""
  if written.isEmpty then .ofList (.replicate width ' ') else written

/-- The end of the last section of an access level before the section that `inside` tells of; the
end of the body is `close`. -/
def sectionEnd (lines : LineIndex) (access : Access) (close : Nat) (inside : Bool)
    (found : Option Nat) : List Tree → Option Nat
  | [] => if inside then some close else found
  | m :: ms =>
    if m.kind == .accessSpec then
      let found := if inside then some (lines.lineStart m.span.start) else found
      let inside := AccessSection.access m == access && !AccessSection.isSignalsOrSlots m
      sectionEnd lines access close inside found ms
    else sectionEnd lines access close inside found ms

/-- Where members of an access level go in a class whose body is closed. -/
def find? (text : String) (lines : LineIndex) (cls : Tree) (access : Access) (width : Nat) :
    Option MemberInsertion := do
  let list ← Class.members? cls
  let brace := (← list.closeBrace?).offset
  let close := Text.lineStartIfBlank text lines brace
  let lineBreak := if Text.hasCodeBefore text lines brace then "\n" else ""
  let members := list.items
  let indent := memberIndent text lines width members
  match sectionEnd lines access close (Class.defaultAccess cls == access) none members with
  | some offset => return ⟨offset, if offset = close then lineBreak else "", indent⟩
  | none =>
    let gap := if members.isEmpty then "" else "\n"
    return ⟨close, lineBreak ++ gap ++ access.text ++ ":\n", indent⟩

end MemberInsertion

end CppRefactor
