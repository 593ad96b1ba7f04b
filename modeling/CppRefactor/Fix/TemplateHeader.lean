import CppRefactor.Syntax.Cursor
import CppRefactor.Syntax.View.Item

/-!
The `template<...>` lines of declarations, written again for definitions that stand elsewhere.
-/

namespace CppRefactor

/-- A template header, and the names of its parameters. -/
structure TemplateHeader where
  text : String
  names : List String
  deriving DecidableEq, Repr, Inhabited

namespace TemplateHeader

/-- A parameter as written without its default, and its name. The parameter without a name at
position `i` is called by that position. -/
def parameter (i : Nat) (p : Tree) : String × String :=
  let written := TemplateParameter.text p
  match TemplateParameter.name? p with
  | some name => (written, name.text)
  | none =>
    let name := "T" ++ toString (i + 1)
    (written ++ " " ++ name, name)

/-- The header of a template declaration; parameters without a name get one. -/
def ofTemplate (template : Tree) : TemplateHeader :=
  match template.child? .templateParamList with
  | none => ⟨"template<>", []⟩
  | some list =>
    let params := (list.childrenOf .templateParam).mapIdx parameter
    ⟨"template<" ++ ", ".intercalate (params.map (·.1)) ++ ">", params.map (·.2)⟩

end TemplateHeader

namespace Cursor

/-- The outermost of the templates directly around, or the focus. -/
def outermostTemplate (c : Cursor) : Cursor :=
  ((c.enclosing.takeWhile (·.kind == .templateDecl)).getLast?).getD c

/-- The template declaration directly around. -/
def template? (c : Cursor) : Option Cursor := c.up?.filter (·.kind == .templateDecl)

end Cursor

end CppRefactor
