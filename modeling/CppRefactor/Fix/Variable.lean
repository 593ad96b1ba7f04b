/-!
Variables as generated code declares them.
-/

namespace CppRefactor

/-- A type and a name declared of it: `int x`, `const char *x`. -/
def declarationText (type name : String) : String :=
  match type.toList.getLast? with
  | some '*' | some '&' => type ++ name
  | _ => type ++ " " ++ name

structure Variable where
  name : String
  type : String
  deriving DecidableEq, Repr, Inhabited

/-- The variable as a parameter or at the start of a declaration. -/
def Variable.declared (v : Variable) : String := declarationText v.type v.name

end CppRefactor
