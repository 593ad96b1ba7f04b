import CppRefactor.Text.LetterCase

/-!
Names of getters and setters, made from the name of a data member without its decoration.
-/

namespace CppRefactor

structure AccessorNames where
  /-- The member's name without decoration. -/
  base : String
  getter : String
  setter : String
  parameter : String
  deriving DecidableEq, Repr, Inhabited

namespace AccessorNames

/-- A member's name without its decoration: an `m_`, an `m` before a capital letter, or an
underscore at either end. Something is always left. -/
def undecorated : List Char → List Char
  | ['m', '_'] => ['m']
  | 'm' :: '_' :: rest => rest
  | cs =>
    match cs with
    | 'm' :: c :: rest => if Text.isUppercase c then c :: rest else withoutUnderscore cs
    | _ => withoutUnderscore cs
where
  withoutUnderscore (cs : List Char) : List Char :=
    match cs with
    | '_' :: c :: rest => c :: rest
    | _ =>
      match cs.reverse with
      | '_' :: c :: rest => (c :: rest).reverse
      | _ => cs

def plainName (member : String) : String :=
  Text.uncapitalize (.ofList (undecorated member.toList))

/-- The names for a member. The getter has the bare name, unless a prefix is asked for, the member
itself is called so, or the name is taken. -/
def ofMember (member : String) (withPrefix : Bool) (taken : String → Bool) : AccessorNames :=
  let base := plainName member
  { base
    getter :=
      if withPrefix || base == member || taken base then "get" ++ Text.capitalize base else base
    setter := "set" ++ Text.capitalize base
    parameter :=
      if base != member then base else if member == "value" then "newValue" else "value" }

end AccessorNames

end CppRefactor
