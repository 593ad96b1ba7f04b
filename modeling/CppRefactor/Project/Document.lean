/-!
Documents: a text under a revision that changes whenever the text does.
-/

namespace CppRefactor

structure Document where
  text : String
  revision : Nat
  deriving DecidableEq, Repr, Inhabited

end CppRefactor
