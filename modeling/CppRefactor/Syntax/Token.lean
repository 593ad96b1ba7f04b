import CppRefactor.Syntax.Kind
import CppRefactor.Text.Span

/-!
Tokens: a kind, the text as written, and the offset at which the text starts.
-/

namespace CppRefactor

structure Token where
  kind : Kind
  offset : Nat
  text : String
  deriving DecidableEq, Repr, Inhabited

namespace Token

def stop (t : Token) : Nat := t.offset + t.text.utf8ByteSize

def span (t : Token) : Span := ⟨t.offset, t.stop⟩

def isTrivia (t : Token) : Bool := t.kind.isTrivia

/-- The text has a line feed in it. -/
def breaksLine (t : Token) : Bool := t.text.toList.contains '\n'

end Token

end CppRefactor
