import CppRefactor.Text.LineIndex

/-!
Places for new text: at the start of a line or between blank lines.
-/

namespace CppRefactor.Text

/-- Something but blanks stands before an offset on its line. -/
def hasCodeBefore (text : String) (lines : LineIndex) (offset : Nat) : Bool :=
  !(trim (slice text ⟨lines.lineStart offset, offset⟩)).isEmpty

/-- The start of the line of an offset if only blanks stand between them, or else the offset. -/
def lineStartIfBlank (text : String) (lines : LineIndex) (offset : Nat) : Nat :=
  if hasCodeBefore text lines offset then offset else lines.lineStart offset

/-- Where something goes behind a declaration that ends at an offset: on the next line, unless
something follows on the same one. -/
def behindDeclaration (text : String) (lines : LineIndex) (stop : Nat) : Nat :=
  if (trim (slice text ⟨stop, lines.lineEnd stop⟩)).isEmpty then lines.nextLineStart stop else stop

/-- What goes before a block so that a blank line stands between it and the text before. -/
def gapBefore (before : List Char) : String :=
  match before.reverse with
  | '\n' :: '\n' :: _ => ""
  | '\n' :: _ => "\n"
  | [] => "\n"
  | _ => "\n\n"

/-- What goes behind a block; a blank line, a directive or the end may follow directly. -/
def gapAfter (after : List Char) : String :=
  match after.head? with
  | none | some '\n' | some '#' => "\n"
  | _ => "\n\n"

/-- A block with the blank lines that set it apart at an offset of a text. -/
def setApart (text : String) (offset : Nat) (block : String) : String :=
  let cs := text.toList
  let (before, after) := (cut? offset cs).getD (cs, [])
  gapBefore before ++ block ++ gapAfter after

end CppRefactor.Text
