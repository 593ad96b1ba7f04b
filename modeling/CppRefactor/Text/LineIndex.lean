import CppRefactor.Text.Bytes
import CppRefactor.Text.Blank

/-!
Lines of a text by byte offset. A line ends before a line feed, which alone separates lines.
-/

namespace CppRefactor

/-- A line and a column, both counted from zero; a column counts bytes. -/
structure LineCol where
  line : Nat
  col : Nat
  deriving DecidableEq, Repr, Inhabited

/-- The offsets at which the lines of a text start, and the length of the text. -/
structure LineIndex where
  starts : List Nat
  length : Nat
  deriving DecidableEq, Repr, Inhabited

namespace LineIndex

/-- The offsets just past the line feeds of a text that begins at `offset`. -/
def startsAfter (offset : Nat) : List Char → List Nat
  | [] => []
  | c :: cs =>
    let next := offset + c.utf8Size
    if c = '\n' then next :: startsAfter next cs else startsAfter next cs

def ofText (text : String) : LineIndex :=
  ⟨0 :: startsAfter 0 text.toList, text.utf8ByteSize⟩

def lineCount (index : LineIndex) : Nat := index.starts.length

/-- The last line that starts at the offset or before it. -/
def lineOf (index : LineIndex) (offset : Nat) : Nat :=
  (index.starts.takeWhile (· ≤ offset)).length - 1

def start (index : LineIndex) (line : Nat) : Nat :=
  (index.starts[line]?).getD 0

/-- The offset of the line feed that ends a line, or the end of the text. -/
def stop (index : LineIndex) (line : Nat) : Nat :=
  match index.starts[line + 1]? with
  | some next => next - 1
  | none => index.length

/-- The place of an offset; past the end it is that of the end. -/
def lineCol (index : LineIndex) (offset : Nat) : LineCol :=
  let offset := min offset index.length
  let line := index.lineOf offset
  ⟨line, offset - index.start line⟩

/-- The offset of a place, if its line is that long. -/
def offset? (index : LineIndex) (place : LineCol) : Option Nat := do
  let start ← index.starts[place.line]?
  let offset := start + place.col
  guard (offset ≤ index.stop place.line)
  return offset

def lineStart (index : LineIndex) (offset : Nat) : Nat :=
  index.start (index.lineOf (min offset index.length))

def lineEnd (index : LineIndex) (offset : Nat) : Nat :=
  index.stop (index.lineOf (min offset index.length))

/-- The start of the next line, or the end of the text. -/
def nextLineStart (index : LineIndex) (offset : Nat) : Nat :=
  (index.starts[index.lineOf (min offset index.length) + 1]?).getD index.length

/-- The span of a line without its line feed. -/
def lineSpan? (index : LineIndex) (line : Nat) : Option Span :=
  index.starts[line]?.map fun start => ⟨start, index.stop line⟩

/-- The spaces and tabs that begin the line of an offset in `text`. -/
def indentationAt (index : LineIndex) (text : String) (offset : Nat) : String :=
  Text.indentation
    (Text.slice text ⟨index.lineStart offset, min (index.lineEnd offset) text.utf8ByteSize⟩)

end LineIndex

end CppRefactor
