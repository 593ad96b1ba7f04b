import CppRefactor.Text.Blank

/-!
Indenting code: by the depth of its braces, or by moving lines to the left.
-/

namespace CppRefactor.Text

/-- The pieces of a text between line feeds. -/
def splitLines : List Char → List (List Char)
  | [] => [[]]
  | c :: cs =>
    if c = '\n' then [] :: splitLines cs
    else
      match splitLines cs with
      | [] => [[c]]
      | line :: lines => (c :: line) :: lines

def joinLines (lines : List (List Char)) : List Char := ['\n'].intercalate lines

/-- The lines of a text; a line feed at the end begins no other line. -/
def linesOf (cs : List Char) : List (List Char) :=
  let lines := splitLines cs
  if lines.getLast? == some [] then lines.dropLast else lines

/-- The braces of a line that nothing in it closes or opens. -/
structure Braces where
  opened : Nat
  closed : Nat
  /-- How many of the closed ones begin the line. -/
  leading : Nat
  /-- Something else than closing braces has been read. -/
  inside : Bool
  deriving DecidableEq, Repr

namespace Braces

def none : Braces := ⟨0, 0, 0, false⟩

def «open» (b : Braces) : Braces := { b with opened := b.opened + 1, inside := true }

def close (b : Braces) : Braces :=
  if b.opened != 0 then { b with opened := b.opened - 1 }
  else { b with closed := b.closed + 1, leading := if b.inside then b.leading else b.leading + 1 }

mutual

/-- Reads on outside quotes. A line comment ends the line. -/
def read (b : Braces) : List Char → Braces
  | [] => b
  | '/' :: '/' :: _ => b
  | c :: cs =>
    if c = '"' || c = '\'' then readQuoted { b with inside := true } c false cs
    else if c = '\x7b' then read b.open cs
    else if c = '\x7d' then read b.close cs
    else if isBlank c then read b cs
    else read { b with inside := true } cs

/-- Reads on between quotes; `escaped` says that a backslash stands before. -/
def readQuoted (b : Braces) (quote : Char) (escaped : Bool) : List Char → Braces
  | [] => b
  | c :: cs =>
    if escaped then readQuoted b quote false cs
    else if c = '\\' then readQuoted b quote true cs
    else if c = quote then read b cs
    else readQuoted b quote false cs

end

end Braces

/-- The braces of a line outside quotes and comments. -/
def bracesOf (line : List Char) : Braces := Braces.none.read line

def spaces (n : Nat) : List Char := .replicate n ' '

/-- Indents lines, the first of which is `depth` braces deep. Blank lines become empty. -/
def indentLines (base : List Char) (width depth : Nat) : List (List Char) → List (List Char)
  | [] => []
  | line :: lines =>
    let code := trimChars line
    if code.isEmpty then [] :: indentLines base width depth lines
    else
      let b := bracesOf code
      (base ++ spaces (width * (depth - b.leading)) ++ code) ::
        indentLines base width (depth + b.opened - b.closed) lines

/-- Indents every line by `base` and `width` spaces for each brace around it. -/
def reindent (text base : String) (width : Nat) : String :=
  let cs := text.toList
  let body := joinLines (indentLines base.toList width 0 (linesOf cs))
  .ofList (if cs.getLast? == some '\n' then body ++ ['\n'] else body)

/-- The line without up to `n` spaces and tabs at its start. -/
def stripIndent : Nat → List Char → List Char
  | n + 1, c :: cs => if isIndent c then stripIndent n cs else c :: cs
  | _, cs => cs

/-- Takes up to `n` spaces and tabs from the start of every line but the first. -/
def shiftLeft (text : String) (n : Nat) : String :=
  match splitLines text.toList with
  | [] => ""
  | first :: rest => .ofList (joinLines (first :: rest.map (stripIndent n)))

end CppRefactor.Text
