import CppRefactor.Project.Include
import CppRefactor.Text.Indentation

/-!
Where a new include directive goes. Directives on consecutive lines form a block, and those of one
kind in it a group. The new directive joins a group of its kind and directory, or one of mixed
directories, in order if that is sorted; else it begins a group of its own.
-/

namespace CppRefactor

/-- A text and the offset at which it goes. -/
structure Insertion where
  offset : Nat
  text : String
  deriving DecidableEq, Repr, Inhabited

namespace Include

/-- The characters behind the first end of a block comment. -/
def behindComment? : List Char → Option (List Char)
  | [] => none
  | '*' :: '/' :: cs => some cs
  | _ :: cs => behindComment? cs

def startsWith (word : String) (cs : List Char) : Bool := word.toList.isPrefixOf cs

/-- What is left of a line behind a comment it begins with, or `none` if the comment goes on. -/
def withoutComment? (inComment : Bool) (line : List Char) : Option (List Char) := do
  let line ← if inComment then (behindComment? line).map Text.trimChars else some line
  if startsWith "/*" line then (behindComment? line).map Text.trimChars else some line

/-- The first of the lines from number `i` on that is neither blank nor comment nor directive. -/
def lineOfCode (i : Nat) (inComment : Bool) : List (List Char) → Option Nat
  | [] => none
  | line :: lines =>
    match withoutComment? inComment (Text.trimChars line) with
    | none => lineOfCode (i + 1) true lines
    | some rest =>
      if rest.isEmpty || startsWith "//" rest || startsWith "#" rest then
        lineOfCode (i + 1) false lines
      else some i

/-- The argument of a directive of a name. -/
def argument? (name : String) (line : List Char) : Option (List Char) := do
  let rest ← Text.dropStart? "#" (Text.trimChars line)
  let rest ← Text.dropStart? name (rest.dropWhile Text.isBlank)
  let arg := Text.trimChars rest
  guard (!arg.isEmpty && rest.head?.any Text.isIndent)
  return arg

/-- The first line behind the comments, the guard and the `#pragma once` that the lines from number
`i` on begin with; `found` is the one known so far. -/
def behindPreamble (i : Nat) (inComment : Bool) (found : Option Nat) :
    List (List Char) → Option Nat
  | [] => if inComment then some (i + 1) else found
  | line :: lines =>
    let code := Text.trimChars line
    if inComment || startsWith "/*" code then
      if (behindComment? line).isSome then behindPreamble (i + 1) false (some (i + 1)) lines
      else behindPreamble (i + 1) true found lines
    else if code.isEmpty then behindPreamble (i + 1) false found lines
    else if startsWith "//" code || startsWith "#pragma once" code then
      behindPreamble (i + 1) false (some (i + 1)) lines
    else
      match lines with
      | [] => found
      | next :: lines =>
        let guarded := argument? "ifndef" code
        if guarded.isSome && guarded == argument? "define" next then
          behindPreamble (i + 2) false (some (i + 2)) lines
        else found

/-- The line for the first include of a file: behind its preamble and the blank lines there. -/
def preambleEnd (lines : List (List Char)) : Nat :=
  match behindPreamble 0 false none lines with
  | none => 0
  | some i =>
    let blank := (lines.drop i).takeWhile fun l => (Text.trimChars l).isEmpty
    min (i + blank.length) lines.length

end Include

/-- Consecutive directives of one kind. -/
structure IncludeGroup where
  first : Include
  rest : List Include
  /-- It is a whole block, and not a run in one of both kinds. -/
  isBlock : Bool
  deriving DecidableEq, Repr, Inhabited

namespace IncludeGroup

def entries (g : IncludeGroup) : List Include := g.first :: g.rest

def kind (g : IncludeGroup) : IncludeKind := g.first.kind

/-- The directory of all its paths, if that is one. -/
def directory? (g : IncludeGroup) : Option String :=
  if g.rest.all (·.directory == g.first.directory) then some g.first.directory else none

def sortedFrom (i : Include) : List Include → Bool
  | [] => true
  | j :: rest => !decide (j.path < i.path) && sortedFrom j rest

def isSorted (g : IncludeGroup) : Bool := sortedFrom g.first g.rest

def last (g : IncludeGroup) : Include := g.rest.getLastD g.first

def commonLength : List Char → List Char → Nat
  | c :: cs, d :: ds => if c = d then commonLength cs ds + 1 else 0
  | _, _ => 0

/-- The length of the longest beginning that a path of the group shares with another one. -/
def sharedLength (path : String) (g : IncludeGroup) : Nat :=
  (g.entries.map fun i => commonLength i.path.toList path.toList).foldl max 0

/-- The groups of one block. -/
def ofBlock (block : List Include) : List IncludeGroup :=
  let runs := block.splitBy fun i j => i.kind == j.kind
  runs.filterMap fun
    | [] => none
    | first :: rest => some ⟨first, rest, runs.length == 1⟩

def ofIncludes (is : List Include) : List IncludeGroup :=
  (is.splitBy fun i j => i.line + 1 == j.line).flatMap ofBlock

/-- The last of the greatest elements by a measure. -/
def greatestBy (measure : α → Nat) : List α → Option α
  | [] => none
  | a :: as =>
    match greatestBy measure as with
    | none => some a
    | some b => if measure a ≤ measure b then some b else some a

/-- The group of its kind that a directive joins: of those of its directory the one that shares the
longest beginning, else the last of mixed directories. -/
def joined? (path : String) (directory : String) (groups : List IncludeGroup) :
    Option IncludeGroup :=
  (greatestBy (sharedLength path) (groups.filter (·.directory? == some directory))).or
    (groups.findRev? (·.directory?.isNone))

end IncludeGroup

namespace Insertion

/-- The start of a line, or the end of the text for one behind the last. -/
def startOfLine (lines : LineIndex) (line : Nat) : Nat :=
  match lines.lineSpan? line with
  | some span => span.start
  | none => ((lines.lineSpan? (lines.lineCount - 1)).map Span.stop).getD 0

/-- The line of an offset holds nothing but blanks. -/
def isBlankAt (text : String) (lines : LineIndex) (offset : Nat) : Bool :=
  match (lines.lineSpan? (lines.lineOf offset)).bind (Text.slice? text) with
  | some line => line.toList.all Text.isBlank
  | none => false

/-- A line at an offset; behind a last line that is not ended it begins with a line break. -/
def asLine (text : String) (offset : Nat) (line : String) : String :=
  if 0 < offset && offset == text.utf8ByteSize && text.toList.getLast? != some '\n' then
    "\n" ++ line
  else line

/-- A line behind a group, set apart by blank lines from one that is a whole block. -/
def behindGroup (text : String) (lines : LineIndex) (g : IncludeGroup) (line : String) :
    Insertion :=
  let offset := lines.nextLineStart (startOfLine lines g.last.line)
  let block := asLine text offset line
  if g.isBlock then
    ⟨offset, "\n" ++ block ++ if isBlankAt text lines offset then "" else "\n"⟩
  else ⟨offset, block⟩

/-- A line among those of a group: before the first greater one if the group is sorted, else behind
the last. -/
def inGroup (text : String) (lines : LineIndex) (g : IncludeGroup) (path line : String) :
    Insertion :=
  match if g.isSorted then g.entries.find? (path < ·.path) else none with
  | some next => ⟨startOfLine lines next.line, line⟩
  | none =>
    let offset := lines.nextLineStart (startOfLine lines g.last.line)
    ⟨offset, asLine text offset line⟩

/-- The first include of a file, with blank lines around it. -/
def asFirst (text : String) (lines : LineIndex) (line : String) : Insertion :=
  let all := Text.linesOf text.toList
  let i := Include.preambleEnd all
  let offset := startOfLine lines i
  let gap := i != 0 && !((all[i - 1]?).getD []).all Text.isBlank
  let more := offset < text.utf8ByteSize && !isBlankAt text lines offset
  ⟨offset, (if gap then "\n" else "") ++ asLine text offset line ++ if more then "\n" else ""⟩

/-- The directives that a new one is placed by: those before the first line of code, without
generated ones. -/
def considered (text : String) (includes : List Include) : List Include :=
  let code := Include.lineOfCode 0 false (Text.linesOf text.toList)
  includes.filter fun i =>
    !".moc".toList.isSuffixOf i.path.toList && code.all fun line => i.line < line

/-- Where an include directive goes in a text with others, and as what. -/
def ofInclude (text : String) (lines : LineIndex) (includes : List Include) (kind : IncludeKind)
    (path : String) : Insertion :=
  let line := "#include " ++ Include.spell kind path ++ "\n"
  let groups := IncludeGroup.ofIncludes (considered text includes)
  let alike := groups.filter (·.kind == kind)
  match groups.head?, groups.getLast?, alike.getLast? with
  | some top, some bottom, none =>
    match kind with
    | .quoted => ⟨startOfLine lines top.first.line, line ++ "\n"⟩
    | .system => behindGroup text lines bottom line
  | some _, some _, some last =>
    match IncludeGroup.joined? path (Include.directoryOf path) alike with
    | some g => inGroup text lines g path line
    | none => behindGroup text lines last line
  | _, _, _ => asFirst text lines line

end Insertion

end CppRefactor
