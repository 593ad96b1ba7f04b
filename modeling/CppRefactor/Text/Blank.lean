import CppRefactor.Text.Affix

/-!
White space as the Unicode standard has it, and text trimmed of it.
-/

namespace CppRefactor.Text

/-- The characters with the property `White_Space`. -/
def isBlank (c : Char) : Bool :=
  let n := c.toNat
  (0x9 ≤ n && n ≤ 0xD) || n == 0x20 || n == 0x85 || n == 0xA0 || n == 0x1680 ||
    (0x2000 ≤ n && n ≤ 0x200A) || n == 0x2028 || n == 0x2029 || n == 0x202F || n == 0x205F ||
    n == 0x3000

/-- The characters from the first that is not blank on. -/
def trimFront (cs : List Char) : List Char := cs.dropWhile isBlank

/-- The characters up to the last that is not blank. -/
def trimBack (cs : List Char) : List Char := dropLastWhile isBlank cs

def trimChars (cs : List Char) : List Char := trimBack (trimFront cs)

def trimRight (s : String) : String := .ofList (trimBack s.toList)

def trim (s : String) : String := .ofList (trimChars s.toList)

/-- The runs of characters that are not blank; `word` is the one so far, the last one first. -/
def wordsBehind (word : List Char) : List Char → List (List Char)
  | [] => if word.isEmpty then [] else [word.reverse]
  | c :: cs =>
    if !isBlank c then wordsBehind (c :: word) cs
    else if word.isEmpty then wordsBehind [] cs
    else word.reverse :: wordsBehind [] cs

def words (s : String) : List String := (wordsBehind [] s.toList).map .ofList

/-- Spaces and tabs, which indent a line. -/
def isIndent (c : Char) : Bool := c == ' ' || c == '\t'

/-- The leading spaces and tabs. -/
def indentation (s : String) : String := .ofList (s.toList.takeWhile isIndent)

end CppRefactor.Text
