import CppRefactor.Syntax.View.Name
import CppRefactor.Text.Blank
import CppRefactor.Text.Identifier

/-!
Paths of types: the segments of a qualified name with template arguments as text, read from a tree
or from text and written back.
-/

namespace CppRefactor

structure PathSegment where
  name : String
  args : List String
  deriving DecidableEq, Repr, Inhabited

structure TypePath where
  /-- It has a leading `::`. -/
  isGlobal : Bool
  segments : List PathSegment
  deriving DecidableEq, Repr, Inhabited

namespace TypePath

/-- The path of a name in a tree, if it has a segment. -/
def ofName? (name : Tree) : Option TypePath :=
  match Name.segments name with
  | [] => none
  | segments => some
    { isGlobal := Name.isGlobal name
      segments := segments.map fun s =>
        ⟨s.text, (s.args.map TemplateArguments.texts).getD []⟩ }

/-- Splits at a separator outside angle and round brackets; `skip` characters of a separator are
still to be passed, and `current` holds the part so far, the last character first. Outside brackets
the characters are of one byte each: a text that a step of a byte would cut inside a character has
no parts, and is not covered here. -/
def split (separator : List Char) (depth : Int) (skip : Nat) (current : List Char) :
    List Char → List (List Char)
  | [] => [current.reverse]
  | c :: cs =>
    match skip with
    | skip + 1 => split separator depth skip current cs
    | 0 =>
      if c = '<' || c = '(' then split separator (depth + 1) 0 (c :: current) cs
      else if c = '>' || c = ')' then split separator (depth - 1) 0 (c :: current) cs
      else if depth = 0 && separator.isPrefixOf (c :: cs) then
        current.reverse :: split separator depth (separator.length - 1) [] cs
      else split separator depth 0 (c :: current) cs

def isIdentifier : List Char → Bool
  | [] => false
  | c :: cs => Text.startsIdentifier c && cs.all Text.continuesIdentifier

/-- The arguments between angle brackets, trimmed; empty ones are left out. -/
def readArguments (inner : List Char) : List String :=
  (((split [','] 0 0 [] inner).map Text.trimChars).filter (!·.isEmpty)).map .ofList

/-- A segment: an identifier, with template arguments in angle brackets perhaps. -/
def readSegment? (part : List Char) : Option PathSegment := do
  let part := Text.trimChars part
  match part.dropWhile (· != '<') with
  | [] =>
    guard (isIdentifier part)
    return ⟨.ofList part, []⟩
  | _ :: behind =>
    let inner ← Text.dropEnd? ">" (Text.trimBack behind)
    let name := Text.trimChars (part.takeWhile (· != '<'))
    guard (isIdentifier name)
    return ⟨.ofList name, readArguments inner⟩

/-- The names of built-in types, which are no paths. -/
def builtinNames : List String :=
  ["void", "bool", "char", "short", "int", "long", "float", "double", "signed", "unsigned",
    "wchar_t", "char8_t", "char16_t", "char32_t", "auto"]

def isBuiltin : List PathSegment → Bool
  | [s] => builtinNames.contains s.name
  | _ => false

/-- Keywords before a type that are passed over, in this order. -/
def leadingWords : List String :=
  ["const ", "volatile ", "typename ", "struct ", "class ", "union ", "enum "]

def dropLeadingWord (cs : List Char) (word : String) : List Char :=
  match Text.dropStart? word cs with
  | some rest => Text.trimFront rest
  | none => cs

def isPointerOrSpace (c : Char) : Bool := c == '*' || c == '&' || c == ' '

/-- The path a type as text names: `const N::S<int> &` names `N::S<int>`. A built-in type names
none. Outside brackets the text is ASCII, as `split` needs it. -/
def parse (text : String) : Option TypePath := do
  let cs := leadingWords.foldl dropLeadingWord (Text.trimChars text.toList)
  let cs := Text.trimBack (Text.dropLastWhile isPointerOrSpace cs)
  let cs := (Text.dropEnd? " const" cs).getD cs
  let (isGlobal, cs) :=
    match Text.dropStart? "::" cs with
    | some rest => (true, rest)
    | none => (false, cs)
  let segments ← (split [':', ':'] 0 0 [] cs).mapM readSegment?
  guard !(isBuiltin segments)
  return ⟨isGlobal, segments⟩

def segmentText (s : PathSegment) : String :=
  if s.args.isEmpty then s.name else s.name ++ "<" ++ ", ".intercalate s.args ++ ">"

def text (p : TypePath) : String :=
  (if p.isGlobal then "::" else "") ++ "::".intercalate (p.segments.map segmentText)

def last (p : TypePath) : PathSegment := p.segments.getLastD default

/-- The path without its last segment, if one is left. -/
def qualifier? (p : TypePath) : Option TypePath :=
  if p.segments.length < 2 then none else some ⟨p.isGlobal, p.segments.dropLast⟩

def names (p : TypePath) : List String := p.segments.map (·.name)

/-- The path of plain names. -/
def ofNames (names : List String) : TypePath := ⟨false, names.map fun n => ⟨n, []⟩⟩

end TypePath

end CppRefactor
