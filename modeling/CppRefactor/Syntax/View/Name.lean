import CppRefactor.Syntax.Spelling

/-!
Reading names: their segments, each with template arguments perhaps, and a leading `::`.
-/

namespace CppRefactor

namespace TemplateArguments

/-- Splits tokens at the commas outside brackets; `current` holds the tokens since the last one,
the last first. A bracket that closes the whole list at its end belongs to no argument. -/
def split (depth : Nat) (current : List Token) : List Token → List (List Token)
  | [] => [current.reverse]
  | t :: ts =>
    match t.kind with
    | .gt =>
      if ts.isEmpty && depth == 0 then [current.reverse]
      else split (depth - 1) (t :: current) ts
    | .comma =>
      if depth = 0 then current.reverse :: split depth [] ts
      else split depth (t :: current) ts
    | .lt | .lParen => split (depth + 1) (t :: current) ts
    | .rParen => split (depth - 1) (t :: current) ts
    | _ => split depth (t :: current) ts

/-- The arguments as text; a last one without tokens is none. -/
def texts (t : Tree) : List String :=
  let args := split 0 [] (t.significant.drop 1)
  let last := args.getLast?.filter (!·.isEmpty)
  (args.dropLast ++ last.toList).map spell

end TemplateArguments

namespace Name

/-- A part of a name: `Foo`, `~Foo` or `operator==`. The span leaves out template arguments. -/
structure Segment where
  text : String
  span : Span
  args : Option Tree
  deriving Inhabited

/-- How far a name is read: the segments, the last first, a tilde without its name, and an operator
that goes on to the end. -/
structure Reading where
  found : List Segment
  tilde : Option Span
  operator : Option (String × Span)

namespace Reading

def token (r : Reading) (t : Token) : Reading :=
  match r.operator with
  | some (text, span) =>
    let gap := if text == "operator" && (t.kind == .ident || t.kind.isKeyword) then " " else ""
    { r with operator := some (text ++ gap ++ t.text, span.cover t.span) }
  | none =>
    match t.kind with
    | .tilde => { r with tilde := some t.span }
    | .ident =>
      let segment : Segment :=
        match r.tilde with
        | some tilde => ⟨"~" ++ t.text, tilde.cover t.span, none⟩
        | none => ⟨t.text, t.span, none⟩
      { r with found := segment :: r.found, tilde := none }
    | .operatorKw => { r with operator := some ("operator", t.span) }
    | _ => r

def part (r : Reading) : Tree → Reading
  | .token t => if t.isTrivia then r else r.token t
  | .node k s ts =>
    if k == .templateArgList then
      match r.found with
      | last :: rest => { r with found := { last with args := some (.node k s ts) } :: rest }
      | [] => r
    else
      match r.operator with
      | some (text, span) =>
        { r with operator := some (text ++ " " ++ (Tree.node k s ts).spelling, span.cover s) }
      | none => r

end Reading

def segments (name : Tree) : List Segment :=
  let r := name.parts.foldl Reading.part ⟨[], none, none⟩
  match r.operator with
  | some (text, span) => r.found.reverse ++ [⟨text, span, none⟩]
  | none => r.found.reverse

def isGlobal (name : Tree) : Bool := name.leadToken?.any (·.kind == .colonColon)

/-- The texts of the segments: `A::B<int>::c` has `A`, `B` and `c`. -/
def path (name : Tree) : List String := (segments name).map (·.text)

def last? (name : Tree) : Option Segment := (segments name).getLast?

/-- The name has a leading `::` or more than one segment. -/
def isQualified (name : Tree) : Bool := isGlobal name || 1 < (segments name).length

end Name

end CppRefactor
