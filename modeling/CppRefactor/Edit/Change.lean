import CppRefactor.Text.Bytes

/-!
Changes of one text: edits that replace spans of it, in any order. Applying them needs
that no two overlap; edits at one offset take effect in the order in which they were added.
-/

namespace CppRefactor

/-- Why a change cannot be made. A path is shown as it was written. -/
inductive EditError
  | overlap (first second : Span)
  | outOfBounds (span : Span) (length : Nat)
  | stale (path : String)
  | unknownDocument (path : String)
  deriving DecidableEq, Repr, Inhabited

namespace EditError

def spanText (s : Span) : String := toString s.start ++ ".." ++ toString s.stop

def message : EditError → String
  | overlap first second => "Overlapping edits at " ++ spanText first ++ " and " ++ spanText second
  | outOfBounds span length =>
    "Edit range " ++ spanText span ++ " is outside of a text of length " ++ toString length
  | stale path => "Document changed since the changeset was computed: " ++ path
  | unknownDocument path => "Unknown document: " ++ path

end EditError

/-- Puts `insert` in the place of a span of the text. -/
structure Edit where
  span : Span
  insert : String
  deriving DecidableEq, Repr, Inhabited

namespace Edit

def isInsertion (e : Edit) : Bool := e.span.isEmpty

/-- By start, then by end. -/
def notAfter (e f : Edit) : Bool :=
  e.span.start < f.span.start || (e.span.start == f.span.start && e.span.stop ≤ f.span.stop)

/-- Puts an edit before those of a sorted list that are not before it. -/
def insertSorted (e : Edit) : List Edit → List Edit
  | [] => [e]
  | f :: fs => if e.notAfter f then e :: f :: fs else f :: insertSorted e fs

/-- Sorts edits; those of one span keep their order. -/
def sort (es : List Edit) : List Edit := es.foldr insertSorted []

/-- The first two neighbours of which the one reaches into the other. -/
def overlap? : List Edit → Option (Span × Span)
  | e :: f :: es =>
    if f.span.start < e.span.stop then some (e.span, f.span) else overlap? (f :: es)
  | _ => none

/-- Carries out sorted edits on the characters from an offset on. -/
def splice (length offset : Nat) (cs : List Char) : List Edit → Except EditError (List Char)
  | [] => .ok cs
  | e :: es =>
    match Text.cut? (e.span.start - offset) cs with
    | none => .error (.outOfBounds e.span length)
    | some (kept, rest) =>
      match Text.cut? e.span.length rest with
      | none => .error (.outOfBounds e.span length)
      | some (_, rest) => do
        let tail ← splice length e.span.stop rest es
        return kept ++ e.insert.toList ++ tail

end Edit

/-- The edits of one text, in the order in which they were added. -/
structure Change where
  edits : List Edit
  deriving DecidableEq, Repr, Inhabited

namespace Change

def empty : Change := ⟨[]⟩

def isEmpty (c : Change) : Bool := c.edits.isEmpty

def add (c : Change) (e : Edit) : Change := ⟨c.edits ++ [e]⟩

def insert (c : Change) (offset : Nat) (text : String) : Change := c.add ⟨.point offset, text⟩

def remove (c : Change) (span : Span) : Change := c.add ⟨span, ""⟩

def replace (c : Change) (span : Span) (text : String) : Change := c.add ⟨span, text⟩

/-- The change with its edits sorted, if none overlap. -/
def finish (c : Change) : Except EditError Change :=
  let sorted := Edit.sort c.edits
  match Edit.overlap? sorted with
  | some (first, second) => .error (.overlap first second)
  | none => .ok ⟨sorted⟩

/-- The text after the change. -/
def apply (c : Change) (text : String) : Except EditError String := do
  let sorted ← c.finish
  let cs ← Edit.splice text.utf8ByteSize 0 text.toList sorted.edits
  return .ofList cs

/-- How far an edit moves an offset of the text it is made in. An insertion at the offset does not
move it, and an offset inside a replaced span goes to the end of what replaces it. -/
def shift (offset : Nat) (e : Edit) : Int :=
  if offset < e.span.start || (e.isInsertion && e.span.start == offset) then 0
  else if e.span.stop ≤ offset then (e.insert.utf8ByteSize : Int) - e.span.length
  else (e.insert.utf8ByteSize : Int) - ((offset - e.span.start : Nat) : Int)

/-- Where an offset of the text is after the change. -/
def mapOffset (c : Change) (offset : Nat) : Nat :=
  (c.edits.foldl (fun at_ e => at_ + shift offset e) (offset : Int)).toNat

end Change

end CppRefactor
