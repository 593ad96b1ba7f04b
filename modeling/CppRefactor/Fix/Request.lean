import CppRefactor.Edit.Changeset
import CppRefactor.Fix.Error
import CppRefactor.Project.Snapshot
import CppRefactor.Syntax.Spot

/-!
Requests for fixes: a place in a document of a snapshot, and how generated code is to look.
-/

namespace CppRefactor

/-- Where accessors are defined if their class has no implementation file. -/
inductive AccessorPlacement
  | inClass
  | behindClass
  deriving DecidableEq, Repr, Inhabited

structure Settings where
  /-- Getters are called `getFoo` even if `foo` is free. -/
  preferGetPrefix : Bool := false
  accessorPlacement : AccessorPlacement := .inClass
  functionName : String := "extracted"
  parameterName : String := "newParameter"
  /-- Spaces for each level of generated code. -/
  indentWidth : Nat := 4
  deriving DecidableEq, Repr, Inhabited

def Settings.indent (s : Settings) (level : Nat) : String :=
  .ofList (.replicate (s.indentWidth * level) ' ')

structure Request where
  snapshot : Snapshot
  settings : Settings
  file : FileId
  cursor : Nat
  spot : Spot
  deriving Inhabited

namespace Request

/-- A request at an offset of a document. -/
def atOffset (snapshot : Snapshot) (settings : Settings) (file : FileId) (offset : Nat) :
    Option Request := do
  let spot := Spot.ofRoot (← snapshot.file? file).root offset none
  return { snapshot, settings, file, cursor := spot.offset, spot }

/-- A request for a selection, at whose end the cursor is; an empty one is only a place. -/
def ofSelection (snapshot : Snapshot) (settings : Settings) (file : FileId) (span : Span) :
    Option Request :=
  if span.isEmpty then atOffset snapshot settings file span.start
  else do
    let spot := Spot.ofRoot (← snapshot.file? file).root span.stop (some span)
    return { snapshot, settings, file, cursor := span.stop, spot }

def symbols (r : Request) : SymbolTable := r.snapshot.symbols

def source (r : Request) : SourceFile := r.snapshot.file r.file

def text (r : Request) : String := r.source.text

def lines (r : Request) : LineIndex := r.source.lines

def selection (r : Request) : Option Span := r.spot.selection

/-- The innermost node of a kind. -/
def find? (r : Request) (k : Kind) : Option Cursor := r.spot.find? k

/-- The cursor or the selection is in a span or at one of its ends. -/
def isOn (r : Request) (span : Span) : Bool :=
  match r.selection with
  | some s => s.start ≤ span.stop && span.start ≤ s.stop
  | none => span.touches r.cursor

/-- The parser complained of something in a span. -/
def hasErrorsIn (r : Request) (span : Span) : Bool :=
  r.source.parse.errors.any fun e => span.encloses e.span

def siteAt? (r : Request) (offset : Nat) : Option Site := r.symbols.siteAt? r.file offset

def indentationAt (r : Request) (offset : Nat) : String := r.lines.indentationAt r.text offset

def textAt (r : Request) (span : Span) : String := Text.slice r.text span

end Request

/-- Adds to the change of a file of a snapshot. -/
def Changeset.editFile (c : Changeset) (s : Snapshot) (file : FileId) (f : Change → Change) :
    Changeset :=
  c.edit (s.file file).path.text (s.file file).document f

end CppRefactor
