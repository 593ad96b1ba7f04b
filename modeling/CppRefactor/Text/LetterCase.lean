import CppRefactor.Text.CaseTable

/-!
Upper and lower case of single letters. One letter may become several.
-/

namespace CppRefactor.Text

namespace CaseRun

/-- Where the run maps a code point, if it is one of the run's. -/
def map? (run : CaseRun) (code : Nat) : Option Nat :=
  if run.first ≤ code && code ≤ run.last && (code - run.first) % run.step == 0 then
    some (code + run.shift).toNat
  else none

end CaseRun

/-- A letter's other case: a sequence, else the first run that holds it, else the letter itself. -/
def recase (sequences : List (Nat × List Nat)) (runs : List CaseRun) (c : Char) : List Char :=
  match sequences.lookup c.toNat with
  | some codes => codes.map Char.ofNat
  | none => [((runs.findSome? (·.map? c.toNat)).map Char.ofNat).getD c]

def upper (c : Char) : List Char :=
  if c.toNat < 0x80 then [c.toUpper] else recase upperSequences upperRuns c

def lower (c : Char) : List Char :=
  if c.toNat < 0x80 then [c.toLower] else recase lowerSequences lowerRuns c

def isUppercase (c : Char) : Bool :=
  if c.toNat < 0x80 then c.isUpper
  else uppercaseRuns.any fun (first, last, step) =>
    first ≤ c.toNat && c.toNat ≤ last && (c.toNat - first) % step == 0

/-- The text with its first letter in upper case. -/
def capitalize (s : String) : String :=
  match s.toList with
  | [] => ""
  | c :: cs => .ofList (upper c ++ cs)

/-- The text with its first letter in lower case. -/
def uncapitalize (s : String) : String :=
  match s.toList with
  | [] => ""
  | c :: cs => .ofList (lower c ++ cs)

end CppRefactor.Text
