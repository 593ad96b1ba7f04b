import CppRefactor.Text.IdentifierTable

/-!
Identifiers: a letter or an underscore, then letters, digits, marks and underscores.
-/

namespace CppRefactor.Text

def inRanges (ranges : List (Nat × Nat)) (code : Nat) : Bool :=
  ranges.any fun (first, last) => first ≤ code && code ≤ last

/-- Letters may begin an identifier; an underscore is not one of them. -/
def isIdentifierLetter (c : Char) : Bool :=
  if c.toNat < 0x80 then c.isAlpha else inRanges identifierStartRanges c.toNat

def startsIdentifier (c : Char) : Bool :=
  c == '_' || isIdentifierLetter c

def continuesIdentifier (c : Char) : Bool :=
  if c.toNat < 0x80 then c.isAlphanum || c == '_'
  else inRanges identifierStartRanges c.toNat || inRanges identifierRestRanges c.toNat

theorem continuesIdentifier_of_startsIdentifier {c : Char} (h : startsIdentifier c) :
    continuesIdentifier c := by
  simp only [startsIdentifier, isIdentifierLetter, continuesIdentifier, Bool.or_eq_true,
    beq_iff_eq] at *
  rcases h with rfl | h
  · decide
  · split at h <;> simp_all [Char.isAlphanum]

end CppRefactor.Text
