import CppRefactor.Text.Span

/-!
Cutting text at byte offsets. A cut inside a character or past the end has no result.
-/

namespace CppRefactor.Text

/-- The characters before a byte offset, and those from it on. -/
def cut? : Nat → List Char → Option (List Char × List Char)
  | 0, cs => some ([], cs)
  | _ + 1, [] => none
  | n + 1, c :: cs =>
    if c.utf8Size ≤ n + 1 then
      (cut? (n + 1 - c.utf8Size) cs).map fun (before, after) => (c :: before, after)
    else none

theorem append_of_cut? {n : Nat} {cs before after : List Char}
    (h : cut? n cs = some (before, after)) : before ++ after = cs := by
  induction cs generalizing n before after with
  | nil => cases n <;> simp_all [cut?]
  | cons c cs ih =>
    cases n with
    | zero => simp_all [cut?]
    | succ n =>
      simp only [cut?] at h
      split at h
      · obtain ⟨⟨b, a⟩, hc, h⟩ := Option.map_eq_some_iff.1 h
        obtain ⟨rfl, rfl⟩ := Prod.mk.inj h
        simp [ih hc]
      · simp at h

/-- The offset is at most the length and inside no character. -/
def isBoundary (s : String) (offset : Nat) : Bool :=
  (cut? offset s.toList).isSome

/-- The text of a span. -/
def slice? (s : String) (span : Span) : Option String := do
  guard (span.start ≤ span.stop)
  let (_, after) ← cut? span.start s.toList
  let (middle, _) ← cut? span.length after
  return .ofList middle

/-- The text of a span, empty where the span does not fit. -/
def slice (s : String) (span : Span) : String :=
  (slice? s span).getD ""

end CppRefactor.Text
