import CppRefactor.Proofs.Grammar.Ends

/-!
Parsers in which `go` runs rules. What stands behind a word of a rule is `Total`: it ends wherever
`go` runs every rule. The judgement composes without a look at the state; what takes a word, and so
may come first in a rule, is said with `Ends`.
-/

namespace CppRefactor.Grammar

/-- Declarations and statements take the next word, if it is no closing brace. -/
def Rule.least (s : State) : Rule → Nat
  | .declaration _ | .statement => s.isFree.toNat
  | _ => 0

/-- From `s` on `go` runs every rule. -/
def Runs (go : Rule → Parser Unit) (s : State) : Prop :=
  ∀ rule s₁, s₁.ahead.length ≤ s.ahead.length →
    Ends (go rule) s₁ fun _ => Takes (rule.least s₁) s₁

/-- Behind the next word of `s` `go` runs every rule. -/
def RunsBehind (go : Rule → Parser Unit) (s : State) : Prop :=
  ∀ rule s₁, s₁.ahead.length < s.ahead.length →
    Ends (go rule) s₁ fun _ => Takes (rule.least s₁) s₁

/-- The parser ends wherever `go` runs every rule. -/
def Total (go : Rule → Parser Unit) (p : Parser α) : Prop :=
  ∀ s, Runs go s → Ends p s fun _ => Takes 0 s

variable {go : Rule → Parser Unit}

theorem Runs.least (hg : Runs go s) (rule : Rule) :
    Ends (go rule) s fun _ => Takes (rule.least s) s :=
  hg rule s (Nat.le_refl _)

theorem Runs.after (hg : Runs go s) (h : Takes k s s₁) : Runs go s₁ :=
  fun rule s₂ hl => hg rule s₂ (Nat.le_trans hl h.suffix.length_le)

theorem Runs.behind (hg : Runs go s) : RunsBehind go s :=
  fun rule s₁ hl => hg rule s₁ (Nat.le_of_lt hl)

theorem RunsBehind.along (hg : RunsBehind go s) (h : Takes k s s₁) : RunsBehind go s₁ :=
  fun rule s₂ hl => hg rule s₂ (Nat.lt_of_lt_of_le hl h.suffix.length_le)

theorem RunsBehind.after (hg : RunsBehind go s) (h : Takes 1 s s₁) : Runs go s₁ :=
  fun rule s₂ hl => hg rule s₂ (Nat.lt_of_le_of_lt hl h.length)

namespace Total

theorem of {p : Parser α} {k : State → α → Nat} (h : ∀ s, Ends p s fun a => Takes (k s a) s) :
    Total go p :=
  fun s _ => (h s).any

theorem pure (a : α) : Total go (Pure.pure a) := fun s _ => .pure (.refl s)

theorem bind {p : Parser α} {f : α → Parser β} (hp : Total go p) (hf : ∀ a, Total go (f a)) :
    Total go (p >>= f) := by
  intro s hg
  apply (hp s hg).seq
  intro a s₁ h₁
  exact hf a s₁ (hg.after h₁)

theorem ite {p q : Parser α} {b : Bool} (hp : Total go p) (hq : Total go q) :
    Total go (if b = true then p else q) := by
  cases b with
  | true => exact hp
  | false => exact hq

theorem opt {p : Parser Unit} {b : Bool} (hp : Total go p) :
    Total go (if b = true then p else Pure.pure ()) :=
  ite hp (.pure ())

theorem optBind {p : Parser Unit} {rest : Unit → Parser α} {b : Bool} (hp : Total go p)
    (hr : ∀ u, Total go (rest u)) : Total go (if b = true then p >>= rest else rest ()) :=
  ite (bind hp hr) (hr ())

theorem unlessBind {p : Parser Unit} {rest : Unit → Parser α} {b : Bool} (hp : Total go p)
    (hr : ∀ u, Total go (rest u)) : Total go (if b = true then rest () else p >>= rest) :=
  ite (hr ()) (bind hp hr)

theorem iteBind {p q : Parser α} {rest : α → Parser β} {b : Bool} (hp : Total go p)
    (hq : Total go q) (hr : ∀ a, Total go (rest a)) :
    Total go (if b = true then p >>= rest else q >>= rest) :=
  ite (bind hp hr) (bind hq hr)

theorem rule (r : Rule) : Total go (go r) := fun _ hg => (hg.least r).any

theorem node {body : Parser α} (h : Total go body) : Total go (node k body) :=
  fun s hg => (h s.enter hg).node

theorem discard {p : Parser α} (h : Total go p) : Total go (discard p) :=
  fun s hg => (h s hg).discard

theorem read {p : Parser α} {f : State → α} (h : ∀ s, p.run s = some (f s, s)) : Total go p :=
  fun s _ => ⟨f s, s, h s, .refl s⟩

theorem upcoming : Total go upcoming := read upcoming_run

theorem atEnd : Total go atEnd := read atEnd_run

theorem word? (n : Nat) : Total go (word? n) := read (word?_run n)

theorem kindAt (n : Nat) : Total go (kindAt n) := read (kindAt_run n)

theorem peek : Total go peek := read peek_run

theorem textAt (n : Nat) : Total go (textAt n) := read (textAt_run n)

theorem isAtAny (ks : List Kind) : Total go (isAtAny ks) := read (isAtAny_run ks)

theorem isAt (k : Kind) : Total go (isAt k) := read (isAt_run k)

theorem advance : Total go advance := of advance_ends

theorem advanceBy (n : Nat) : Total go (advanceBy n) := of (advanceBy_takes n)

theorem accept (k : Kind) : Total go (accept k) := of (accept_takes k)

theorem expect (k : Kind) : Total go (expect k) := of (expect_takes k)

theorem report (c : Complaint) : Total go (report c) := of (report_takes c)

theorem recover (c : Complaint) (stops : List Kind) : Total go (recover c stops) :=
  of (recover_takes c stops)

theorem endWithSemicolon : Total go endWithSemicolon := of endWithSemicolon_takes

theorem takeParentheses : Total go takeParentheses := bind upcoming fun _ => advanceBy _

theorem takeBrackets : Total go takeBrackets := bind upcoming fun _ => advanceBy _

theorem loop {step : Parser Bool} (h : ∀ s, Runs go s → Ends step s fun more => Steps more s) :
    Total go (loop step) :=
  fun _ hg => loop_takes fun s₁ h₁ => h s₁ (hg.after h₁)

theorem loopWhile {condition : Parser Bool} {step : Parser Unit} (holds : State → Bool)
    (hc : ∀ s, condition.run s = some (holds s, s))
    (h : ∀ s, Runs go s → holds s = true → Ends step s fun _ => Takes 1 s) :
    Total go (loopWhile condition step) :=
  fun _ hg => loopWhile_read hc fun s₁ h₁ => h s₁ (hg.after h₁)

theorem loopUntil {step : Parser Bool}
    (h : ∀ s, Runs go s → s.atEnd = false → s.isAt closer = false →
      Ends step s fun more => Steps more s) :
    Total go (Grammar.loop do
      if (← Grammar.atEnd) || (← Grammar.isAt closer) then return false
      step) := by
  apply Total.loop
  intro s hg
  apply Ends.read (atEnd_run s)
  apply Ends.read (isAt_run _ s)
  apply Ends.ite
  · intro _
    exact .pure (Takes.refl s).stops
  · intro hb
    obtain ⟨he, hb⟩ := Bool.or_eq_false_iff.mp hb
    exact h s hg he hb

end Total

theorem skipWhile_total (ks : List Kind) : Total go (loopWhile (isAtAny ks) advance) :=
  .loopWhile _ (isAtAny_run ks) fun _ _ h => advance_takes (State.length_pos_of_isAtAny h)

theorem commas_total {part : Parser Unit} (h : Total go part) :
    Total go (loop do part; accept .comma) := by
  apply Total.loop
  intro s hg
  apply (h s hg).bind
  intro _ s₁ h₁
  apply (accept_takes _ s₁).imp
  intro _ s₂ h₂
  exact h₁.thenSteps h₂.steps_toNat

theorem commasUntil_total {part : Parser Unit} (h : Total go part) :
    Total go (loop do
      if (← atEnd) || (← isAt closer) then return false
      part
      accept .comma) := by
  apply Total.loopUntil
  intro s hg _ _
  apply (h s hg).bind
  intro _ s₁ h₁
  apply (accept_takes _ s₁).imp
  intro _ s₂ h₂
  exact h₁.thenSteps h₂.steps_toNat

/-- Declarations or statements up to a closing brace: each takes a word. -/
theorem rulesUntil_total {rule : Rule} (hr : ∀ s, rule.least s = s.isFree.toNat) :
    Total go (loop do
      if (← atEnd) || (← isAt .rBrace) then return false
      go rule
      return true) := by
  apply Total.loopUntil
  intro s hg he hb
  have hf := State.isFree_of_not_isAt he hb
  apply (hg.least rule).bind
  intro _ s₁ h₁
  rw [hr, hf] at h₁
  exact .pure (h₁.steps Nat.one_pos true)

/-- Behind `n` words from `s` the parser ends, and what it wraps has begun behind `s`. -/
def Continues (go : Rule → Parser Unit) (n : Nat) (s : State) (p : Parser α) : Prop :=
  ∀ s₁, Runs go s₁ → Takes n s s₁ → Ends p s₁ fun _ => Takes n s

namespace Continues

theorem wrap (k : Kind) : Continues go n s (wrap k s.built.length) :=
  fun _ _ h => wrap_takes h

theorem bind {p : Parser α} {f : α → Parser β} (hp : Total go p)
    (hf : ∀ a, Continues go n s (f a)) : Continues go n s (p >>= f) := by
  intro s₁ hg h
  apply (hp s₁ hg).bind
  intro a s₂ h₂
  exact hf a s₂ (hg.after h₂) (h.andThen h₂)

theorem ite {p q : Parser α} {b : Bool} (hp : Continues go n s p) (hq : Continues go n s q) :
    Continues go n s (if b = true then p else q) := by
  cases b with
  | true => exact hp
  | false => exact hq

theorem iteBind {p q : Parser α} {rest : α → Parser β} {b : Bool} (hp : Total go p)
    (hq : Total go q) (hr : ∀ a, Continues go n s (rest a)) :
    Continues go n s (if b = true then p >>= rest else q >>= rest) :=
  ite (bind hp hr) (bind hq hr)

theorem optBind {p : Parser Unit} {rest : Unit → Parser α} {b : Bool} (hp : Total go p)
    (hr : ∀ u, Continues go n s (rest u)) :
    Continues go n s (if b = true then p >>= rest else rest ()) :=
  ite (bind hp hr) (hr ())

end Continues

/-- The parser is total, and if there is a next word it takes it before `go` runs a rule. -/
structure Opens (go : Rule → Parser Unit) (p : Parser α) : Prop where
  total : Total go p
  takes : ∀ s, RunsBehind go s → 0 < s.ahead.length → Ends p s fun _ => Takes 1 s

namespace Opens

theorem word : Opens go advance := ⟨.advance, fun _ _ h => advance_takes h⟩

theorem brackets : Opens go takeBrackets :=
  ⟨.takeBrackets, fun _ _ h => takeBrackets_takes h⟩

theorem bind {p : Parser α} {f : α → Parser β} (hp : Opens go p) (hf : ∀ a, Total go (f a)) :
    Opens go (p >>= f) := by
  refine ⟨hp.total.bind hf, ?_⟩
  intro s hg h
  apply (hp.takes s hg h).seq
  intro a s₁ h₁
  exact hf a s₁ (hg.after h₁)

theorem behind {rest : Unit → Parser α} (hr : Total go (rest ())) :
    Opens go (advance >>= rest) :=
  word.bind fun _ => hr

theorem node {body : Parser α} (h : Opens go body) : Opens go (node k body) :=
  ⟨h.total.node, fun s hg hl => (h.takes s.enter hg hl).node⟩

theorem ite {p q : Parser α} {b : Bool} (hp : Opens go p) (hq : Opens go q) :
    Opens go (if b = true then p else q) := by
  cases b with
  | true => exact hp
  | false => exact hq

theorem look {p : Parser α} {f : α → Parser β} {holds : State → α}
    (hp : ∀ s, p.run s = some (holds s, s)) (hf : ∀ a, Opens go (f a)) : Opens go (p >>= f) :=
  ⟨.bind (.read hp) fun a => (hf a).total, fun s hg h => .read (hp s) ((hf _).takes s hg h)⟩

theorem steps {step : Parser (Bool × σ)} (hp : Opens go step) (hg : RunsBehind go s)
    (h : 0 < s.ahead.length) : Ends step s fun r => Steps r.1 s :=
  (hp.takes s hg h).imp fun r _ ht => ht.steps Nat.one_pos r.1

end Opens

end CppRefactor.Grammar
