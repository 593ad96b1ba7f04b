import CppRefactor.Proofs.Grammar.Gap
import CppRefactor.Proofs.Grammar.Plain

/-!
Judgements: what can be said of a parser from what is said of its parts. A judgement has a rule for
each way to put parsers together and for each basic parser, and then holds of the parsers that are
made of these. What a parser reads of the words ahead may not depend on gaps without a line break.
The nodes of some kinds have a form, for which there are rules of their own or none, so that a
judgement can say of what parts they are.
-/

namespace CppRefactor

/-- Nodes of these kinds begin with a word. -/
def Kind.isHeaded : Kind → Bool
  | .classSpec | .enumSpec | .namespaceDef => true
  | _ => false

/-- Nodes of these kinds have plain parts. -/
def Kind.isPlain : Kind → Bool
  | .declList | .linkageSpec => true
  | _ => false

/-- What ends nodes of these kinds. -/
def Kind.closer? : Kind → Option Kind
  | .templateArgList => some .gt
  | _ => none

/-- Nodes of these kinds are made of certain parts, or come with a complaint. -/
def Kind.isFormed (k : Kind) : Bool :=
  k.isHeaded || k.isPlain || k.closer?.isSome || k == .functionDef || k == .error

namespace Grammar

/-- The parser where a word is ahead; elsewhere it is cut off. -/
def ifAhead (p : Parser α) : Parser α := do
  if (← upcoming).isEmpty then failure else p

theorem ifAhead_run (p : Parser α) (s : State) :
    (ifAhead p).run s = if s.ahead.isEmpty then none else p.run s := by
  rw [ifAhead, StateT.run_bind, upcoming_run, Option.bind_eq_bind, Option.bind_some]
  split
  · rfl
  · rfl

structure Judgement where
  Holds : {α : Type} → Parser α → Prop
  pure {α : Type} (a : α) : Holds (Pure.pure a)
  bind {α β : Type} {p : Parser α} {f : α → Parser β} :
    Holds p → (∀ a, Holds (f a)) → Holds (p >>= f)
  look {α : Type} {f : List Word → Parser α} :
    (∀ ws, f (tighten ws) = f ws) → (∀ ws, Holds (f ws)) → Holds (upcoming >>= f)
  cutOff {α : Type} : Holds (failure : Parser α)
  advance : Holds advance
  report (c : Complaint) : Holds (report c)
  node {α : Type} {k : Kind} {body : Parser α} : k.isFormed = false → Holds body →
    Holds (node k body)
  headed {k : Kind} {rest : Unit → Parser Unit} : k.isHeaded = true → (∀ u, Holds (rest u)) →
    (∀ u, Adds (fun _ => True) (rest u)) →
    Holds (ifAhead (Grammar.node k (Grammar.advance >>= rest)))
  plain {k : Kind} {body : Parser Unit} : k.isPlain = true → Holds body → KeepsPlain body →
    Holds (Grammar.node k body)
  enclosed {k closer : Kind} {inside : Parser Unit} : k.closer? = some closer → Holds inside →
    Adds (fun _ => True) inside →
    Holds (do Grammar.advance; inside; discard (expect closer)) →
    Holds (Grammar.node k do Grammar.advance; inside; discard (expect closer))
  mark : Holds mark
  wrap {k : Kind} (since : Nat) : k.isFormed = false → Holds (wrap k since)
  recover (c : Complaint) (stops : List Kind) : Holds (recover c stops)

namespace Judgement

variable (J : Judgement)

theorem ite {p q : Parser α} {b : Bool} (hp : J.Holds p) (hq : J.Holds q) :
    J.Holds (if b = true then p else q) := by
  cases b with
  | true => exact hp
  | false => exact hq

theorem opt {p : Parser Unit} {b : Bool} (hp : J.Holds p) :
    J.Holds (if b = true then p else Pure.pure ()) :=
  J.ite hp (J.pure ())

theorem optBind {p : Parser Unit} {rest : Unit → Parser α} {b : Bool} (hp : J.Holds p)
    (hr : ∀ u, J.Holds (rest u)) : J.Holds (if b = true then p >>= rest else rest ()) :=
  J.ite (J.bind hp hr) (hr ())

theorem unlessBind {p : Parser Unit} {rest : Unit → Parser α} {b : Bool} (hp : J.Holds p)
    (hr : ∀ u, J.Holds (rest u)) : J.Holds (if b = true then rest () else p >>= rest) :=
  J.ite (hr ()) (J.bind hp hr)

theorem iteBind {p q : Parser α} {rest : α → Parser β} {b : Bool} (hp : J.Holds p)
    (hq : J.Holds q) (hr : ∀ a, J.Holds (rest a)) :
    J.Holds (if b = true then p >>= rest else q >>= rest) :=
  J.ite (J.bind hp hr) (J.bind hq hr)

theorem discard {p : Parser α} (h : J.Holds p) : J.Holds (discard p) := by
  rw [discard_eq]
  exact J.bind h fun _ => J.pure ()

theorem read {p : Parser α} (f : List Word → α) (h : ∀ s, p.run s = some (f s.ahead, s))
    (hf : ∀ ws, f (tighten ws) = f ws) : J.Holds p := by
  have hp : p = upcoming >>= fun ws => Pure.pure (f ws) := by
    funext s
    exact h s
  rw [hp]
  exact J.look (fun ws => by rw [hf]) fun ws => J.pure _

theorem atEnd : J.Holds atEnd :=
  J.read List.isEmpty atEnd_run fun ws => by cases ws <;> rfl

theorem kindAt (n : Nat) : J.Holds (kindAt n) :=
  J.read (fun ws => (ws[n]?.map Word.kind).getD .error) (kindAt_run n) fun ws => by
    rw [getElem?_tighten, Option.map_map]
    rfl

theorem peek : J.Holds peek := J.kindAt 0

theorem textAt (n : Nat) : J.Holds (textAt n) :=
  J.read (fun ws => (ws[n]?.map Word.text).getD "") (textAt_run n) fun ws => by
    rw [getElem?_tighten, Option.map_map]
    rfl

theorem isAtAny (ks : List Kind) : J.Holds (isAtAny ks) :=
  J.read (fun ws => ws.head?.any fun w => ks.contains (Word.kind w)) (isAtAny_run ks) fun ws => by
    cases ws <;> rfl

theorem isAt (k : Kind) : J.Holds (isAt k) := J.isAtAny [k]

/-- The next word is looked at, but of its gap no more than whether a line break is in it. -/
theorem lookAt {f : Option Word → Parser α} (hf : ∀ w, f (some w.tight) = f (some w))
    (h : ∀ w, J.Holds (f w)) (n : Nat) : J.Holds (word? n >>= f) := by
  have hw : word? n >>= f = upcoming >>= fun ws => f ws[n]? := by
    funext s
    rfl
  rw [hw]
  refine J.look (fun ws => ?_) fun ws => h _
  rw [getElem?_tighten]
  cases ws[n]? with
  | none => rfl
  | some w => exact hf w

theorem ifAhead {p : Parser α} (h : J.Holds p) : J.Holds (ifAhead p) :=
  J.look (fun ws => by cases ws <;> rfl) fun _ => J.ite J.cutOff h

theorem ifAheadBind {p : Parser α} {f : α → Parser β} (hp : J.Holds (Grammar.ifAhead p))
    (hf : ∀ a, J.Holds (f a)) : J.Holds (Grammar.ifAhead (p >>= f)) := by
  have h : Grammar.ifAhead (p >>= f) = Grammar.ifAhead p >>= f := by
    apply StateT.ext
    intro s
    rw [ifAhead_run, StateT.run_bind, StateT.run_bind, ifAhead_run]
    split
    · rfl
    · rfl
  rw [h]
  exact J.bind hp hf

theorem ifAheadLook {f : List Word → Parser α} (hf : ∀ ws, f (tighten ws) = f ws)
    (h : ∀ ws, J.Holds (Grammar.ifAhead (f ws))) :
    J.Holds (Grammar.ifAhead (upcoming >>= f)) := by
  have hlook :
      Grammar.ifAhead (upcoming >>= f) = upcoming >>= fun ws => Grammar.ifAhead (f ws) := by
    apply StateT.ext
    intro s
    rw [ifAhead_run, StateT.run_bind, StateT.run_bind, upcoming_run]
    exact (ifAhead_run (f s.ahead) s).symm
  rw [hlook]
  exact J.look (fun ws => by rw [hf]) h

theorem ifAheadKind {f : Kind → Parser α} (n : Nat)
    (h : ∀ k, J.Holds (Grammar.ifAhead (f k))) :
    J.Holds (Grammar.ifAhead (Grammar.kindAt n >>= f)) := by
  have hkind : Grammar.kindAt n >>= f = upcoming >>= fun ws =>
      f ((ws[n]?.map Word.kind).getD .error) := by
    apply StateT.ext
    intro s
    rw [StateT.run_bind, StateT.run_bind, upcoming_run, kindAt_run]
    rfl
  rw [hkind]
  refine J.ifAheadLook (fun ws => ?_) fun ws => h _
  rw [getElem?_tighten, Option.map_map]
  rfl

theorem ifAheadIte {p q : Parser α} {b : Bool} (hp : J.Holds (Grammar.ifAhead p))
    (hq : J.Holds (Grammar.ifAhead q)) :
    J.Holds (Grammar.ifAhead (if b = true then p else q)) := by
  cases b with
  | true => exact hp
  | false => exact hq

theorem peekBind {f : Kind → Parser α} (hend : J.Holds (f .error))
    (h : ∀ k, J.Holds (Grammar.ifAhead (f k))) : J.Holds (Grammar.peek >>= f) := by
  have hpeek : Grammar.peek >>= f = upcoming >>= fun ws =>
      ws.head?.elim (f .error) fun w => Grammar.ifAhead (f w.kind) := by
    apply StateT.ext
    intro s
    rw [StateT.run_bind, StateT.run_bind, upcoming_run, Grammar.peek, kindAt_run]
    cases h : s.ahead with
    | nil =>
      have hk : s.kindAt 0 = .error := by simp [State.kindAt, h]
      rw [hk]
      rfl
    | cons w ws =>
      have hk : s.kindAt 0 = w.kind := by simp [State.kindAt, h]
      rw [hk]
      refine ((ifAhead_run (f w.kind) s).trans ?_).symm
      rw [h]
      rfl
  rw [hpeek]
  refine J.look (fun ws => ?_) fun ws => ?_
  · cases ws <;> rfl
  · cases ws with
    | nil => exact hend
    | cons w _ => exact h w.kind

theorem advanceBy (n : Nat) : J.Holds (advanceBy n) := by
  induction n with
  | zero => exact J.pure ()
  | succ n ih => exact J.bind J.advance fun _ => ih

theorem accept (k : Kind) : J.Holds (accept k) :=
  J.bind (J.isAt k) fun _ => J.ite (J.bind J.advance fun _ => J.pure true) (J.pure false)

theorem expect (k : Kind) : J.Holds (expect k) :=
  J.bind (J.accept k) fun _ => J.ite (J.pure true) (J.bind (J.report _) fun _ => J.pure false)

theorem takeParentheses : J.Holds takeParentheses :=
  J.look (fun ws => by rw [groupLength_tighten]) fun _ => J.advanceBy _

theorem takeBrackets : J.Holds takeBrackets :=
  J.look (fun ws => by rw [groupLength_tighten]) fun _ => J.advanceBy _

theorem endWithSemicolon : J.Holds endWithSemicolon := by
  apply J.bind (J.accept _)
  intro _
  apply J.ite (J.pure ())
  apply J.bind (J.isAt _)
  intro _
  apply J.bind J.atEnd
  intro _
  exact J.ite (J.report _) (J.bind (J.recover _ _) fun _ => J.discard (J.accept _))

theorem repeatUpTo {step : σ → Parser (Bool × σ)} (h : ∀ a, J.Holds (step a)) (n : Nat) (a : σ) :
    J.Holds (repeatUpTo n step a) := by
  induction n generalizing a with
  | zero => exact J.cutOff
  | succ n ih =>
    apply J.bind (h a)
    rintro ⟨more, b⟩
    exact J.ite (ih b) (J.pure b)

theorem loopFrom {step : σ → Parser (Bool × σ)} (h : ∀ a, J.Holds (step a)) (a : σ) :
    J.Holds (loopFrom a step) :=
  J.look (fun ws => by rw [length_tighten]) fun _ => J.repeatUpTo h _ a

theorem loop {step : Parser Bool} (h : J.Holds step) : J.Holds (loop step) :=
  J.loopFrom (fun _ => J.bind h fun _ => J.pure _) ()

theorem loopWhile {condition : Parser Bool} {step : Parser Unit} (hc : J.Holds condition)
    (h : J.Holds step) : J.Holds (loopWhile condition step) :=
  J.loop (J.bind hc fun _ => J.ite (J.bind h fun _ => J.pure true) (J.pure false))

theorem skipWhile (ks : List Kind) :
    J.Holds (Grammar.loopWhile (Grammar.isAtAny ks) Grammar.advance) :=
  J.loopWhile (J.isAtAny ks) J.advance

theorem loopUntil {step : Parser Bool} (h : J.Holds step) :
    J.Holds (Grammar.loop do
      if (← Grammar.atEnd) || (← Grammar.isAt closer) then return false
      step) :=
  J.loop (J.bind J.atEnd fun _ => J.bind (J.isAt _) fun _ => J.ite (J.pure false) h)

theorem commas {part : Parser Unit} (h : J.Holds part) :
    J.Holds (Grammar.loop do part; Grammar.accept .comma) :=
  J.loop (J.bind h fun _ => J.accept _)

end Judgement

end Grammar

end CppRefactor
