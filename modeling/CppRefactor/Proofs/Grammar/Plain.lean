import CppRefactor.Proofs.Grammar.Leads
import CppRefactor.Syntax.Parse

/-!
Access specifiers are taken directly in the body of a class, or behind templates there, and nowhere
else: what a declaration outside of classes builds is plain.
-/

namespace CppRefactor

namespace Outline

/-- No access specifier, and no template around one. -/
inductive Plain : Outline → Prop
  | word : Plain .word
  | gap : Plain .gap
  | node {k : Kind} {ps : List Outline} : k ≠ .accessSpec →
      (k = .templateDecl → ∀ p ∈ ps, Plain p) → Plain (.node k ps)

theorem Plain.of_kind (h : k ≠ .accessSpec ∧ k ≠ .templateDecl) (ps : List Outline) :
    Plain (.node k ps) :=
  .node h.1 fun hk => absurd hk h.2

end Outline

namespace Grammar

def State.Plain (s : State) : Prop := ∀ p ∈ s.built, p.Plain

theorem State.Plain.gains {s s' : State} (h : s.Plain) (hs : s.Gains Outline.Plain s') :
    s'.Plain := by
  obtain ⟨new, hbuilt, hnew⟩ := hs
  rw [State.Plain, hbuilt]
  exact List.forall_mem_append.mpr ⟨hnew, h⟩

/-- If the open node has plain parts only, it still has after the parser. -/
def KeepsPlain (p : Parser α) : Prop := ∀ s, s.Plain → Leads p s fun _ => State.Plain

namespace KeepsPlain

theorem of_adds {p : Parser α} (h : Adds Outline.Plain p) : KeepsPlain p :=
  fun s hs => (h s).imp fun _ _ hgains => hs.gains hgains

theorem pure (a : α) : KeepsPlain (Pure.pure a) := fun _ hs => .pure hs

theorem cutOff : KeepsPlain (failure : Parser α) := fun _ _ => nofun

theorem bind {p : Parser α} {f : α → Parser β} (hp : KeepsPlain p) (hf : ∀ a, KeepsPlain (f a)) :
    KeepsPlain (p >>= f) :=
  fun s hs => (hp s hs).bind fun a s₁ => hf a s₁

theorem read {p : Parser α} {f : α → Parser β} {a : State → α}
    (hp : ∀ s, p.run s = some (a s, s)) (hf : ∀ a, KeepsPlain (f a)) : KeepsPlain (p >>= f) :=
  fun s hs => .read (hp s) (hf _ s hs)

theorem ite {p q : Parser α} {b : Bool} (hp : KeepsPlain p) (hq : KeepsPlain q) :
    KeepsPlain (if b = true then p else q) :=
  fun s hs => .ite (hp s hs) (hq s hs)

theorem optBind {p : Parser Unit} {rest : Unit → Parser β} {b : Bool} (hp : KeepsPlain p)
    (hr : ∀ u, KeepsPlain (rest u)) : KeepsPlain (if b = true then p >>= rest else rest ()) :=
  ite (bind hp hr) (hr ())

theorem iteBind {p q : Parser α} {rest : α → Parser β} {b : Bool} (hp : KeepsPlain p)
    (hq : KeepsPlain q) (hr : ∀ a, KeepsPlain (rest a)) :
    KeepsPlain (if b = true then p >>= rest else q >>= rest) :=
  ite (bind hp hr) (bind hq hr)

theorem advance : KeepsPlain advance := of_adds (.advance .word .gap)

theorem advanceBy (n : Nat) : KeepsPlain (advanceBy n) := of_adds (.advanceBy .word .gap n)

theorem accept (k : Kind) : KeepsPlain (accept k) := of_adds (.accept .word k)

theorem discard_expect (k : Kind) : KeepsPlain (discard (expect k)) :=
  of_adds (.discard (.expect .word k))

theorem report (c : Complaint) : KeepsPlain (report c) := of_adds (.report c)

theorem mark : KeepsPlain mark :=
  fun s hs => (mark_leads s).imp fun _ s' h => by rwa [State.Plain, h.2]

theorem node (h : k ≠ .accessSpec ∧ k ≠ .templateDecl) (body : Parser α) :
    KeepsPlain (node k body) :=
  of_adds (.node (.of_kind h) body)

theorem wrap (h : k ≠ .accessSpec ∧ k ≠ .templateDecl) (since : Nat) :
    KeepsPlain (wrap k since) := by
  intro s hs _ s' hrun
  cases hrun
  exact List.forall_mem_cons.mpr ⟨.of_kind h _, fun p hp => hs p (List.mem_of_mem_drop hp)⟩

theorem loop {step : Parser Bool} (h : KeepsPlain step) : KeepsPlain (loop step) :=
  fun _ hs => .loop State.Plain h hs

theorem endWithSemicolon : KeepsPlain endWithSemicolon :=
  .bind (.accept _) fun _ => .ite (.pure ()) <| .read (isAt_run _) fun _ => .read atEnd_run fun _ =>
    .ite (.report _) (.bind (.bind (.report _) fun _ => .node (by decide) _) fun _ =>
      of_adds (.discard (.accept .word _)))

end KeepsPlain

variable {go : Rule → Parser Unit}

theorem runRule_plain (depth : Nat) {rule : Rule}
    (h : rule matches .expression _ | .specifiers _ | .declarator _) :
    KeepsPlain (runRule depth rule) := by
  cases depth with
  | zero => exact .cutOff
  | succ depth =>
    cases rule with
    | declaration => cases h
    | statement => cases h
    | expression stops => exact .node (by decide) _
    | specifiers place => exact .node (by decide) _
    | declarator place => exact .of_adds (.discard (.node (.of_kind (by decide)) _))

section

variable (hr : ∀ rule, (rule matches .expression _ | .specifiers _ | .declarator _) →
  KeepsPlain (go rule))

theorem typeName_plain : KeepsPlain (typeName go) :=
  .of_adds (.discard (.node (.of_kind (by decide)) _))

theorem namespaceDeclaration_plain : KeepsPlain (namespaceDeclaration go) := by
  apply KeepsPlain.bind .mark
  intro start
  apply KeepsPlain.bind (.of_adds (.discard (.accept .word _)))
  intro _
  apply KeepsPlain.bind .advance
  intro _
  apply KeepsPlain.read (isAtAny_run _)
  intro _
  refine .optBind typeName_plain fun _ => ?_
  apply KeepsPlain.bind (.accept _)
  intro _
  apply KeepsPlain.ite
  · apply KeepsPlain.bind typeName_plain
    intro _
    exact .bind (.discard_expect _) fun _ => .wrap (by decide) _
  · apply KeepsPlain.read (isAt_run _)
    intro _
    exact .iteBind (.node (by decide) _) (.report _) fun _ => .wrap (by decide) _

theorem functionBody_plain : KeepsPlain (functionBody go) := by
  apply KeepsPlain.bind (.of_adds (.discard (.accept .word _)))
  intro _
  apply KeepsPlain.read (isAt_run _)
  intro _
  refine .optBind (.node (by decide) _) fun _ => ?_
  apply KeepsPlain.read (isAt_run _)
  intro _
  refine .iteBind (.node (by decide) _) (.report _) fun _ => .loop ?_
  apply KeepsPlain.read (isAt_run _)
  intro _
  exact .ite (.bind (.node (by decide) _) fun _ => .pure _) (.pure _)

theorem initializer_plain (place : Place) (isFunction : Bool) :
    KeepsPlain (initializer go place isFunction) := by
  apply KeepsPlain.read peek_run
  intro _
  split
  · exact .node (by decide) _
  · exact .ite (.pure ()) (.node (by decide) _)
  · exact .ite (.pure ()) (.node (by decide) _)
  · exact .ite (.pure ()) (.node (by decide) _)
  · exact .pure ()

theorem simpleDeclaration_plain (place : Place) : KeepsPlain (simpleDeclaration go place) := by
  have hdeclarator : KeepsPlain (declarator go place) := .node (by decide) _
  apply KeepsPlain.bind .mark
  intro _
  apply KeepsPlain.bind (.node (by decide) _)
  intro _
  apply KeepsPlain.bind (.accept _)
  intro _
  apply KeepsPlain.ite (.wrap (by decide) _)
  apply KeepsPlain.bind .mark
  intro _
  apply KeepsPlain.bind hdeclarator
  intro _
  apply KeepsPlain.bind (.read (isAtAny_run _) fun _ => .read (isAt_run _) fun _ => .pure _)
  intro _
  apply KeepsPlain.ite
  · exact .bind functionBody_plain fun _ => .wrap (by decide) _
  · apply KeepsPlain.bind (initializer_plain place _)
    intro _
    apply KeepsPlain.bind (.wrap (by decide) _)
    intro _
    refine .bind (.loop (.bind (.accept _) fun _ => ?_)) fun _ => ?_
    · exact .ite (.bind (.node (by decide) _) fun _ => .pure _) (.pure _)
    · exact .bind .endWithSemicolon fun _ => .wrap (by decide) _

include hr

theorem usingDeclaration_plain : KeepsPlain (usingDeclaration go) := by
  have close {k : Kind} (hk : k ≠ .accessSpec ∧ k ≠ .templateDecl) (start : Nat) : KeepsPlain (do
      discard (expect .semicolon)
      wrap k start) :=
    .bind (.discard_expect _) fun _ => .wrap hk start
  apply KeepsPlain.bind .mark
  intro start
  apply KeepsPlain.bind .advance
  intro _
  apply KeepsPlain.bind (.accept _)
  intro _
  apply KeepsPlain.ite
  · apply KeepsPlain.read (isAtAny_run _)
    intro _
    exact .iteBind typeName_plain (.report _) fun _ => close (by decide) start
  · apply KeepsPlain.read (isAt_run _)
    intro _
    apply KeepsPlain.read (kindAt_run 1)
    intro _
    apply KeepsPlain.ite
    · apply KeepsPlain.bind (.advanceBy _)
      intro _
      refine .bind (.bind (hr _ rfl) fun _ => .read (isAtAny_run _) fun _ => ?_) fun _ =>
        close (by decide) start
      exact .ite (hr _ rfl) (.pure ())
    · apply KeepsPlain.bind (.of_adds (.discard (.accept .word _)))
      intro _
      exact .bind typeName_plain fun _ => close (by decide) start

omit hr in
theorem templateDeclaration_plain {place : Place} (h : KeepsPlain (go (.declaration place))) :
    KeepsPlain (templateDeclaration go place) := by
  have hbody : KeepsPlain (do
      advance
      if ← isAt .lt then templateParameters
      unless ← atEnd do go (.declaration place)) := by
    apply KeepsPlain.bind .advance
    intro _
    apply KeepsPlain.read (isAt_run _)
    intro _
    refine .optBind (.node (by decide) _) fun _ => ?_
    exact .read atEnd_run fun _ => .ite (.pure ()) h
  intro s hs
  have henter : s.enter.Plain := nofun
  refine (Leads.node (hbody _ henter)).imp ?_
  rintro _ s' ⟨s₁, h₁, h⟩
  rw [State.Plain, h]
  refine List.forall_mem_cons.mpr ⟨.node (by decide) fun _ p hp => ?_, hs⟩
  exact h₁ p (List.mem_reverse.mp hp)

theorem declaration_plain (h : KeepsPlain (go (.declaration .scope))) :
    KeepsPlain (declaration go .scope) := by
  have hsimple : KeepsPlain (simpleDeclaration go .scope) := simpleDeclaration_plain .scope
  apply KeepsPlain.read peek_run
  intro k
  split
  · exact .node (by decide) _
  · exact namespaceDeclaration_plain
  · exact usingDeclaration_plain hr
  · exact templateDeclaration_plain h
  · exact .node (by decide) _
  · exact .read (kindAt_run 1) fun _ => .ite namespaceDeclaration_plain hsimple
  · exact .read (kindAt_run 1) fun _ => .ite (.node (by decide) _) hsimple
  · exact hsimple
  · exact hsimple
  · exact hsimple
  · apply KeepsPlain.read (textAt_run 0)
    intro _
    apply KeepsPlain.read (kindAt_run 1)
    intro _
    exact .read upcoming_run fun _ => .ite (.node (by decide) _) hsimple
  · exact hsimple

end

/-- The walk of the grammar outside of classes: by induction on how deep rules may nest, since a
template has a declaration in it. -/
theorem runRule_declaration_plain (depth : Nat) :
    KeepsPlain (runRule depth (.declaration .scope)) := by
  induction depth with
  | zero => exact .cutOff
  | succ depth ih => exact declaration_plain (fun _ h => runRule_plain depth h) ih

end Grammar

end CppRefactor
