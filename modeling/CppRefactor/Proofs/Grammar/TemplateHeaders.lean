import CppRefactor.Proofs.Grammar.Leads
import CppRefactor.Syntax.Parse

/-!
Template headers that stand alone. What is built of them is told by how many words each parameter
has, and nothing is wrong with them.
-/

namespace CppRefactor.Grammar

/-- From `s` to `s'` the words up to `rest` are taken, these parts are added, and nothing is
reported. -/
structure State.Builds (parts : List Outline) (rest : List Word) (s s' : State) : Prop where
  ahead : s'.ahead = rest
  built : s'.built = parts.reverse ++ s.built
  faults : s'.faults = s.faults

variable {s s' s₁ : State} {parts more : List Outline} {rest : List Word}

theorem State.Builds.trans (h : s.Builds parts rest s₁) (h' : s₁.Builds more rest' s') :
    s.Builds (parts ++ more) rest' s' := by
  refine ⟨h'.ahead, ?_, h'.faults.trans h.faults⟩
  rw [h'.built, h.built, List.reverse_append, List.append_assoc]

theorem State.Builds.refl (h : s.ahead = rest) : s.Builds [] rest s := ⟨h, rfl, rfl⟩

namespace Leads

theorem node_builds {body : Parser α} (h : Leads body s.enter fun _ => s.enter.Builds parts rest) :
    Leads (Grammar.node k body) s fun _ => s.Builds [.node k parts] rest := by
  intro a s' hrun
  rw [node_run, Option.bind_eq_some_iff] at hrun
  obtain ⟨⟨b, s₁⟩, h₁, h₂⟩ := hrun
  cases h₂
  obtain ⟨hahead, hbuilt, hfaults⟩ := h _ _ h₁
  refine ⟨hahead, ?_, hfaults⟩
  rw [hbuilt]
  simp [State.enter]

theorem unit {step : Parser Bool} (h : Leads step s post) :
    Leads (do return (← step, ())) s fun r => post r.1 :=
  h.bind fun _ _ h₁ => .pure h₁

theorem loopTo {step : Parser Bool} {post : State → Prop} (inv : State → Prop)
    (h : ∀ s, inv s → Leads step s fun more s' => if more then inv s' else post s') (hs : inv s) :
    Leads (Grammar.loop step) s fun _ => post := by
  refine .read (upcoming_run s) ?_
  generalize 2 * s.ahead.length + 2 = n
  induction n generalizing s with
  | zero => nofun
  | succ n ih =>
    refine (h s hs).unit.bind ?_
    rintro ⟨more, _⟩ s₁ h₁
    cases more with
    | true => exact ih h₁
    | false => exact .pure h₁

end Leads

theorem advance_builds (h : s.ahead = w :: rest) :
    Leads advance s fun _ => s.Builds [.word] rest := by
  intro _ s' hrun
  obtain ⟨ahead, taken, settled, built, faults⟩ := s
  cases h
  cases hrun
  exact ⟨rfl, rfl, rfl⟩

theorem advanceBy_builds {ws : List Word} (h : s.ahead = ws ++ rest) :
    Leads (advanceBy ws.length) s fun _ => s.Builds (List.replicate ws.length .word) rest := by
  induction ws generalizing s with
  | nil => exact .pure (.refl h)
  | cons w ws ih =>
    refine (advance_builds h).bind fun _ s₁ h₁ => ?_
    exact (ih h₁.ahead).imp fun _ _ h₂ => h₁.trans h₂

theorem State.isAt_cons (h : s.ahead = w :: rest) (k : Kind) : s.isAt k = (w.kind == k) := by
  rw [State.isAt, State.isAtAny, h, List.head?_cons, Option.any_some, List.contains_cons,
    List.contains_nil, Bool.or_false]

theorem accept_builds (h : s.ahead = w :: rest) (k : Kind) :
    Leads (accept k) s fun taken s' => taken = (w.kind == k) ∧
      if taken then s.Builds [.word] rest s' else s' = s := by
  refine .read (isAt_run k s) ?_
  rw [State.isAt_cons h]
  cases w.kind == k with
  | true => exact (advance_builds h).bind fun _ _ h₁ => .pure ⟨rfl, h₁⟩
  | false => exact .pure ⟨rfl, rfl⟩

/-- How many brackets are open behind the words of a parameter; nothing if it ends before. -/
def parameterDepth : Nat → List Kind → Option Nat
  | depth, [] => some depth
  | depth, k :: ks =>
    match k with
    | .comma => if depth = 0 then none else parameterDepth depth ks
    | .gt => if depth = 0 then none else parameterDepth (depth - 1) ks
    | .lt | .lParen => parameterDepth (depth + 1) ks
    | .rParen => parameterDepth (depth - 1) ks
    | .lBrace | .semicolon => none
    | _ => parameterDepth depth ks

/-- Words of these kinds are a parameter of a template, before a comma or a closing bracket. -/
def IsParameter (ks : List Kind) : Prop := ks ≠ [] ∧ parameterDepth 0 ks = some 0

instance (ks : List Kind) : Decidable (IsParameter ks) := inferInstanceAs (Decidable (_ ∧ _))

theorem templateParameterLength_append {ws : List Word}
    (h : parameterDepth depth (ws.map Word.kind) = some n) :
    templateParameterLength depth (ws ++ rest) = ws.length + templateParameterLength n rest := by
  induction ws generalizing depth with
  | nil =>
    cases h
    simp
  | cons w ws ih =>
    rw [List.map_cons] at h
    unfold parameterDepth at h
    rw [List.cons_append, templateParameterLength]
    split at h <;> simp_all <;> omega

theorem templateParameterLength_end (h : w.kind = .comma ∨ w.kind = .gt) (rest : List Word) :
    templateParameterLength 0 (w :: rest) = 0 := by
  rcases h with h | h <;> rw [templateParameterLength, h] <;> rfl

theorem IsParameter.head (h : IsParameter (k :: ks)) : k ≠ .comma ∧ k ≠ .gt := by
  obtain ⟨-, h⟩ := h
  constructor <;> rintro rfl <;> cases h

/-- The node of a parameter of so many words. -/
def parameterOf (words : Nat) : Outline := .node .templateParam (List.replicate words .word)

theorem parameter_builds {ws : List Word} (hp : IsParameter (ws.map Word.kind))
    (hahead : s.ahead = ws ++ w :: rest) (hw : w.kind = .comma ∨ w.kind = .gt) :
    Leads (node .templateParam do advanceBy (templateParameterLength 0 (← upcoming))) s
      fun _ => s.Builds [parameterOf ws.length] (w :: rest) := by
  refine .node_builds (.read (upcoming_run _) ?_)
  have hlength : templateParameterLength 0 s.enter.ahead = ws.length := by
    rw [State.enter_ahead, hahead, templateParameterLength_append hp.2,
      templateParameterLength_end hw, Nat.add_zero]
  rw [hlength]
  exact advanceBy_builds hahead

def parameterStep : Parser Bool := do
  if (← atEnd) || (← isAt .gt) then return false
  node .templateParam do advanceBy (templateParameterLength 0 (← upcoming))
  accept .comma

theorem parameterStep_builds {ws : List Word} (hp : IsParameter (ws.map Word.kind))
    (hahead : s.ahead = ws ++ w :: rest) (hw : w.kind = .comma ∨ w.kind = .gt) :
    Leads parameterStep s fun more s' => more = (w.kind == .comma) ∧
      if more then s.Builds [parameterOf ws.length, .word] rest s'
      else s.Builds [parameterOf ws.length] (w :: rest) s' := by
  obtain ⟨v, vs, rfl⟩ := List.exists_cons_of_ne_nil fun h => hp.1 (List.map_eq_nil_iff.mpr h)
  have hhead := hp.head
  have hend : s.atEnd = false := by rw [State.atEnd, hahead]; rfl
  have hgt : s.isAt .gt = false := by
    rw [State.isAt_cons hahead]
    simpa using hhead.2
  refine .read (atEnd_run s) (.read (isAt_run _ s) ?_)
  rw [hend, hgt]
  refine (parameter_builds hp hahead hw).bind fun _ s₁ h₁ => ?_
  refine (accept_builds h₁.ahead .comma).imp ?_
  rintro taken s₂ ⟨htaken, h₂⟩
  refine ⟨htaken, ?_⟩
  cases taken with
  | true => exact h₁.trans h₂
  | false =>
    cases h₂
    exact h₁

def Word.form (w : Word) : Kind × String := (w.kind, w.text)

/-- Parameters, by their words, with commas between them and the closing bracket behind. -/
def listed (params : List (List (Kind × String))) : List (Kind × String) :=
  [(.comma, ",")].intercalate params ++ [(.gt, ">")]

/-- What is built of parameters. -/
def listedParts (params : List (List (Kind × String))) : List Outline :=
  (params.map fun r => parameterOf r.length).intersperse .word

theorem listed_cons (r r' : List (Kind × String)) (params : List (List (Kind × String))) :
    listed (r :: r' :: params) = r ++ (.comma, ",") :: listed (r' :: params) := by
  simp [listed]

theorem parameterStep_ends (hahead : s.ahead = [w]) (hw : w.kind = .gt) :
    Leads parameterStep s fun more s' => more = false ∧ s' = s := by
  have hend : s.atEnd = false := by rw [State.atEnd, hahead]; rfl
  refine .read (atEnd_run s) (.read (isAt_run _ s) ?_)
  rw [hend, State.isAt_cons hahead, hw]
  exact .pure ⟨rfl, rfl⟩

/-- Each step takes one parameter, and the comma behind it if another one follows. -/
theorem parameterSteps_builds {params : List (List (Kind × String))}
    (hp : ∀ r ∈ params, IsParameter (r.map Prod.fst)) (n : Nat)
    (hahead : s.ahead.map Word.form = listed params) :
    Leads (repeatUpTo n (fun _ => do return (← parameterStep, ())) ()) s fun _ s' =>
      ∃ w, w.kind = .gt ∧ s.Builds (listedParts params) [w] s' := by
  induction n generalizing s params with
  | zero => nofun
  | succ n ih =>
    cases params with
    | nil =>
      obtain ⟨w, _, hs, hform, hnil⟩ := List.map_eq_cons_iff.mp hahead
      cases List.map_eq_nil_iff.mp hnil
      have hkind : w.kind = .gt := congrArg Prod.fst hform
      refine (parameterStep_ends hs hkind).unit.bind ?_
      rintro ⟨more, _⟩ s₁ ⟨rfl, rfl⟩
      exact .pure ⟨w, hkind, .refl hs⟩
    | cons r params =>
      obtain ⟨hr, hparams⟩ := List.forall_mem_cons.mp hp
      have htaken {ws : List Word} (hws : ws.map Word.form = r) :
          IsParameter (ws.map Word.kind) ∧ ws.length = r.length := by
        subst hws
        exact ⟨by simpa [Function.comp_def, Word.form] using hr, by simp⟩
      -- The last parameter ends the repetition; behind any other one it goes on after the comma.
      cases params with
      | nil =>
        obtain ⟨ws, rest, hs, hws, hrest⟩ := List.map_eq_append_iff.mp hahead
        rw [List.intercalate_singleton] at hws
        obtain ⟨w, _, rfl, hform, hnil⟩ := List.map_eq_cons_iff.mp hrest
        cases List.map_eq_nil_iff.mp hnil
        have hkind : w.kind = .gt := congrArg Prod.fst hform
        obtain ⟨hparameter, hlength⟩ := htaken hws
        refine (parameterStep_builds hparameter hs (.inr hkind)).unit.bind ?_
        rintro ⟨more, _⟩ s₁ ⟨hmore, h₁⟩
        rw [hkind] at hmore
        cases hmore
        rw [hlength] at h₁
        exact .pure ⟨w, hkind, h₁⟩
      | cons r' params =>
        rw [listed_cons] at hahead
        obtain ⟨ws, rest, hs, hws, hrest⟩ := List.map_eq_append_iff.mp hahead
        obtain ⟨c, rest, rfl, hform, hrest⟩ := List.map_eq_cons_iff.mp hrest
        have hkind : c.kind = .comma := congrArg Prod.fst hform
        obtain ⟨hparameter, hlength⟩ := htaken hws
        refine (parameterStep_builds hparameter hs (.inl hkind)).unit.bind ?_
        rintro ⟨more, _⟩ s₁ ⟨hmore, h₁⟩
        rw [hkind] at hmore
        cases hmore
        rw [hlength] at h₁
        refine (ih hparams (by rwa [h₁.ahead])).imp fun _ s₂ ⟨w, hw, h₂⟩ => ⟨w, hw, ?_⟩
        exact h₁.trans h₂

/-- The words of a template header. -/
def headerForms (params : List (List (Kind × String))) : List (Kind × String) :=
  (.templateKw, "template") :: (.lt, "<") :: listed params

/-- What is built of a header. -/
def headerPart (params : List (List (Kind × String))) : Outline :=
  .node .templateDecl
    [.word, .node .templateParamList (.word :: (listedParts params ++ [.word]))]

variable {params : List (List (Kind × String))}

theorem templateParameters_builds (hp : ∀ r ∈ params, IsParameter (r.map Prod.fst))
    (hs : s.ahead = w :: rest) (hrest : rest.map Word.form = listed params) :
    Leads templateParameters s fun _ => s.Builds
      [.node .templateParamList (.word :: (listedParts params ++ [.word]))] [] := by
  refine .node_builds ((advance_builds (s := s.enter) hs).bind fun _ s₁ h₁ => ?_)
  have hloop : Leads (loop parameterStep) s₁ fun _ s₂ =>
      ∃ w, w.kind = .gt ∧ s₁.Builds (listedParts params) [w] s₂ :=
    .read (upcoming_run s₁) (parameterSteps_builds hp _ (by rw [h₁.ahead, hrest]))
  refine hloop.bind fun _ s₂ ⟨w, hw, h₂⟩ => .discard ?_
  refine (accept_builds h₂.ahead .gt).bind fun taken s₃ ⟨htaken, h₃⟩ => ?_
  rw [hw] at htaken
  cases htaken
  exact .pure (h₁.trans (h₂.trans h₃))

theorem templateDeclaration_builds {go : Rule → Parser Unit} (place : Place)
    (hp : ∀ r ∈ params, IsParameter (r.map Prod.fst))
    (hs : s.ahead.map Word.form = headerForms params) :
    Leads (templateDeclaration go place) s fun _ => s.Builds [headerPart params] [] := by
  obtain ⟨w, rest, hw, -, hrest⟩ := List.map_eq_cons_iff.mp hs
  obtain ⟨w', rest, rfl, hlt, hrest⟩ := List.map_eq_cons_iff.mp hrest
  have hkind : w'.kind = .lt := congrArg Prod.fst hlt
  refine .node_builds ((advance_builds (s := s.enter) hw).bind fun _ s₁ h₁ => ?_)
  refine .read (isAt_run _ s₁) ?_
  rw [State.isAt_cons h₁.ahead, hkind]
  refine (templateParameters_builds hp h₁.ahead hrest).bind fun _ s₂ h₂ => ?_
  refine .read (atEnd_run s₂) ?_
  rw [State.atEnd, h₂.ahead]
  exact .pure (h₁.trans h₂)

theorem declaration_builds (hp : ∀ r ∈ params, IsParameter (r.map Prod.fst))
    (hs : s.ahead.map Word.form = headerForms params) (depth : Nat) :
    Leads (runRule depth (.declaration .scope)) s fun _ => s.Builds [headerPart params] [] := by
  cases depth with
  | zero => nofun
  | succ depth =>
    obtain ⟨w, rest, hw, hform, -⟩ := List.map_eq_cons_iff.mp hs
    have hkind : s.kindAt 0 = .templateKw := by
      rw [State.kindAt, hw]
      exact congrArg Prod.fst hform
    refine .read (peek_run s) ?_
    rw [hkind]
    exact templateDeclaration_builds .scope hp hs

theorem sourceFile_builds (hp : ∀ r ∈ params, IsParameter (r.map Prod.fst))
    (hs : s.ahead.map Word.form = headerForms params) :
    Leads sourceFile s fun _ => s.Builds [headerPart params] [] := by
  obtain ⟨w, rest, hw, hform, -⟩ := List.map_eq_cons_iff.mp hs
  have hkind : w.kind = .templateKw := congrArg Prod.fst hform
  have hbrace : s.isAt .rBrace = false := by
    rw [State.isAt_cons hw, hkind]
    rfl
  refine .read (upcoming_run s) ?_
  -- The repetition is at its start, or behind the header.
  refine Leads.loopTo (fun s₁ => s₁ = s ∨ s.Builds [headerPart params] [] s₁) ?_ (.inl rfl)
  rintro s₁ (rfl | h₁)
  · refine .read (atEnd_run s₁) ?_
    rw [State.atEnd, hw]
    refine .read (isAt_run _ s₁) ?_
    rw [hbrace]
    exact (declaration_builds hp hs _).bind fun _ _ h => .pure (.inr h)
  · refine .read (atEnd_run s₁) ?_
    rw [State.atEnd, h₁.ahead]
    exact .pure h₁

end CppRefactor.Grammar
