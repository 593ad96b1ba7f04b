import CppRefactor.Proofs.Grammar.Judgement
import CppRefactor.Syntax.Parse

/-!
A judgement that holds of the rules that `go` runs holds of every parser of the grammar over them.
Only braced initializers compare gaps as they are, and only some declarations become function
definitions, so each judgement has to see to these itself.
-/

namespace CppRefactor.Grammar

/-- These rules only add to the open node. -/
def Rule.isAdded : Rule → Bool
  | .expression _ | .specifiers _ | .declarator _ => true
  | .declaration _ | .statement => false

theorem runRule_adds (depth : Nat) (h : rule.isAdded = true) :
    Adds (fun _ => True) (runRule depth rule) := by
  cases depth with
  | zero => exact fun _ => nofun
  | succ depth =>
    cases rule with
    | expression | specifiers => exact .node (fun _ => trivial) _
    | declarator => exact .discard (.node (fun _ => trivial) _)
    | declaration | statement => cases h

/-- The judgement holds of the rules that `go` runs, and of braced initializers of them. Some rules
only add to the open node, and declarations outside of classes are plain. -/
structure Judgement.Covers (J : Judgement) (go : Rule → Parser Unit) : Prop where
  rule (r : Rule) : J.Holds (go r)
  braced : J.Holds (bracedInitializer go)
  adds (r : Rule) : r.isAdded = true → Adds (fun _ => True) (go r)
  plain : KeepsPlain (go (.declaration .scope))

variable {J : Judgement} {go : Rule → Parser Unit}

theorem typeId_holds (hg : J.Covers go) : J.Holds (typeId go) := by
  apply J.bind (hg.rule _)
  intro _
  apply J.bind (J.isAtAny _)
  intro _
  exact J.opt (hg.rule _)

theorem templateArgument_holds (hg : J.Covers go) : J.Holds (templateArgument go) := by
  apply J.bind J.peek
  intro _
  extract_lets rest
  have hr : ∀ u, J.Holds (rest u) := fun _ => J.discard (J.accept _)
  apply J.ite
  · exact J.bind (hg.rule _) hr
  · apply J.bind (typeId_holds hg)
    intro _
    apply J.bind (J.isAtAny _)
    intro _
    apply J.bind J.atEnd
    intro _
    exact J.unlessBind (hg.rule _) hr

theorem templateArgument_adds (hg : J.Covers go) :
    Adds (fun _ => True) (templateArgument go) := by
  have hexpression (stops : List Kind) : Adds (fun _ => True) (go (.expression stops)) :=
    hg.adds _ rfl
  have hellipsis : Adds (fun _ => True) (discard (accept .ellipsis)) := .discard (.accept trivial _)
  have hdeclarator : Adds (fun _ => True) (do
      if ← isAtAny [.star, .amp, .ampAmp, .lParen, .lBracket] then go (.declarator .parameter)) :=
    .read (isAtAny_run _) fun _ => .ite (hg.adds _ rfl) (.pure ())
  apply Adds.read peek_run
  intro _
  apply Adds.ite (.bind (hexpression _) fun _ => hellipsis)
  apply Adds.bind (.bind (hg.adds _ rfl) fun _ => hdeclarator)
  intro _
  apply Adds.read (isAtAny_run _)
  intro _
  apply Adds.read atEnd_run
  intro _
  exact .ite hellipsis (.bind (hexpression _) fun _ => hellipsis)

theorem templateArguments_holds (hg : J.Covers go) : J.Holds (templateArguments go) := by
  have hinside : J.Holds (loop do
      if (← atEnd) || (← isAt .gt) then return false
      templateArgument go
      accept .comma) :=
    J.loopUntil (J.bind (templateArgument_holds hg) fun _ => J.accept _)
  apply J.enclosed rfl hinside
  · apply Adds.loop
    apply Adds.read atEnd_run
    intro _
    apply Adds.read (isAt_run _)
    intro _
    exact .ite (.pure _) (.bind (templateArgument_adds hg) fun _ => .accept trivial _)
  · apply J.bind J.advance
    intro _
    exact J.bind hinside fun _ => J.discard (J.expect _)

theorem operatorName_holds (hg : J.Covers go) : J.Holds (operatorName go) := by
  apply J.bind J.advance
  intro _
  apply J.bind J.peek
  intro k
  split
  · exact J.bind J.advance fun _ => J.advance
  · exact J.bind J.advance fun _ => J.advance
  · apply J.bind J.advance
    intro _
    exact J.bind (J.accept _) fun _ => J.opt (J.discard (J.expect _))
  · apply J.bind J.advance
    intro _
    exact J.bind (J.accept _) fun _ => J.opt (J.discard (J.expect _))
  · exact J.bind J.advance fun _ => J.discard (J.accept _)
  · apply J.bind J.advance
    intro _
    apply J.bind (J.isAt _)
    intro _
    exact J.bind (J.kindAt _) fun _ => J.opt J.advance
  · apply J.ite (J.bind (hg.rule _) fun _ => J.skipWhile _)
    exact J.bind J.atEnd fun _ => J.ite (J.pure _) J.advance

theorem behindSegment_holds (hg : J.Covers go) (inType : Bool) (last : Option String) :
    J.Holds (behindSegment go inType last) := by
  apply J.bind (J.isAt _)
  intro _
  extract_lets rest
  have hr : ∀ u, J.Holds (rest u) := by
    intro _
    apply J.bind (J.isAt _)
    intro _
    apply J.bind (J.kindAt _)
    intro _
    exact J.ite (J.bind J.advance fun _ => J.pure _) (J.pure _)
  refine J.ite (J.look ?_ ?_) (hr ())
  · intro ws
    simp only [take_tighten, Guess.behindArguments_tighten, Option.isSome_map]
  · intro _
    exact J.optBind (templateArguments_holds hg) hr

theorem segment_holds (hg : J.Covers go) (inType : Bool) (last : Option String) :
    J.Holds (segment go inType last) := by
  apply J.bind J.atEnd
  intro _
  apply J.ite (J.pure _)
  apply J.bind J.peek
  intro k
  split
  · apply J.bind (J.textAt _)
    intro _
    exact J.bind J.advance fun _ => behindSegment_holds hg _ _
  · apply J.bind J.advance
    intro _
    apply J.bind (J.isAt _)
    intro _
    apply J.ite
    · apply J.bind (J.textAt _)
      intro _
      exact J.bind J.advance fun _ => behindSegment_holds hg _ _
    · exact behindSegment_holds hg _ _
  · exact J.bind (operatorName_holds hg) fun _ => J.pure _
  · exact J.bind (J.report _) fun _ => J.pure _

theorem qualifiedName_holds (hg : J.Covers go) (inType : Bool) :
    J.Holds (qualifiedName go inType) := by
  apply J.node (by decide)
  apply J.bind (J.discard (J.accept _))
  intro _
  apply J.loopFrom
  intro _
  exact J.bind (J.discard (J.accept _)) fun _ => segment_holds hg _ _

theorem typeName_holds (hg : J.Covers go) : J.Holds (typeName go) :=
  J.discard (qualifiedName_holds hg true)

theorem atName_holds : J.Holds atName := J.isAtAny _

theorem group_holds (hg : J.Covers go) (hk : kind.isFormed = false) :
    J.Holds (group go kind closer) := by
  apply J.node hk
  apply J.bind J.advance
  intro _
  apply J.bind (J.loopUntil (J.bind (hg.rule _) fun _ => J.accept _))
  intro _
  exact J.discard (J.expect _)

theorem arguments_holds (hg : J.Covers go) : J.Holds (arguments go) := group_holds hg (by decide)

theorem nameReference_holds (hg : J.Covers go) : J.Holds (nameReference go) :=
  J.node (by decide) (J.discard (qualifiedName_holds hg false))

theorem literal_holds : J.Holds (node .literal advance) := J.node (by decide) J.advance

theorem expressionPart_holds (hg : J.Covers go) (operand : Bool) :
    J.Holds (expressionPart go operand) := by
  have hmember : J.Holds do
      advance
      if ← isAtAny [.ident, .tilde, .templateKw, .operatorKw] then nameReference go
      return true := by
    apply J.bind J.advance
    intro _
    apply J.bind (J.isAtAny _)
    intro _
    exact J.optBind (nameReference_holds hg) fun _ => J.pure true
  have hname : J.Holds (do nameReference go; return true) :=
    J.bind (nameReference_holds hg) fun _ => J.pure true
  have hliteral : J.Holds (do node .literal advance; return true) :=
    J.bind literal_holds fun _ => J.pure true
  apply J.bind J.peek
  intro k
  split
  · exact hliteral
  · exact hliteral
  · exact hliteral
  · exact hname
  · exact hname
  · exact hname
  · exact hmember
  · exact hmember
  · exact J.iteBind (arguments_holds hg) (group_holds hg (by decide)) fun _ => J.pure true
  · exact J.bind (group_holds hg (by decide)) fun _ => J.pure true
  · exact J.bind hg.braced fun _ => J.pure true
  · exact J.bind J.advance fun _ => J.pure true
  · exact J.ite hliteral (J.bind J.advance fun _ => J.pure _)

theorem expression_holds (hg : J.Covers go) (stops : List Kind) :
    J.Holds (expression go stops) := by
  apply J.node (by decide)
  apply J.discard
  apply J.loopFrom
  intro e
  apply J.bind J.atEnd
  intro _
  apply J.ite (J.pure _)
  apply J.bind J.peek
  intro k
  apply J.ite (J.bind J.advance fun _ => J.pure _)
  apply J.ite (J.pure _)
  apply J.ite (J.bind J.advance fun _ => J.pure _)
  exact J.bind (expressionPart_holds hg _) fun _ => J.pure _

theorem bracedInitializer_holds (hp : J.Holds progress) (hg : ∀ r, J.Holds (go r)) :
    J.Holds (bracedInitializer go) := by
  apply J.node (by decide)
  apply J.bind J.advance
  intro _
  refine J.bind (J.loopUntil ?_) fun _ => J.discard (J.expect _)
  apply J.bind hp
  intro _
  apply J.bind (hg _)
  intro _
  apply J.bind (J.accept _)
  intro _
  apply J.ite (J.pure _)
  apply J.bind (J.accept _)
  intro _
  apply J.ite (J.pure _)
  apply J.bind (J.isAt _)
  intro _
  apply J.ite (J.pure _)
  apply J.bind hp
  intro _
  exact J.optBind (J.recover _ _) fun _ => J.pure _

theorem pointerOperators_holds : J.Holds pointerOperators := by
  apply J.loopWhile (J.isAtAny _)
  apply J.node (by decide)
  exact J.bind J.advance fun _ => J.skipWhile _

theorem equalInitializer_holds (hg : J.Covers go) (stops : List Kind) :
    J.Holds (equalInitializer go stops) :=
  J.node (by decide) (J.bind J.advance fun _ => hg.rule _)

theorem parameter_holds (hg : J.Covers go) : J.Holds (parameter go) := by
  apply J.node (by decide)
  apply J.bind (hg.rule _)
  intro _
  apply J.bind (hg.rule _)
  intro _
  apply J.bind (J.isAt _)
  intro _
  exact J.opt (equalInitializer_holds hg _)

theorem parameterList_holds (hg : J.Covers go) : J.Holds (parameterList go) := by
  apply J.node (by decide)
  apply J.bind J.advance
  intro _
  refine J.bind (J.loopUntil ?_) fun _ => J.discard (J.expect _)
  apply J.bind (J.isAt _)
  intro _
  refine J.iteBind J.advance (parameter_holds hg) fun _ => ?_
  apply J.bind (J.accept _)
  intro _
  apply J.ite (J.pure _)
  apply J.bind (J.isAt _)
  intro _
  apply J.ite (J.pure _)
  exact J.bind (J.recover _ _) fun _ => J.accept _

theorem functionQualifiers_holds (hg : J.Covers go) : J.Holds (functionQualifiers go) := by
  have hskip : J.Holds do
      advance
      if ← isAt .lParen then takeParentheses
      return true := by
    apply J.bind J.advance
    intro _
    apply J.bind (J.isAt _)
    intro _
    exact J.optBind J.takeParentheses fun _ => J.pure true
  have hword : J.Holds (do advance; return true) := J.bind J.advance fun _ => J.pure true
  apply J.loop
  apply J.bind J.atEnd
  intro _
  apply J.ite (J.pure _)
  apply J.bind J.peek
  intro k
  split
  · exact hword
  · exact hword
  · exact hword
  · exact hword
  · exact hskip
  · exact hskip
  · apply J.bind (J.textAt _)
    intro _
    exact J.ite hword (J.ite hskip (J.pure false))
  · refine J.bind (J.node (by decide) ?_) fun _ => J.pure true
    exact J.bind J.advance fun _ => typeId_holds hg
  · exact J.pure false

theorem declaratorSuffix_holds (hg : J.Covers go) (place : Place) (named isFunction : Bool) :
    J.Holds (declaratorSuffix go place named isFunction) := by
  apply J.bind J.peek
  intro k
  split
  · exact J.bind (J.node (by decide) J.takeBrackets) fun _ => J.pure _
  · refine J.look (fun ws => by simp only [Guess.startsParameters_tighten]) fun _ => ?_
    apply J.ite (J.pure _)
    apply J.bind (parameterList_holds hg)
    intro _
    exact J.bind (functionQualifiers_holds hg) fun _ => J.pure _
  · exact J.pure _

theorem declarator_holds (hg : J.Covers go) (place : Place) : J.Holds (declarator go place) := by
  apply J.node (by decide)
  apply J.bind pointerOperators_holds
  intro _
  apply J.bind (J.isAt _)
  intro _
  apply J.bind (J.kindAt _)
  intro _
  extract_lets nested rest
  have hr : ∀ named, J.Holds (rest named) := by
    intro _
    exact J.loopFrom (fun _ => declaratorSuffix_holds hg _ _ _) _
  apply J.ite
  · refine J.bind (J.node (by decide) ?_) fun _ => hr false
    apply J.bind J.advance
    intro _
    exact J.bind (hg.rule _) fun _ => J.discard (J.expect _)
  · apply J.bind (J.discard (J.accept _))
    intro _
    apply J.bind (J.isAtAny _)
    intro _
    exact J.optBind (typeName_holds hg) fun _ => hr _

theorem initializer_holds (hg : J.Covers go) (place : Place) (isFunction : Bool) :
    J.Holds (initializer go place isFunction) := by
  apply J.bind J.peek
  intro k
  split
  · apply J.node (by decide)
    apply J.bind J.advance
    intro _
    exact J.bind (J.isAtAny _) fun _ => J.ite J.advance (hg.rule _)
  · exact J.ite (J.pure ()) (J.node (by decide) hg.braced)
  · exact J.ite (J.pure ()) (J.node (by decide) (arguments_holds hg))
  · exact J.ite (J.pure ()) (equalInitializer_holds hg _)
  · exact J.pure ()

theorem enumBase_holds (hg : J.Covers go) : J.Holds (enumBase go) :=
  J.node (by decide) (J.bind J.advance fun _ => hg.rule _)

theorem elaboratedType_holds (hg : J.Covers go) : J.Holds (elaboratedType go) := by
  apply J.node (by decide)
  apply J.bind (J.isAt _)
  intro _
  apply J.bind J.advance
  intro _
  apply J.bind (J.isAtAny _)
  intro _
  extract_lets base name
  have hb : ∀ u, J.Holds (base u) := by
    intro _
    exact J.bind (J.isAt _) fun _ => J.opt (enumBase_holds hg)
  have hn : ∀ u, J.Holds (name u) := by
    intro _
    exact J.bind atName_holds fun _ => J.optBind (typeName_holds hg) hb
  exact J.optBind J.advance hn

theorem baseClause_holds (hg : J.Covers go) : J.Holds (baseClause go) := by
  apply J.node (by decide)
  apply J.bind J.advance
  intro _
  apply J.commas
  apply J.node (by decide)
  apply J.bind (J.skipWhile _)
  intro _
  apply J.bind atName_holds
  intro _
  exact J.iteBind (typeName_holds hg) (J.report _) fun _ => J.discard (J.accept _)

theorem rulesUntil_holds (hg : J.Covers go) (rule : Rule) :
    J.Holds (loop do
      if (← atEnd) || (← isAt .rBrace) then return false
      go rule
      return true) :=
  J.loopUntil (J.bind (hg.rule rule) fun _ => J.pure true)

theorem memberList_holds (hg : J.Covers go) (name : Option String) :
    J.Holds (memberList go name) := by
  apply J.node (by decide)
  apply J.bind J.advance
  intro _
  exact J.bind (rulesUntil_holds hg _) fun _ => J.discard (J.expect _)

theorem atFinal_holds : J.Holds atFinal :=
  J.bind (J.isAt _) fun _ => J.bind (J.textAt _) fun _ => J.pure _

theorem classSpecifier_holds (hg : J.Covers go) : J.Holds (ifAhead (classSpecifier go)) := by
  refine J.headed (by decide) (fun _ => ?_) fun _ => ?_
  · extract_lets atMarker
    have hm : J.Holds atMarker := by
      apply J.bind (J.isAt _)
      intro _
      exact J.bind (J.kindAt _) fun _ => J.bind (J.textAt _) fun _ => J.pure _
    apply J.bind (J.loopWhile hm J.advance)
    intro _
    apply J.bind atName_holds
    intro _
    refine J.iteBind (qualifiedName_holds hg true) (J.pure none) fun name => ?_
    apply J.bind atFinal_holds
    intro _
    refine J.optBind J.advance fun _ => ?_
    apply J.bind (J.isAt _)
    intro _
    refine J.optBind (baseClause_holds hg) fun _ => ?_
    apply J.bind (J.isAt _)
    intro _
    exact J.ite (memberList_holds hg name) (J.report _)
  · have hnode (k : Kind) (body : Parser Unit) : Adds (fun _ => True) (node k body) :=
      .node (fun _ => trivial) body
    refine .bind (.loop ?_) fun _ => .read (isAtAny_run _) fun _ => ?_
    · refine .bind (.read (isAt_run _) fun _ => .read (kindAt_run 1) fun _ =>
        .read (textAt_run 1) fun _ => .pure _) fun _ => ?_
      exact .ite (.bind (.advance trivial trivial) fun _ => .pure _) (.pure _)
    · refine .iteBind (.node (fun _ => trivial) _) (.pure none) fun _ => ?_
      refine .bind (.read (isAt_run _) fun _ => .read (textAt_run 0) fun _ => .pure _) fun _ => ?_
      refine .optBind (.advance trivial trivial) fun _ => .read (isAt_run _) fun _ => ?_
      refine .optBind (hnode _ _) fun _ => .read (isAt_run _) fun _ => ?_
      exact .ite (hnode _ _) (.report _)

theorem enumerator_holds (hg : J.Covers go) : J.Holds (enumerator go) := by
  apply J.node (by decide)
  apply J.bind J.advance
  intro _
  exact J.bind (J.accept _) fun _ => J.opt (hg.rule _)

theorem enumeratorList_holds (hg : J.Covers go) : J.Holds (enumeratorList go) := by
  apply J.node (by decide)
  apply J.bind (J.discard (J.expect _))
  intro _
  refine J.bind (J.loopUntil ?_) fun _ => J.discard (J.expect _)
  apply J.bind (J.isAt _)
  intro _
  refine J.iteBind (enumerator_holds hg) (J.recover _ _) fun _ => ?_
  apply J.bind (J.accept _)
  intro _
  apply J.ite (J.pure _)
  apply J.bind (J.isAt _)
  intro _
  apply J.ite (J.pure _)
  apply J.bind (J.recover _ _)
  intro _
  exact J.bind (J.discard (J.accept _)) fun _ => J.pure _

theorem enumSpecifier_holds (hg : J.Covers go) : J.Holds (ifAhead (enumSpecifier go)) := by
  refine J.headed (by decide) (fun _ => ?_) fun _ => ?_
  · apply J.bind (J.isAtAny _)
    intro _
    refine J.optBind J.advance fun _ => ?_
    apply J.bind atName_holds
    intro _
    refine J.optBind (typeName_holds hg) fun _ => ?_
    apply J.bind (J.isAt _)
    intro _
    exact J.optBind (enumBase_holds hg) fun _ => enumeratorList_holds hg
  · refine .read (isAtAny_run _) fun _ => .optBind (.advance trivial trivial) fun _ => ?_
    refine .read (isAtAny_run _) fun _ => ?_
    refine .optBind (.discard (.node (fun _ => trivial) _)) fun _ => ?_
    refine .read (isAt_run _) fun _ => ?_
    exact .optBind (.node (fun _ => trivial) _) fun _ => .node (fun _ => trivial) _

theorem atSpecifierMacro_holds : J.Holds atSpecifierMacro := by
  apply J.bind (J.textAt _)
  intro _
  exact J.bind (J.kindAt _) fun _ => J.bind (J.isAt _) fun _ => J.pure _

theorem nameSpecifier_holds (hg : J.Covers go) (place : Place) :
    J.Holds (nameSpecifier go place) := by
  apply J.bind atSpecifierMacro_holds
  intro _
  apply J.ite (J.bind J.advance fun _ => J.pure _)
  refine J.look (fun ws => by simp only [Guess.startsConstructor_tighten]) fun _ => ?_
  exact J.ite (J.pure _) (J.bind (typeName_holds hg) fun _ => J.pure _)

theorem typeSpecifier_holds (hg : J.Covers go) (place : Place) :
    J.Holds (typeSpecifier go place) := by
  have htype {p : Parser Unit} (hp : J.Holds (ifAhead p)) : J.Holds (ifAhead do
      if Guess.startsTypeDefinition (← upcoming) then p else elaboratedType go
      return (true, true)) := by
    refine J.ifAheadLook (fun ws => by simp only [Guess.startsTypeDefinition_tighten]) fun ws => ?_
    cases Guess.startsTypeDefinition ws with
    | true => exact J.ifAheadBind hp fun _ => J.pure _
    | false => exact J.ifAhead (J.bind (elaboratedType_holds hg) fun _ => J.pure _)
  refine J.peekBind (J.pure _) fun k => ?_
  split
  · exact htype (classSpecifier_holds hg)
  · exact htype (classSpecifier_holds hg)
  · exact htype (classSpecifier_holds hg)
  · exact htype (enumSpecifier_holds hg)
  · apply J.ifAhead
    apply J.bind J.advance
    intro _
    apply J.bind (J.isAt _)
    intro _
    exact J.optBind J.takeParentheses fun _ => J.pure _
  · exact J.ifAhead (nameSpecifier_holds hg place)
  · exact J.ifAhead (nameSpecifier_holds hg place)
  · exact J.ifAhead (J.pure _)

theorem specifiers_holds (hg : J.Covers go) (place : Place) : J.Holds (specifiers go place) := by
  apply J.node (by decide)
  apply J.discard
  apply J.loopFrom
  intro typed
  apply J.bind J.atEnd
  intro _
  apply J.ite (J.pure _)
  apply J.bind J.peek
  intro k
  apply J.ite (J.bind J.advance fun _ => J.pure _)
  apply J.ite (J.bind J.advance fun _ => J.pure _)
  exact J.ite (J.pure _) (typeSpecifier_holds hg place)

theorem block_holds (hg : J.Covers go) : J.Holds (block go) := by
  apply J.node (by decide)
  apply J.bind J.advance
  intro _
  exact J.bind (rulesUntil_holds hg _) fun _ => J.discard (J.expect _)

theorem subStatement_holds (hg : J.Covers go) : J.Holds (subStatement go) := by
  apply J.bind J.atEnd
  intro _
  exact J.bind (J.isAt _) fun _ => J.ite (J.report _) (hg.rule _)

theorem headDeclarator_holds (hg : J.Covers go) (stops : List Kind) :
    J.Holds (headDeclarator go stops) := by
  apply J.node (by decide)
  apply J.bind (J.discard (declarator_holds hg _))
  intro _
  apply J.bind (J.isAt _)
  intro _
  apply J.ite (equalInitializer_holds hg _)
  exact J.bind (J.isAt _) fun _ => J.opt (J.node (by decide) hg.braced)

theorem condition_holds (hg : J.Covers go) : J.Holds (condition go) := by
  apply J.node (by decide)
  apply J.bind (J.expect _)
  intro _
  apply J.opt
  refine J.look (fun ws => by simp only [Guess.startsDeclaration_tighten]) fun _ => ?_
  extract_lets close rest
  have hr : ∀ u, J.Holds (rest u) := by
    intro _
    apply J.bind (J.accept _)
    intro _
    exact J.optBind (hg.rule _) fun _ => J.discard (J.expect _)
  refine J.iteBind (J.node (by decide) ?_) (hg.rule _) hr
  exact J.bind (specifiers_holds hg _) fun _ => headDeclarator_holds hg _

theorem forHead_holds (hg : J.Covers go) : J.Holds (forHead go) := by
  refine J.look (fun ws => by simp only [Guess.startsDeclaration_tighten]) fun _ => ?_
  extract_lets close step range
  have hc : ∀ u, J.Holds (close u) := fun _ => J.discard (J.expect _)
  have hs : ∀ u, J.Holds (step u) := by
    intro _
    apply J.bind (J.discard (J.expect _))
    intro _
    exact J.bind (J.isAt _) fun _ => J.unlessBind (hg.rule _) hc
  have hr : ∀ u, J.Holds (range u) := by
    intro _
    apply J.bind (J.accept _)
    intro _
    apply J.ite (J.bind (hg.rule _) hc)
    apply J.bind (J.expect _)
    intro _
    refine J.ite ?_ (hc ())
    exact J.bind (J.isAt _) fun _ => J.unlessBind (hg.rule _) hs
  apply J.ite
  · refine J.bind (J.node (by decide) ?_) hr
    apply J.bind (specifiers_holds hg _)
    intro _
    exact J.commas (headDeclarator_holds hg _)
  · exact J.bind (J.isAt _) fun _ => J.unlessBind (hg.rule _) hr

theorem forStatement_holds (hg : J.Covers go) : J.Holds (forStatement go) := by
  apply J.node (by decide)
  apply J.bind J.advance
  intro _
  apply J.bind (J.expect _)
  intro _
  exact J.opt (J.bind (forHead_holds hg) fun _ => subStatement_holds hg)

theorem catchClauses_holds (hg : J.Covers go) : J.Holds (catchClauses go) := by
  apply J.loopWhile (J.isAt _)
  apply J.node (by decide)
  apply J.bind J.advance
  intro _
  apply J.bind (J.isAt _)
  intro _
  refine J.optBind (parameterList_holds hg) fun _ => ?_
  exact J.bind (J.isAt _) fun _ => J.ite (block_holds hg) (J.report _)

theorem tryStatement_holds (hg : J.Covers go) : J.Holds (tryStatement go) := by
  apply J.node (by decide)
  apply J.bind J.advance
  intro _
  apply J.bind (J.isAt _)
  intro _
  exact J.iteBind (block_holds hg) (J.report _) fun _ => catchClauses_holds hg

theorem jump_holds (hk : kind.isFormed = false) : J.Holds (jump kind) := by
  apply J.node hk
  apply J.bind J.advance
  intro _
  exact J.optBind (J.discard (J.accept _)) fun _ => J.endWithSemicolon

theorem controlled_holds (hg : J.Covers go) (hk : kind.isFormed = false) :
    J.Holds (controlled go kind) := by
  apply J.node hk
  apply J.bind J.advance
  intro _
  exact J.bind (condition_holds hg) fun _ => subStatement_holds hg

theorem expressionStatement_holds (hg : J.Covers go) : J.Holds (expressionStatement go) :=
  J.node (by decide) (J.bind (hg.rule _) fun _ => J.endWithSemicolon)

theorem statement_holds (hg : J.Covers go) : J.Holds (statement go) := by
  apply J.bind J.peek
  intro k
  split
  · exact block_holds hg
  · exact controlled_holds hg (by decide)
  · exact controlled_holds hg (by decide)
  · apply J.node (by decide)
    apply J.bind J.advance
    intro _
    apply J.bind (hg.rule _)
    intro _
    exact J.bind (J.accept _) fun _ => J.ite (J.pure ()) (J.report _)
  · apply J.node (by decide)
    apply J.bind J.advance
    intro _
    apply J.bind (J.discard (J.accept _))
    intro _
    apply J.bind (condition_holds hg)
    intro _
    apply J.bind (subStatement_holds hg)
    intro _
    exact J.bind (J.accept _) fun _ => J.opt (subStatement_holds hg)
  · apply J.node (by decide)
    apply J.bind J.advance
    intro _
    apply J.bind (subStatement_holds hg)
    intro _
    apply J.bind (J.expect _)
    intro _
    exact J.optBind (condition_holds hg) fun _ => J.endWithSemicolon
  · exact forStatement_holds hg
  · apply J.node (by decide)
    apply J.bind J.advance
    intro _
    apply J.bind (J.isAt _)
    intro _
    exact J.unlessBind (hg.rule _) fun _ => J.endWithSemicolon
  · exact jump_holds (by decide)
  · exact jump_holds (by decide)
  · exact jump_holds (by decide)
  · exact tryStatement_holds hg
  · exact J.node (by decide) J.advance
  · exact hg.rule _
  · exact hg.rule _
  · exact hg.rule _
  · exact hg.rule _
  · exact hg.rule _
  · apply J.bind (J.kindAt _)
    intro _
    extract_lets labelled
    apply J.ite (J.node (by decide) (J.advanceBy _))
    apply J.ite (J.node (by decide) (J.advanceBy _))
    refine J.look (fun ws => by simp only [Guess.startsDeclaration_tighten]) fun _ => ?_
    exact J.ite (hg.rule _) (expressionStatement_holds hg)

theorem declarationList_holds (hg : J.Covers go) : J.Holds (declarationList go) := by
  apply J.plain (by decide)
  · apply J.bind J.advance
    intro _
    exact J.bind (rulesUntil_holds hg _) fun _ => J.discard (J.expect _)
  · apply KeepsPlain.bind .advance
    intro _
    refine .bind (.loop (.read atEnd_run fun _ => .read (isAt_run _) fun _ => ?_)) fun _ =>
      .discard_expect _
    exact .ite (.pure _) (.bind hg.plain fun _ => .pure _)

theorem namespaceDeclaration_holds (hg : J.Covers go)
    (hw : ∀ start, J.Holds (wrap .namespaceDef start)) : J.Holds (namespaceDeclaration go) := by
  apply J.bind J.mark
  intro _
  apply J.bind (J.discard (J.accept _))
  intro _
  apply J.bind J.advance
  intro _
  apply J.bind atName_holds
  intro _
  extract_lets close rest
  have hr : ∀ u, J.Holds (rest u) := by
    intro _
    apply J.bind (J.accept _)
    intro _
    apply J.ite
    · apply J.bind (typeName_holds hg)
      intro _
      exact J.bind (J.discard (J.expect _)) fun _ => J.wrap _ (by decide)
    · apply J.bind (J.isAt _)
      intro _
      exact J.iteBind (declarationList_holds hg) (J.report _) fun _ => hw _
  exact J.optBind (typeName_holds hg) hr

theorem usingDeclaration_holds (hg : J.Covers go) : J.Holds (usingDeclaration go) := by
  apply J.bind J.mark
  intro start
  apply J.bind J.advance
  intro _
  have close {k : Kind} (hk : k.isFormed = false) : J.Holds (do
      discard (expect .semicolon)
      wrap k start) :=
    J.bind (J.discard (J.expect _)) fun _ => J.wrap start hk
  apply J.bind (J.accept _)
  intro _
  apply J.ite
  · apply J.bind atName_holds
    intro _
    exact J.iteBind (typeName_holds hg) (J.report _) fun _ => close (by decide)
  · apply J.bind (J.isAt _)
    intro _
    apply J.bind (J.kindAt _)
    intro _
    apply J.ite
    · apply J.bind (J.advanceBy _)
      intro _
      exact J.bind (typeId_holds hg) fun _ => close (by decide)
    · apply J.bind (J.discard (J.accept _))
      intro _
      exact J.bind (typeName_holds hg) fun _ => close (by decide)

theorem templateParameters_holds : J.Holds templateParameters := by
  apply J.node (by decide)
  apply J.bind J.advance
  intro _
  refine J.bind (J.loopUntil (J.bind (J.node (by decide) ?_) fun _ => J.accept _)) fun _ =>
    J.discard (J.expect _)
  refine J.look (fun ws => ?_) fun _ => J.advanceBy _
  rw [templateParameterLength_tighten]

theorem templateDeclaration_holds (hg : J.Covers go) (place : Place) :
    J.Holds (templateDeclaration go place) := by
  apply J.node (by decide)
  apply J.bind J.advance
  intro _
  apply J.bind (J.isAt _)
  intro _
  refine J.optBind templateParameters_holds fun _ => ?_
  exact J.bind J.atEnd fun _ => J.ite (J.pure ()) (hg.rule _)

theorem linkageSpecification_holds (hg : J.Covers go) : J.Holds (linkageSpecification go) := by
  apply J.plain (by decide)
  · apply J.bind (J.advanceBy _)
    intro _
    apply J.bind (J.isAt _)
    intro _
    apply J.ite (declarationList_holds hg)
    exact J.bind J.atEnd fun _ => J.ite (J.pure ()) (hg.rule _)
  · apply KeepsPlain.bind (.advanceBy _)
    intro _
    refine .read (isAt_run _) fun _ => .ite (.node (by decide) _) ?_
    exact .read atEnd_run fun _ => .ite (.pure ()) hg.plain

theorem staticAssertion_holds : J.Holds staticAssertion := by
  apply J.node (by decide)
  apply J.bind J.advance
  intro _
  apply J.bind (J.isAt _)
  intro _
  exact J.optBind J.takeParentheses fun _ => J.discard (J.expect _)

theorem accessSpecifier_holds : J.Holds accessSpecifier := by
  apply J.node (by decide)
  apply J.bind J.advance
  intro _
  apply J.bind (J.isAt _)
  intro _
  apply J.bind (J.kindAt _)
  intro _
  exact J.optBind J.advance fun _ => J.discard (J.expect _)

theorem macroCall_holds : J.Holds macroCall := by
  apply J.node (by decide)
  apply J.bind J.advance
  intro _
  apply J.bind (J.isAt _)
  intro _
  refine J.optBind J.takeParentheses fun _ => ?_
  apply J.bind (J.isAt _)
  intro _
  refine J.lookAt (fun w => ?_) (fun _ => J.opt J.advance) 0
  simp only [Option.any_some, bne, Word.tight_gap_beq]

theorem constructorInitializers_holds (hg : J.Covers go) :
    J.Holds (constructorInitializers go) := by
  apply J.node (by decide)
  apply J.bind J.advance
  intro _
  apply J.commas
  apply J.node (by decide)
  apply J.bind atName_holds
  intro _
  extract_lets rest value
  have hr : ∀ u, J.Holds (rest u) := fun _ => J.discard (J.accept _)
  have hv : ∀ u, J.Holds (value u) := by
    intro _
    apply J.bind (J.isAt _)
    intro _
    apply J.ite (J.bind (arguments_holds hg) hr)
    exact J.bind (J.isAt _) fun _ => J.iteBind hg.braced (J.report _) hr
  exact J.iteBind (typeName_holds hg) (J.report _) hv

theorem functionBody_holds (hg : J.Covers go) : J.Holds (functionBody go) := by
  apply J.bind (J.discard (J.accept _))
  intro _
  apply J.bind (J.isAt _)
  intro _
  refine J.optBind (constructorInitializers_holds hg) fun _ => ?_
  apply J.bind (J.isAt _)
  intro _
  exact J.iteBind (block_holds hg) (J.report _) fun _ => catchClauses_holds hg

theorem atFunctionBody_holds (place : Place) : J.Holds (atFunctionBody place) :=
  J.bind (J.isAtAny _) fun _ => J.bind (J.isAt _) fun _ => J.pure _

/-- What follows the first declarator of a declaration that is no function definition. -/
theorem declarators_holds (hg : J.Covers go) (place : Place) (isFunction : Bool)
    (start declared : Nat) :
    J.Holds (do
      initializer go place isFunction
      wrap .initDeclarator declared
      loopWhile (accept .comma) do
        node .initDeclarator do initializer go place (← declarator go place)
      endWithSemicolon
      wrap .simpleDecl start) := by
  apply J.bind (initializer_holds hg place _)
  intro _
  apply J.bind (J.wrap _ (by decide))
  intro _
  have hmore : J.Holds (loopWhile (accept .comma) do
      node .initDeclarator do initializer go place (← declarator go place)) := by
    apply J.loopWhile (J.accept _)
    apply J.node (by decide)
    exact J.bind (declarator_holds hg place) fun _ => initializer_holds hg place _
  apply J.bind hmore
  intro _
  exact J.bind J.endWithSemicolon fun _ => J.wrap _ (by decide)

theorem simpleDeclaration_holds (hg : J.Covers go)
    (hf : ∀ start, J.Holds (wrap .functionDef start)) (place : Place) :
    J.Holds (simpleDeclaration go place) := by
  apply J.bind J.mark
  intro _
  apply J.bind (specifiers_holds hg place)
  intro _
  apply J.bind (J.accept _)
  intro _
  apply J.ite (J.wrap _ (by decide))
  apply J.bind J.mark
  intro _
  apply J.bind (declarator_holds hg place)
  intro _
  apply J.bind (atFunctionBody_holds place)
  intro _
  apply J.ite
  · exact J.bind (functionBody_holds hg) fun _ => hf _
  · exact declarators_holds hg place _ _ _

theorem declaration_holds (hg : J.Covers go) (place : Place)
    (hnamespace : J.Holds (ifAhead (namespaceDeclaration go)))
    (hsimple : J.Holds (simpleDeclaration go place)) : J.Holds (declaration go place) := by
  have haccess : J.Holds
      (if place.isMembers then accessSpecifier else simpleDeclaration go place) :=
    J.ite accessSpecifier_holds hsimple
  refine J.peekBind hsimple fun k => ?_
  split
  · exact J.ifAhead (J.node (by decide) J.advance)
  · exact hnamespace
  · exact J.ifAhead (usingDeclaration_holds hg)
  · exact J.ifAhead (templateDeclaration_holds hg place)
  · exact J.ifAhead staticAssertion_holds
  · exact J.ifAheadKind 1 fun _ => J.ifAheadIte hnamespace (J.ifAhead hsimple)
  · exact J.ifAhead (J.bind (J.kindAt _) fun _ => J.ite (linkageSpecification_holds hg) hsimple)
  · exact J.ifAhead haccess
  · exact J.ifAhead haccess
  · exact J.ifAhead haccess
  · apply J.ifAhead
    apply J.bind (J.textAt _)
    intro _
    apply J.bind (J.kindAt _)
    intro _
    apply J.ite accessSpecifier_holds
    refine J.look (fun ws => by simp only [Guess.startsMacroCall_tighten]) fun _ => ?_
    exact J.ite macroCall_holds hsimple
  · exact J.ifAhead hsimple

theorem ruleBody_holds (hg : J.Covers go)
    (hnamespace : J.Holds (ifAhead (namespaceDeclaration go)))
    (hsimple : ∀ place, J.Holds (simpleDeclaration go place)) (rule : Rule) :
    J.Holds (ruleBody go rule) := by
  cases rule with
  | declaration place => exact declaration_holds hg place hnamespace (hsimple place)
  | statement => exact statement_holds hg
  | expression stops => exact expression_holds hg stops
  | specifiers place => exact specifiers_holds hg place
  | declarator place => exact J.discard (declarator_holds hg place)

theorem runRule_holds (hp : J.Holds progress)
    (hw : ∀ k since, k ≠ .error → k.closer? = none → J.Holds (wrap k since)) (depth : Nat)
    (rule : Rule) : J.Holds (runRule depth rule) := by
  induction depth generalizing rule with
  | zero => exact J.cutOff
  | succ depth ih =>
    have hg : J.Covers (runRule depth) :=
      ⟨ih, bracedInitializer_holds hp ih, fun _ => runRule_adds depth,
        runRule_declaration_plain depth⟩
    have hnamespace := namespaceDeclaration_holds hg fun start => hw _ start (by decide) rfl
    have hsimple := simpleDeclaration_holds hg fun start => hw _ start (by decide) rfl
    exact ruleBody_holds hg (J.ifAhead hnamespace) hsimple rule

theorem sourceFile_holds (h : ∀ depth rule, J.Holds (runRule depth rule)) :
    J.Holds sourceFile := by
  refine J.look (fun ws => by rw [length_tighten]) fun _ => J.loop ?_
  apply J.bind J.atEnd
  intro _
  apply J.ite (J.pure _)
  apply J.bind (J.isAt _)
  intro _
  exact J.iteBind (J.recover _ _) (h _ _) fun _ => J.pure _

end CppRefactor.Grammar
