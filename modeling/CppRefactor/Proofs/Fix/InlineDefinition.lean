import CppRefactor.Fix.InlineDefinition
import CppRefactor.Proofs.Fix.Request
import CppRefactor.Proofs.Syntax.Functions
import CppRefactor.Proofs.Text.Blanks

/-!
Function definitions in a text: what is deleted where a declaration stays, and what is written
elsewhere. Written are the parts up to the end of the body, so handlers are not.
-/

namespace CppRefactor

theorem Declarator.name?_of_isChild {t : Tree}
    (h : ∃ name ∈ t.parts, name.isChild .qualifiedName = true) :
    ∃ name ∈ t.parts, name? t = some name := by
  cases t with
  | token =>
    obtain ⟨_, hmem, -⟩ := h
    cases hmem
  | node k s ts =>
    obtain ⟨name, hname⟩ := Option.isSome_iff_exists.mp (List.find?_isSome.mpr h)
    exact ⟨name, List.mem_of_find?_eq_some hname, Option.or_eq_some_iff.mpr (.inl hname)⟩

namespace InlineDefinition

variable {d : InlineDefinition}

/-- The definition is one of a text, with its declarator and its body. -/
structure Stands (text : String) (d : InlineDefinition) : Prop where
  tree : IsTreeOf text d.definition
  kind : d.definition.kind = .functionDef
  declarator : d.definition.child? .declarator = some d.declarator
  body : d.definition.child? .compoundStmt = some d.body

theorem of?_stands {c : Cursor} (hc : IsTreeOf text c.focus) (hk : (c.kind == .functionDef) = true)
    (h : of? c header = some d) : d.Stands text := by
  obtain ⟨declarator, hdeclarator, h⟩ := Option.bind_eq_some_iff.mp h
  obtain ⟨body, hbody, h⟩ := Option.bind_eq_some_iff.mp h
  cases h
  exact ⟨hc, beq_iff_eq.mp hk, hdeclarator, hbody⟩

theorem of?_definition {c : Cursor} (h : of? c header = some d) : d.definition = c.focus := by
  obtain ⟨declarator, -, h⟩ := Option.bind_eq_some_iff.mp h
  obtain ⟨body, -, h⟩ := Option.bind_eq_some_iff.mp h
  cases h
  rfl

/-- The declaration as it stands elsewhere, up to the end of the declarator. -/
def heading (d : InlineDefinition) (text qualifier : String) (asInline : Bool) : String :=
  let specs := (d.definition.specifiers?.map (specifiersText text)).getD ""
  let head := .join (d.headers.map (· ++ "\n")) ++ (if asInline then "inline " else "") ++
    if specs.isEmpty then "" else specs ++ " "
  match Declarator.name? d.declarator with
  | none => head
  | some name =>
    head ++ Declarator.pointerText d.declarator ++ qualifier ++
      Text.slice text ⟨name.span.start, d.declarator.span.stop⟩

/-- The part of the definition behind its body: the handlers of a function that is tried. -/
def behindBody (d : InlineDefinition) : Span := ⟨d.body.span.stop, d.definition.span.stop⟩

def hasHandlers (d : InlineDefinition) : Bool := (d.definition.child? .catchClause).isSome

theorem squash_afterName (between : String) : squash (afterName between) = squash between := by
  rw [afterName, squash_append, squash_trim]
  split <;> simp

namespace Stands

theorem declarator_tree (h : d.Stands text) : IsTreeOf text d.declarator :=
  h.tree.child h.declarator

theorem body_tree (h : d.Stands text) : IsTreeOf text d.body :=
  h.tree.child h.body

theorem body_encloses (h : d.Stands text) :
    d.definition.span.start ≤ d.body.span.start ∧ d.body.span.stop ≤ d.definition.span.stop :=
  h.tree.encloses (Tree.mem_preorder_of_mem_parts (Tree.mem_parts_of_child? h.body))

theorem named (h : d.Stands text) :
    ∃ name ∈ d.declarator.parts, Declarator.name? d.declarator = some name := by
  obtain ⟨_, _, _, -, hname, -, -⟩ := h.tree.function_split h.kind h.declarator h.body
  exact Declarator.name?_of_isChild hname

theorem order (h : d.Stands text) : d.declarator.span.stop ≤ d.body.span.start :=
  h.tree.declarator_before_body h.kind h.declarator h.body

theorem slice_behindBody (h : d.Stands text) : ∃ behind,
    Text.slice text d.behindBody = .join (behind.map Tree.text) ∧
      (∀ p ∈ behind, (∃ w, w.isTrivia = true ∧ p = .token w) ∨ p.isChild .catchClause = true) ∧
      (d.hasHandlers = false → behind = []) := by
  obtain ⟨front, between, behind, hparts, -, hbehind, hnone⟩ :=
    h.tree.function_split h.kind h.declarator h.body
  rw [← List.cons_append, ← List.append_assoc] at hparts
  refine ⟨behind, h.tree.slice_behind hparts, hbehind, fun hd => hnone ?_⟩
  simpa [hasHandlers] using hd

theorem slice_fromBody (h : d.Stands text) :
    Text.slice text d.body.span ++ Text.slice text d.behindBody =
      Text.slice text ⟨d.body.span.start, d.definition.span.stop⟩ :=
  Text.slice_append h.body_tree.isBoundary_start h.body_tree.isBoundary_stop h.tree.isBoundary_stop
    h.body_tree.tiled.start_le_stop h.body_encloses.2

/-- What a semicolon replaces is what stands before the body, and all from there. -/
theorem slice_replaced (h : d.Stands text) :
    Text.slice text ⟨d.declarator.span.stop, d.body.span.start⟩ ++
        Text.slice text ⟨d.body.span.start, d.definition.span.stop⟩ =
      Text.slice text d.replaced :=
  Text.slice_append h.declarator_tree.isBoundary_stop h.body_tree.isBoundary_start
    h.tree.isBoundary_stop h.order (Nat.le_trans h.body_tree.tiled.start_le_stop h.body_encloses.2)

/-- What is written elsewhere and what stands behind the body are the declaration and what is
deleted. -/
theorem render_behindBody (h : d.Stands text) (qualifier : String) (asInline : Bool) (width : Nat) :
    squash (d.render text qualifier asInline width) ++ squash (Text.slice text d.behindBody) =
      squash (d.heading text qualifier asInline) ++ squash (Text.slice text d.replaced) := by
  obtain ⟨name, hmem, hn⟩ := h.named
  have hname := h.declarator_tree.part hmem
  have hnamed : name.span.stop ≤ d.declarator.span.stop :=
    (h.declarator_tree.encloses (Tree.mem_preorder_of_mem_parts hmem)).2
  have hdeclared := Text.slice_append hname.isBoundary_start hname.isBoundary_stop
    h.declarator_tree.isBoundary_stop hname.tiled.start_le_stop hnamed
  have hbetween := Text.slice_append hname.isBoundary_stop h.declarator_tree.isBoundary_stop
    h.body_tree.isBoundary_start hnamed h.order
  simp only [render, heading, hn, ← h.slice_replaced, ← h.slice_fromBody, ← hbetween,
    ← hdeclared, squash_append, squash_afterName, squash_reindent_of_blank squash_empty,
    List.append_assoc]

theorem render_keeps (h : d.Stands text) (hd : d.hasHandlers = false) (qualifier : String)
    (asInline : Bool) (width : Nat) :
    squash (d.render text qualifier asInline width) =
      squash (d.heading text qualifier asInline) ++ squash (Text.slice text d.replaced) := by
  obtain ⟨behind, hslice, -, hnone⟩ := h.slice_behindBody
  have hkeeps := h.render_behindBody qualifier asInline width
  rw [hslice, hnone hd] at hkeeps
  rwa [List.map_nil, String.join_nil, squash_empty, List.append_nil] at hkeeps

/-- Elsewhere the name is followed by what stands between it and the body, as it is. -/
theorem render_behindName (h : d.Stands text) (qualifier : String) (asInline : Bool)
    (width : Nat) : ∃ name ∈ d.declarator.parts, Declarator.name? d.declarator = some name ∧
      (name.text ++ Text.trim (Text.slice text ⟨name.span.stop, d.body.span.start⟩)).toList <:+:
        (d.render text qualifier asInline width).toList := by
  obtain ⟨name, hmem, hn⟩ := h.named
  refine ⟨name, hmem, hn, ?_⟩
  simp only [render, hn, afterName, (h.declarator_tree.part hmem).slice, String.toList_append]
  rw [List.append_assoc, List.append_assoc, List.append_assoc (Text.trim _).toList,
    ← List.append_assoc name.text.toList, ← List.append_assoc]
  exact List.infix_append ..

theorem infix_behindName (h : d.Stands text) (hname : name ∈ d.declarator.parts)
    (hp : p ∈ d.definition.preorder) (hstart : name.span.stop ≤ p.span.start)
    (hstop : p.span.stop ≤ d.body.span.start) : (Text.trim p.text).toList <:+:
      (Text.trim (Text.slice text ⟨name.span.stop, d.body.span.start⟩)).toList := by
  have hpart := h.tree.inside hp
  have hslice := Text.infix_slice (h.declarator_tree.part hname).isBoundary_stop
    hpart.isBoundary_start hpart.isBoundary_stop h.body_tree.isBoundary_start hstart
    hpart.tiled.start_le_stop hstop
  rw [← hpart.slice, Text.trim, Text.trim, String.toList_ofList, String.toList_ofList]
  exact Text.infix_trimChars hslice

end Stands

end InlineDefinition

namespace DeclaredClass

theorem definitionsInBody_stand {r : Request} {cls : DeclaredClass} (hr : r.Sound)
    (hcls : cls.spec.Within r.source.tree) (hd : d ∈ cls.definitionsInBody) :
    d.Stands r.text := by
  unfold definitionsInBody at hd
  split at hd
  · cases hd
  · rename_i list hlist
    obtain ⟨c, hc, hd⟩ := List.mem_filterMap.mp hd
    obtain ⟨part, hpart, rfl⟩ := List.mem_map.mp hc
    have hwithin := ((hcls.child hlist).part (List.mem_filter.mp hpart).1).withoutTemplates
    split at hd
    · rename_i hk
      exact InlineDefinition.of?_stands (hr.isTreeOf hwithin) hk hd
    · cases hd

theorem of?_spec {r : Request} {c : Cursor} (h : of? r c = some cls) : cls.spec = c := by
  obtain ⟨name, -, h⟩ := Option.bind_eq_some_iff.mp h
  obtain ⟨symbol, -, h⟩ := Option.bind_eq_some_iff.mp h
  obtain ⟨decl, -, h⟩ := Option.bind_eq_some_iff.mp h
  cases h
  rfl

end DeclaredClass

end CppRefactor
