import CppRefactor.Fix.MoveToDeclaration
import CppRefactor.Proofs.Fix.InlineDefinition

/-!
What moving a definition to its declaration does to the code: what stands behind the declarator
takes the place of the semicolon, and the definition goes. A definition of several lines is indented
by what stands before the declaration on its line, which is meant to be blank.
-/

namespace CppRefactor

namespace MoveToDeclaration

/-- Nothing but blanks stands before the declaration on its line. -/
def Declaration.startsLine (d : Declaration) : Bool :=
  (Text.trim (Text.slice d.file.text d.margin)).isEmpty

/-- What indents the lines of a body. -/
def indentFor (settings : Settings) (d : Declaration) : String :=
  if d.depth != 0 && d.startsLine then settings.indent d.depth
  else Text.slice d.file.text d.margin

/-- What the place of the semicolon gets, for a body of several lines. -/
def longText (settings : Settings) (d : Declaration) (head body : String) : String :=
  (if head.isEmpty then "" else " " ++ head) ++ "\n" ++
    Text.reindent body (indentFor settings d) settings.indentWidth

/-- What the place of the semicolon gets, for a body of one line. -/
def shortText (head body : String) : String :=
  " " ++ (if head.isEmpty then "" else head ++ " ") ++ body

/-- An edit that writes blanks for blanks before the declaration, and `inline` perhaps. -/
structure Indents (d : Declaration) (e : Edit) : Prop where
  place : squash (Text.slice d.file.text e.span) = []
  text : squash e.insert = if d.needsInline then squash "inline" else []

variable {settings : Settings} {d : Declaration} {head body : String} {moved : InlineDefinition}

theorem squash_margin (h : d.startsLine = true) : squash (Text.slice d.file.text d.margin) = [] :=
  squash_of_trim_isEmpty h

theorem squash_indent (settings : Settings) (level : Nat) :
    squash (settings.indent level) = [] := by
  rw [Settings.indent, squash, String.toList_ofList]
  exact Text.code_spaces _

theorem squash_indentFor (h : d.startsLine = true) : squash (indentFor settings d) = [] := by
  unfold indentFor
  split
  · exact squash_indent ..
  · exact squash_margin h

theorem shortEdits_eq (d : Declaration) (head body : String) : ∃ before,
    shortEdits d head body = before ++ [⟨d.semicolon, shortText head body⟩] ∧
      ∀ e ∈ before, Indents d e := by
  refine ⟨if d.needsInline then [⟨.point d.start, "inline "⟩] else [], rfl, ?_⟩
  intro e he
  split at he
  · rename_i h
    rw [List.mem_singleton.mp he]
    refine ⟨?_, ?_⟩
    · rw [Text.slice_point]
      rfl
    · rw [if_pos h]
      exact (by decide : squash "inline " = squash "inline")
  · cases he

theorem longEdits_eq (settings : Settings) (d : Declaration) (head body : String) : ∃ before,
    longEdits settings d head body = before ++ [⟨d.semicolon, longText settings d head body⟩] ∧
      ∀ e ∈ before, Indents d e := by
  refine ⟨if d.startsLine && (indentFor settings d != Text.slice d.file.text d.margin ||
    d.needsInline) then [⟨d.margin, indentFor settings d ++
      if d.needsInline then "inline " else ""⟩] else [], rfl, ?_⟩
  intro e he
  split at he
  · rename_i h
    rw [List.mem_singleton.mp he]
    rw [Bool.and_eq_true] at h
    refine ⟨squash_margin h.1, ?_⟩
    rw [squash_append, squash_indentFor h.1, List.nil_append]
    split <;> decide
  · cases he

theorem squash_shortText (head body : String) :
    squash (shortText head body) = squash head ++ squash body := by
  unfold shortText
  split
  · rename_i h
    simp [String.isEmpty_iff.mp h]
  · simp

theorem squash_longText (settings : Settings) (d : Declaration) (head body : String) :
    squash (longText settings d head body) = squash head ++
      (Text.linesOf body.toList).flatMap (Text.indented (indentFor settings d).toList) := by
  rw [longText, squash_append, squash_append, squash_reindent, squash_lineFeed, List.append_nil]
  split
  · rename_i h
    rw [String.isEmpty_iff.mp h]
  · simp

theorem squash_longText_of_startsLine (h : d.startsLine = true) :
    squash (longText settings d head body) = squash head ++ squash body := by
  rw [longText, squash_append, squash_append, squash_reindent_of_blank (squash_indentFor h),
    squash_lineFeed, List.append_nil]
  split
  · rename_i he
    rw [String.isEmpty_iff.mp he]
  · simp

/-- The code behind the declarator is what stands before the body and what begins with it. -/
theorem squash_replaced (hm : moved.Stands text) :
    squash (Text.slice text moved.replaced) =
      squash (Text.trim (Text.slice text ⟨moved.declarator.span.stop, moved.body.span.start⟩)) ++
        squash (Text.slice text ⟨moved.body.span.start, moved.definition.span.stop⟩) := by
  rw [← hm.slice_replaced, squash_append, squash_trim]

/-- The move of a definition to a declaration: the definition goes with its templates, and what
stands behind its declarator takes the place of the semicolon. -/
structure Rearranges (r : Request) (m : MoveToDeclaration) (c : Cursor) (moved : InlineDefinition)
    (d : Declaration) : Prop where
  within : c.Within r.source.tree
  definition : InlineDefinition.of? c none = some moved
  removed : m.removed = c.outermostTemplate.span
  file : d.file = r.snapshot.file m.file
  semicolon : (d.decl.focus.lastToken? .semicolon).map Token.span = some d.semicolon
  edits : ∃ before text, m.edits = before ++ [⟨d.semicolon, text⟩] ∧
    (∀ e ∈ before, Indents d e) ∧
    (d.startsLine = true ∨ (Text.slice r.text
        ⟨moved.body.span.start, c.span.stop⟩).toList.contains '\n' = false →
      squash text = squash (Text.slice r.text moved.replaced))

theorem target?_ok (h : target? s symbol = .ok (some d)) : d.file = s.file symbol.file ∧
    (d.decl.focus.lastToken? .semicolon).map Token.span = some d.semicolon := by
  obtain ⟨decl, -, h⟩ := of_bind_eq_ok h
  split at h
  · obtain ⟨semicolon, hsemicolon, h⟩ := of_bind_eq_ok h
    cases h
    exact ⟨rfl, congrArg (Option.map Token.span) (of_orError hsemicolon)⟩
  · cases h

theorem offers_rearranges {r : Request} (hr : r.Sound) (h : offers r = .ok moves)
    (hm : m ∈ moves) : ∃ c moved d, Rearranges r m c moved d := by
  unfold offers at h
  split at h
  · cases h
    cases hm
  · rename_i c hc
    have hk := Request.kind_of_find? hc
    have hc := hr.find hc
    split at h
    · cases h
      cases hm
    · rename_i declaration _
      obtain ⟨target, htarget, h⟩ := of_bind_eq_ok h
      split at h
      · cases h
        cases hm
      · rename_i d
        obtain ⟨moved, hmoved, h⟩ := of_bind_eq_ok h
        cases h
        rw [List.mem_singleton.mp hm]
        have hmoved := of_orError hmoved
        have hstands := InlineDefinition.of?_stands (hr.isTreeOf hc) hk hmoved
        have hfocus : moved.definition = c.focus :=
          InlineDefinition.of?_definition hmoved
        obtain ⟨hfile, hsemicolon⟩ := target?_ok htarget
        refine ⟨c, moved, d, hc, hmoved, rfl, hfile, hsemicolon, ?_⟩
        dsimp only
        split
        · rename_i hlong
          obtain ⟨before, hedits, hbefore⟩ := longEdits_eq r.settings d _ _
          refine ⟨before, _, hedits, hbefore, fun hkeeps => ?_⟩
          have hstart : d.startsLine = true :=
            hkeeps.resolve_right fun h => absurd (hlong.symm.trans h) (by decide)
          rw [squash_longText_of_startsLine hstart, squash_replaced hstands, hfocus]
          rfl
        · obtain ⟨before, hedits, hbefore⟩ := shortEdits_eq d _ _
          refine ⟨before, _, hedits, hbefore, fun _ => ?_⟩
          rw [squash_shortText, squash_replaced hstands, hfocus]
          rfl

theorem Rearranges.slice_removed {r : Request} (hr : r.Sound) (h : Rearranges r m c moved d) :
    Text.slice r.text m.removed = c.outermostTemplate.focus.text := by
  rw [h.removed]
  exact (hr.isTreeOf h.within.outermostTemplate).slice

/-- The edits of the declaration, and the removal; nothing else is edited. -/
theorem changes_editsAt (r : Request) (m : MoveToDeclaration) (path : Path) :
    (m.changes r).editsAt path =
      (if RemoveUsing.pathOf r.snapshot m.file = path then m.edits else []) ++
        if RemoveUsing.pathOf r.snapshot r.file = path then [⟨m.removed, ""⟩] else [] := by
  have hedits (change : Change) : (m.edits.foldl Change.add change).edits =
      change.edits ++ m.edits := by
    rw [RemoveUsing.edits_foldl_add (fun e => e), List.map_id']
  refine (Changeset.editsAt_editFile_add _ r.snapshot r.file _ path).trans ?_
  exact congrArg (· ++ _) (Changeset.editsAt_edit hedits .empty _ _ path)

/-- Another declaration on the line of the one that is filled is written before every line of the
body. -/
theorem leading_code_repeated :
    Request.textsOffered offers changes
        (RemoveUsing.snapshotOf "int x; void f();\nvoid f()\n\x7b\n    g();\n\x7d\n") 0 22 =
      [some [("/a.cpp",
        "int x; void f()\nint x; \x7b\nint x;     g();\nint x; \x7d\n\n")]] := by
  decide +kernel

end MoveToDeclaration

end CppRefactor
