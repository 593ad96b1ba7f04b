import CppRefactor.Fix.ExtractLiteral
import CppRefactor.Proofs.Fix.Request
import CppRefactor.Proofs.Symbols.Inside
import CppRefactor.Proofs.Syntax.Functions
import Mathlib.Data.List.Nodup

/-!
What making a literal a parameter does: the parameter has a name that no other one has, and all
literals of that text in the body are replaced by the name and nothing else is. The parameter goes
behind the last one; in a list without any it goes to the very end, behind an ellipsis as well.
-/

namespace CppRefactor

namespace ParameterSlot

variable {params : Tree} {slot : ParameterSlot}

/-- Where a parameter goes in a list that a parenthesis closes. -/
inductive Follows (params : Tree) (close : Token) : ParameterSlot → Prop
  | empty (h : Parameters.list params = []) : Follows params close ⟨.point close.offset, false⟩
  | void (h : Parameters.list params = [p]) (hvoid : Text.trim p.text = "void") :
      Follows params close ⟨p.span, false⟩
  | last (h : (Parameters.list params).getLast? = some p)
      (hmore : Parameters.isEmpty params = false) :
      Follows params close ⟨.point ((stop? p).getD close.offset), true⟩

theorem ofList_follows (h : ofList params = .ok slot) :
    ∃ close, params.lastToken? .rParen = some close ∧ Follows params close slot := by
  obtain ⟨offset, hoffset, h⟩ := of_bind_eq_ok h
  obtain ⟨close, hclose, rfl⟩ := Option.map_eq_some_iff.mp (of_orError hoffset)
  refine ⟨close, hclose, ?_⟩
  split at h
  · rename_i hempty
    cases h
    unfold Parameters.isEmpty at hempty
    split at hempty
    · rename_i hlist
      rw [hlist]
      exact .empty hlist
    · rename_i p hlist
      rw [hlist]
      exact .void hlist (beq_iff_eq.mp hempty)
    · cases hempty
  · rename_i hmore
    cases h
    cases hlast : (Parameters.list params).getLast? with
    | none =>
      have hnone : Parameters.list params = [] := List.getLast?_eq_none_iff.mp hlast
      exact absurd (by rw [Parameters.isEmpty, hnone]) hmore
    | some p => exact .last hlast (Bool.not_eq_true _ ▸ hmore)

theorem Follows.stop_le (h : Follows params close slot) (ht : IsTreeOf text params)
    (hclose : params.lastToken? .rParen = some close) : slot.span.stop ≤ params.span.stop := by
  have hpart : ∀ p ∈ params.parts, p.span.stop ≤ params.span.stop := fun p hp =>
    (ht.encloses (Tree.mem_preorder_of_mem_parts hp)).2
  have hparam : ∀ p ∈ Parameters.list params, p ∈ params.parts := fun p hp =>
    (List.mem_filter.mp hp).1
  have hoffset : close.offset ≤ params.span.stop :=
    Nat.le_trans (Nat.le_add_right ..) (hpart _ (Tree.mem_parts_of_lastToken? hclose))
  cases h with
  | empty => exact hoffset
  | @void p hlist => exact hpart p (hparam p (hlist ▸ List.mem_cons_self))
  | @last p hlast =>
    have hp := hparam p (List.mem_of_getLast? hlast)
    change (stop? p).getD close.offset ≤ params.span.stop
    cases hleaf : p.lastLeaf? with
    | none => simpa [stop?, hleaf] using hoffset
    | some w => simpa [stop?, hleaf, (ht.part hp).tiled.lastLeaf_stop hleaf] using hpart p hp

/-- In a list without parameters the slot is behind all there is, an ellipsis for one. -/
theorem Follows.start_behind (h : Follows params close slot) (ht : params.Tiled)
    (hnone : Parameters.list params = [])
    (hparts : params.parts = front ++ u :: (between ++ .token close :: behind)) :
    u.span.stop ≤ slot.span.start := by
  cases h with
  | empty => exact ht.stop_le_start hparts
  | void hlist => cases hnone.symm.trans hlist
  | last hlast =>
    rw [hnone] at hlast
    cases hlast

/-- Behind the last parameter the slot is before all else, an ellipsis for one. -/
theorem Follows.stop_before (h : Follows params close slot) (ht : params.Tiled)
    (hmore : Parameters.isEmpty params = false)
    (hlast : (Parameters.list params).getLast? = some p) (hstop : stop? p = some stop)
    (hparts : params.parts = front ++ p :: (between ++ u :: behind)) :
    slot.span = .point p.span.stop ∧ slot.span.stop ≤ u.span.start := by
  have hslot : slot.span = .point p.span.stop := by
    cases h with
    | empty hlist =>
      rw [hlist] at hlast
      cases hlast
    | void hlist hvoid =>
      rw [Parameters.isEmpty, hlist] at hmore
      exact absurd hmore (by simp [hvoid])
    | last hlast' =>
      obtain rfl := Option.some.inj (hlast.symm.trans hlast')
      obtain ⟨w, hw, rfl⟩ := Option.map_eq_some_iff.mp hstop
      rw [hstop, Option.getD_some, (ht.parts hparts).split.2.1.lastLeaf_stop hw]
  refine ⟨hslot, ?_⟩
  rw [hslot]
  exact ht.stop_le_start hparts

end ParameterSlot

namespace ExtractLiteral

theorem toString_injective {m n : Nat} (h : toString m = toString n) : m = n := by
  have hdigits : Nat.toDigits 10 m = Nat.toDigits 10 n := by
    rw [← Nat.toList_repr, ← Nat.toList_repr]
    exact congrArg String.toList h
  rw [← Nat.ofDigitChars_ten_toDigits (n := m), hdigits, Nat.ofDigitChars_ten_toDigits]

theorem nodup_numbered (base : String) (n : Nat) :
    ((List.range n).map fun i => base ++ toString (i + 2)).Nodup := by
  refine List.Nodup.map (fun i j h => ?_) List.nodup_range
  have h := toString_injective ((String.append_right_inj base).mp h)
  omega

/-- The names of the parameters there are. -/
def namesOf (params : Tree) : List String :=
  (Parameters.list params).filterMap fun p => p.declaredName?.map (·.spelling)

theorem freeName_not_mem (base : String) (taken : List String) : freeName base taken ∉ taken := by
  unfold freeName
  split
  · rename_i h
    simpa using h
  · dsimp only
    cases hfree : List.find? (!taken.contains ·) _ with
    | some name => simpa using List.find?_some hfree
    | none =>
      have htaken : ((List.range (taken.length + 1)).map fun i => base ++ toString (i + 2)) ⊆
          taken := by
        intro name hname
        simpa using List.find?_eq_none.mp hfree name hname
      have hlength := (nodup_numbered base (taken.length + 1)).length_le_of_subset htaken
      simp only [List.length_map, List.length_range] at hlength
      omega

/-- A literal in the body of a function that is made a parameter. -/
structure Extracts (r : Request) (body : Cursor) (params : Tree) (f : ExtractLiteral) : Prop where
  within : body.Within r.source.tree
  list : IsTreeOf r.text params
  order : params.span.stop ≤ body.span.start
  slot : ParameterSlot.ofList params = .ok f.slot
  parameter : f.parameter = freeName r.settings.parameterName (namesOf params)
  occurrences : f.occurrences =
    ((body.nodesOf .literal).filter fun l => Literal.text l.focus == f.literal).map (·.span)

theorem offersFor_extracts {r : Request} {literal definition : Cursor} (hr : r.Sound)
    (hd : definition.Within r.source.tree) (hk : definition.kind = .functionDef)
    (h : offersFor r literal definition = .ok fixes)
    (hf : f ∈ fixes) : ∃ body params, Extracts r body params f := by
  obtain ⟨body, hbody, h⟩ := of_bind_eq_ok h
  split at h
  · split at h
    · cases h
      cases hf
    · obtain ⟨declarator, hdeclarator, h⟩ := of_bind_eq_ok h
      obtain ⟨params, hparams, h⟩ := of_bind_eq_ok h
      split at h
      · obtain ⟨name, -, h⟩ := of_bind_eq_ok h
        obtain ⟨symbol, -, h⟩ := of_bind_eq_ok h
        obtain ⟨slot, hslot, h⟩ := of_bind_eq_ok h
        cases h
        rw [List.mem_singleton.mp hf]
        have hbody := of_orError hbody
        have hdeclarator := of_orError hdeclarator
        have hparams := of_orError hparams
        have htree := hr.isTreeOf hd
        refine ⟨body, params, hd.child hbody, (htree.child hdeclarator).child hparams, ?_, hslot,
          rfl, rfl⟩
        have hfocus : definition.focus.child? .compoundStmt = some body.focus := by
          rw [Cursor.focus_child?, hbody, Option.map_some]
        have hinside := Tree.mem_preorder_of_mem_parts (Tree.mem_parts_of_child? hparams)
        exact Nat.le_trans ((htree.child hdeclarator).encloses hinside).2
          (htree.declarator_before_body hk hdeclarator hfocus)
      · cases h
  · cases h
    cases hf

theorem offers_extracts {r : Request} (hr : r.Sound) (h : offers r = .ok fixes) (hf : f ∈ fixes) :
    ∃ body params, Extracts r body params f := by
  unfold offers at h
  split at h
  · rename_i literal definition hliteral hdefinition
    have hk := beq_iff_eq.mp (Request.kind_of_find? hdefinition)
    exact offersFor_extracts hr (hr.find hdefinition) hk h hf
  · cases h
    cases hf

namespace Extracts

variable {r : Request} {body : Cursor} {params : Tree}

theorem free (h : Extracts r body params f) (hp : p ∈ Parameters.list params)
    (hname : p.declaredName? = some name) : name.spelling ≠ f.parameter := by
  intro htaken
  refine freeName_not_mem r.settings.parameterName (namesOf params) ?_
  rw [← h.parameter, ← htaken]
  exact List.mem_filterMap.mpr ⟨p, hp, by rw [hname, Option.map_some]⟩

/-- The literals of that text in the body are replaced, and nothing else in it. -/
theorem mem_occurrences (h : Extracts r body params f) : span ∈ f.occurrences ↔
    ∃ l ∈ body.nodesOf .literal, Literal.text l.focus = f.literal ∧ l.span = span := by
  simp [h.occurrences, and_assoc]

theorem slice_occurrence (hr : r.Sound) (h : Extracts r body params f)
    (hspan : span ∈ f.occurrences) : ∃ l ∈ body.nodesOf .literal,
      Literal.text l.focus = f.literal ∧ Text.slice r.text span = l.focus.text := by
  obtain ⟨l, hl, htext, rfl⟩ := h.mem_occurrences.mp hspan
  have hwithin := h.within.preorder (List.mem_filter.mp hl).1
  exact ⟨l, hl, htext, (hr.isTreeOf hwithin).slice⟩

theorem slot_before_body (h : Extracts r body params f) : f.slot.span.stop ≤ body.span.start := by
  obtain ⟨close, hclose, hfollows⟩ := ParameterSlot.ofList_follows h.slot
  exact Nat.le_trans (hfollows.stop_le h.list hclose) h.order

end Extracts

/-- The edits of the definition. -/
def replacements (f : ExtractLiteral) (param : String) : List Edit :=
  ⟨f.slot.span, f.slot.render param⟩ :: f.occurrences.map fun span => ⟨span, f.parameter⟩

theorem definitionEdits_edits (f : ExtractLiteral) (param : String) (c : Change) :
    (f.definitionEdits param c).edits = c.edits ++ f.replacements param := by
  refine (RemoveUsing.edits_foldl_add (fun span => ⟨span, f.parameter⟩) f.occurrences _).trans ?_
  exact List.append_assoc ..

theorem editsAt_definition (f : ExtractLiteral) (r : Request) (param : String) (path : Path) :
    (Changeset.empty.editFile r.snapshot r.file (f.definitionEdits param)).editsAt path =
      if RemoveUsing.pathOf r.snapshot r.file = path then f.replacements param else [] :=
  Changeset.editsAt_edit (f.definitionEdits_edits param) .empty _ _ path

/-- Without a separate declaration the default stands at the definition. -/
theorem changes_alone {r : Request} (h : f.declaration = none) : ∃ c, changes r f = .ok c ∧
    ∀ path, c.editsAt path =
      if RemoveUsing.pathOf r.snapshot r.file = path then f.replacements f.withDefault else [] := by
  refine ⟨_, ?_, f.editsAt_definition r f.withDefault⟩
  rw [changes, h]
  rfl

/-- A separate declaration gets the same parameter, and the default stands there. -/
theorem changes_declared {r : Request} {slot : ParameterSlot}
    (h : f.declaration = some (file, name))
    (hslot : declarationSlot r.snapshot file name = .ok slot) : ∃ c, changes r f = .ok c ∧
    ∀ path, c.editsAt path =
      (if RemoveUsing.pathOf r.snapshot r.file = path then f.replacements f.declared else []) ++
        if RemoveUsing.pathOf r.snapshot file = path
          then [⟨slot.span, slot.render f.withDefault⟩] else [] := by
  refine ⟨(Changeset.empty.editFile r.snapshot r.file (f.definitionEdits f.declared)).editFile
    r.snapshot file (·.replace slot.span (slot.render f.withDefault)), ?_, fun path => ?_⟩
  · rw [changes, h]
    simp only [hslot]
    rfl
  · rw [← f.editsAt_definition r]
    exact Changeset.editsAt_editFile_add ..

/-- What the fix makes of a document. -/
def textsAfter (text : String) (offset : Nat) : List (Option (List (String × String))) :=
  Request.textsOffered offers (fun r f => (changes r f).toOption.getD .empty)
    (RemoveUsing.snapshotOf text) 0 offset

/-- Only the parameters leave the name free: in the block it is a variable. -/
example : textsAfter "void f() \x7b \x7b int newParameter; g(5); \x7d \x7d" 33 =
    [some [("/a.cpp",
      "void f(int newParameter = 5) \x7b \x7b int newParameter; g(newParameter); \x7d \x7d")]] := by
  decide +kernel

/-- An ellipsis alone is no parameter, and the slot of an empty list is behind it. Behind a
parameter the slot is before the ellipsis. -/
theorem parameter_behind_ellipsis :
    textsAfter "void f(...) \x7b g(5); \x7d\n" 16 =
        [some [("/a.cpp", "void f(...int newParameter = 5) \x7b g(newParameter); \x7d\n")]] ∧
      textsAfter "void f(int n, ...) \x7b g(5); \x7d\n" 23 =
        [some [("/a.cpp",
          "void f(int n, int newParameter = 5, ...) \x7b g(newParameter); \x7d\n")]] := by
  decide +kernel

end ExtractLiteral

end CppRefactor
