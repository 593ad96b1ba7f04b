import CppRefactor.Proofs.Syntax.Gluing
import CppRefactor.Syntax.View.Declaration

/-!
The type that specifiers name, as text: what is read from it is what the specifiers are made of, but
for modifiers and identifiers that stand among them directly.
-/

namespace CppRefactor

open Lexer

variable {ts : List Token} {tail : List Char} {text : String} {t p : Tree}

/-- Tokens that do not glue are read from their spelling, whatever is behind a space. -/
theorem readForms_spell (hts : ∀ t ∈ ts, t.IsPlain) (h : glued ts = false)
    (htail : ∀ c ∈ tail.head?, c = ' ') :
    readForms ((spell ts).toList ++ tail) = forms ts ++ readForms tail := by
  rw [← readForms_spellAfter .error]
  exact readForms_of_clear (fun t ht => (hts t ht).toIsRead) (fun t ht => (hts t ht).significant)
    (clear_of_glued hts htail h) .error

theorem readForms_spellings {pieces : List (List Token)}
    (h : ∀ ts ∈ pieces, (∀ t ∈ ts, t.IsPlain) ∧ glued ts = false) :
    readForms (" ".intercalate (pieces.map spell)).toList = pieces.flatMap forms := by
  induction pieces with
  | nil => rfl
  | cons ts pieces ih =>
    obtain ⟨⟨hts, hglued⟩, hrest⟩ := List.forall_mem_cons.mp h
    rw [List.flatMap_cons, ← ih hrest]
    cases pieces with
    | nil =>
      have hread : readForms ((spell ts).toList ++ []) = forms ts ++ readForms [] :=
        readForms_spell hts hglued nofun
      rw [List.append_nil] at hread
      rw [List.map_singleton, String.intercalate_singleton, hread]
      rfl
    | cons us pieces =>
      have htail : ∀ c ∈ (' ' :: (" ".intercalate ((us :: pieces).map spell)).toList).head?,
          c = ' ' := fun c hc => (Option.some.inj hc).symm
      have hjoin : (" ".intercalate ((ts :: us :: pieces).map spell)).toList =
          (spell ts).toList ++ ' ' :: (" ".intercalate ((us :: pieces).map spell)).toList := by
        simp [String.intercalate_cons_cons]
      rw [hjoin, readForms_spell hts hglued htail, readForms_space]

namespace Specifiers

/-- The specifier is neither a modifier nor an identifier. -/
def isTypePart : Tree → Bool
  | .token t => !(t.isTrivia || t.kind.isDeclModifier || t.kind == .ident)
  | .node .. => true

/-- The class or enumeration that is specified has no body. -/
def Bodiless (t : Tree) : Prop :=
  ∀ p ∈ t.parts, p.isNode = true → p.kind ≠ .classSpec ∧ p.kind ≠ .enumSpec

instance (t : Tree) : Decidable (Bodiless t) :=
  inferInstanceAs (Decidable (∀ p ∈ t.parts, p.isNode = true → _))

theorem typePart?_eq (h : p.isNode = true → p.kind ≠ .classSpec ∧ p.kind ≠ .enumSpec) :
    typePart? p = if isTypePart p then some (spell p.significant) else none := by
  cases p with
  | token t =>
    cases htype : isTypePart (.token t) with
    | true =>
      simp only [isTypePart, Bool.not_eq_true', Bool.or_eq_false_iff] at htype
      obtain ⟨⟨hsignificant, hmodifier⟩, hident⟩ := htype
      simp [typePart?, Tree.significant, hsignificant, hmodifier, hident, spell, spellAfter]
    | false =>
      rw [isTypePart, Bool.not_eq_false'] at htype
      simp [typePart?, htype]
  | node k s ts =>
    obtain ⟨hclass, henum⟩ := h rfl
    have hkind : (k == .classSpec || k == .enumSpec) = false := by
      simpa using ⟨hclass, henum⟩
    simp only [typePart?, hkind, isTypePart]
    rfl

theorem filterMap_typePart? {ps : List Tree}
    (h : ∀ p ∈ ps, p.isNode = true → p.kind ≠ .classSpec ∧ p.kind ≠ .enumSpec) :
    ps.filterMap typePart? = ((ps.filter isTypePart).map Tree.significant).map spell := by
  induction ps with
  | nil => rfl
  | cons p ps ih =>
    obtain ⟨hp, hps⟩ := List.forall_mem_cons.mp h
    rw [List.filterMap_cons, typePart?_eq hp, ih hps, List.filter_cons]
    cases isTypePart p <;> rfl

/-- What is read from the text of a type are the tokens of the specifiers, without the modifiers
and identifiers that stand among them directly, if in no part tokens glue. -/
theorem typeText_forms (h : IsTreeOf text t) (hsound : t.Sound) (hbody : Bodiless t)
    (hclear : ∀ p ∈ t.parts, glued p.significant = false) :
    forms (tokenize (typeText t)) = forms ((t.parts.filter isTypePart).flatMap Tree.leaves) := by
  have hpieces : ∀ ts ∈ (t.parts.filter isTypePart).map Tree.significant,
      (∀ w ∈ ts, w.IsPlain) ∧ glued ts = false := by
    intro ts hts
    obtain ⟨p, hp, rfl⟩ := List.mem_map.mp hts
    have hpart := (List.mem_filter.mp hp).1
    have hin := h.inside (Tree.mem_preorder_of_mem_parts hpart)
    exact ⟨hin.isPlain (hsound.part hpart), hclear p hpart⟩
  have hread : forms (tokenize (typeText t)) = readForms (typeText t).toList := rfl
  rw [hread, typeText, filterMap_typePart? hbody, readForms_spellings hpieces, forms_flatMap]
  simp only [List.flatMap_map, forms_significant]

example : ∃ t ∈ (parse "static const unsigned long n;").tree.preorder,
    t.kind = .declSpecifiers ∧ typeText t = "unsigned long" := by
  decide +kernel

/-- A type by its declaration is lost: of `decltype(x)` the identifier is taken for a macro. -/
theorem typeText_decltype : (parse "decltype(x) y;").ok = true ∧
    ∃ t ∈ (parse "decltype(x) y;").tree.preorder, t.kind = .declSpecifiers ∧ Bodiless t ∧
      forms t.leaves = [(.decltypeKw, "decltype"), (.lParen, "("), (.ident, "x"), (.rParen, ")")] ∧
      typeText t = "decltype ( )" ∧
      forms (tokenize (typeText t)) =
        [(.decltypeKw, "decltype"), (.lParen, "("), (.rParen, ")")] := by
  decide +kernel

end Specifiers

end CppRefactor
