import CppRefactor.Proofs.Symbols.Entries
import CppRefactor.Proofs.Syntax.Apart
import Mathlib.Logic.Relation

/-!
How the scopes of files nest. A scope that is added inside another one keeps them nested if only
scopes around it have offsets of its own.
-/

namespace CppRefactor

open Relation (ReflTransGen)

namespace SymbolTable

variable {t t' : SymbolTable}

/-- The second scope is the first one or around it. -/
def Around (t : SymbolTable) : ScopeId → ScopeId → Prop :=
  ReflTransGen fun inner outer => (t.scope inner).parent = some outer

/-- A scope of a file. -/
structure IsIn (t : SymbolTable) (file : FileId) (i : ScopeId) : Prop where
  lt : i < t.scopes.size
  file : (t.scope i).file = file

/-- The scopes of each file are a tree: they lie in their parents, and of two with a common offset
one is around the other. -/
structure Nested (t : SymbolTable) : Prop where
  parent_lt : (t.scope i).parent = some p → p < i
  file_eq : (t.scope i).parent = some p → (t.scope i).file = (t.scope p).file
  within : (t.scope i).parent = some p → (t.scope i).span.Within (t.scope p).span
  children (p i : ScopeId) :
    (t.scope p).children.count i = if (t.scope i).parent = some p then 1 else 0
  apart : t.IsIn file i → t.IsIn file j → o ∈ (t.scope i).span.offsets →
    o ∈ (t.scope j).span.offsets → t.Around i j ∨ t.Around j i
  root : t.IsIn file i → t.IsIn file j → (t.scope i).parent = none → (t.scope j).parent = none →
    i = j

theorem Around.mono (h : t.Around i j)
    (hparent : ∀ i p, (t.scope i).parent = some p → (t'.scope i).parent = some p) :
    t'.Around i j :=
  ReflTransGen.mono hparent _ _ h

theorem Nested.congr (h : t.Nested) (hsize : t'.scopes.size = t.scopes.size)
    (hcore : ∀ i, (t'.scope i).core = (t.scope i).core)
    (hchildren : ∀ i, (t'.scope i).children = (t.scope i).children) : t'.Nested := by
  have hparent (i : ScopeId) : (t'.scope i).parent = (t.scope i).parent :=
    (Scope.core_inj (hcore i)).2.1
  have hfile (i : ScopeId) : (t'.scope i).file = (t.scope i).file :=
    (Scope.core_inj (hcore i)).2.2.2.1
  have hspan (i : ScopeId) : (t'.scope i).span = (t.scope i).span :=
    (Scope.core_inj (hcore i)).2.2.2.2
  have hin {file i} (hi : t'.IsIn file i) : t.IsIn file i :=
    ⟨hsize ▸ hi.lt, hfile i ▸ hi.file⟩
  have haround {i j} (hij : t.Around i j) : t'.Around i j :=
    hij.mono fun i p hp => (hparent i).trans hp
  constructor
  · intro i p hp
    exact h.parent_lt (hparent i ▸ hp)
  · intro i p hp
    rw [hfile, hfile]
    exact h.file_eq (hparent i ▸ hp)
  · intro i p hp
    rw [hspan, hspan]
    exact h.within (hparent i ▸ hp)
  · intro p i
    rw [hchildren, hparent]
    exact h.children p i
  · intro file i j o hi hj ho ho'
    rw [hspan] at ho ho'
    exact (h.apart (hin hi) (hin hj) ho ho').imp haround haround
  · intro file i j hi hj hp hp'
    rw [hparent] at hp hp'
    exact h.root (hin hi) (hin hj) hp hp'

/-- The second table has one scope more. The others are as they were, but for what is added to
them. -/
structure Widens (t t' : SymbolTable) : Prop where
  size : t'.scopes.size = t.scopes.size + 1
  core : ∀ i, i ≠ t.scopes.size → (t'.scope i).core = (t.scope i).core

theorem Nested.ne_size (h : t.Nested) (hp : (t.scope i).parent = some p) :
    i ≠ t.scopes.size ∧ p ≠ t.scopes.size := by
  have hi := t.lt_size_of_parent hp
  exact ⟨Nat.ne_of_lt hi, Nat.ne_of_lt (Nat.lt_trans (h.parent_lt hp) hi)⟩

namespace Widens

variable (hw : t.Widens t') (hi : i ≠ t.scopes.size)

include hw hi

theorem parent : (t'.scope i).parent = (t.scope i).parent :=
  (Scope.core_inj (hw.core i hi)).2.1

theorem file : (t'.scope i).file = (t.scope i).file :=
  (Scope.core_inj (hw.core i hi)).2.2.2.1

theorem span : (t'.scope i).span = (t.scope i).span :=
  (Scope.core_inj (hw.core i hi)).2.2.2.2

theorem isIn (hin : t'.IsIn f i) : t.IsIn f i := by
  have hlt := hin.lt
  rw [hw.size] at hlt
  exact ⟨Nat.lt_of_le_of_ne (Nat.le_of_lt_succ hlt) hi, (hw.file hi).symm.trans hin.file⟩

end Widens

theorem Widens.around (hw : t.Widens t') (h : t.Nested) (hij : t.Around i j) : t'.Around i j :=
  hij.mono fun _ _ hp => (hw.parent (h.ne_size hp).1).trans hp

/-- Scopes stay nested if the new one lies in its parent, and is in its place among those of its
file. -/
theorem Nested.widens (h : t.Nested) (hw : t.Widens t')
    (hparent : ∀ p, (t'.scope t.scopes.size).parent = some p → p < t.scopes.size ∧
      (t'.scope t.scopes.size).file = (t.scope p).file ∧
      (t'.scope t.scopes.size).span.Within (t.scope p).span)
    (hchildren : ∀ p i,
      (t'.scope p).children.count i = if (t'.scope i).parent = some p then 1 else 0)
    (hapart : ∀ j o, t.IsIn (t'.scope t.scopes.size).file j →
      o ∈ (t'.scope t.scopes.size).span.offsets → o ∈ (t.scope j).span.offsets →
      t'.Around t.scopes.size j)
    (hroot : ∀ j, t.IsIn (t'.scope t.scopes.size).file j →
      (t'.scope t.scopes.size).parent ≠ none) : t'.Nested where
  parent_lt {i p} hp := by
    by_cases hi : i = t.scopes.size
    · exact hi ▸ (hparent p (hi ▸ hp)).1
    · exact h.parent_lt ((hw.parent hi).symm.trans hp)
  file_eq {i p} hp := by
    by_cases hi : i = t.scopes.size
    · subst hi
      rw [hw.file (Nat.ne_of_lt (hparent p hp).1)]
      exact (hparent p hp).2.1
    · have hp := (hw.parent hi).symm.trans hp
      rw [hw.file hi, hw.file (h.ne_size hp).2]
      exact h.file_eq hp
  within {i p} hp := by
    by_cases hi : i = t.scopes.size
    · subst hi
      rw [hw.span (Nat.ne_of_lt (hparent p hp).1)]
      exact (hparent p hp).2.2
    · have hp := (hw.parent hi).symm.trans hp
      rw [hw.span hi, hw.span (h.ne_size hp).2]
      exact h.within hp
  children := hchildren
  apart {file i j o} hi hj ho ho' := by
    by_cases hin : i = t.scopes.size
    · by_cases hjn : j = t.scopes.size
      · exact .inl (hin.trans hjn.symm ▸ .refl)
      · subst hin
        rw [hw.span hjn] at ho'
        exact .inl (hapart j o (hi.file.symm ▸ hw.isIn hjn hj) ho ho')
    · rw [hw.span hin] at ho
      by_cases hjn : j = t.scopes.size
      · subst hjn
        exact .inr (hapart i o (hj.file.symm ▸ hw.isIn hin hi) ho' ho)
      · rw [hw.span hjn] at ho'
        exact (h.apart (hw.isIn hin hi) (hw.isIn hjn hj) ho ho').imp (hw.around h) (hw.around h)
  root {file i j} hi hj hi' hj' := by
    by_cases hin : i = t.scopes.size
    · by_cases hjn : j = t.scopes.size
      · exact hin.trans hjn.symm
      · subst hin
        exact absurd hi' (hroot j (hi.file.symm ▸ hw.isIn hjn hj))
    · by_cases hjn : j = t.scopes.size
      · subst hjn
        exact absurd hj' (hroot i (hj.file.symm ▸ hw.isIn hin hi))
      · exact h.root (hw.isIn hin hi) (hw.isIn hjn hj) (hw.parent hin ▸ hi') (hw.parent hjn ▸ hj')

theorem Nested.addFile (h : t.Nested) (hnew : ∀ i < t.scopes.size, (t.scope i).file ≠ file)
    (span : Span) : (t.addFile file span).2.Nested := by
  have hself : (t.addFile file span).2.scope t.scopes.size = fileScope file span := by
    rw [scope_addFile, if_pos rfl]
  have hold (i : ScopeId) (hi : i ≠ t.scopes.size) :
      (t.addFile file span).2.scope i = t.scope i := by
    rw [scope_addFile, if_neg hi]
  have hw : t.Widens (t.addFile file span).2 :=
    ⟨Array.size_push .., fun i hi => congrArg Scope.core (hold i hi)⟩
  generalize (t.addFile file span).2 = t' at *
  have hother {j : ScopeId} : ¬ t.IsIn (t'.scope t.scopes.size).file j := fun hj => by
    rw [hself] at hj
    exact hnew j hj.lt hj.file
  have hparent (i : ScopeId) : (t'.scope i).parent = (t.scope i).parent := by
    by_cases hi : i = t.scopes.size
    · rw [hi, hself, t.scope_of_size_le (Nat.le_refl _)]
      rfl
    · exact hw.parent hi
  refine h.widens hw (fun p hp => ?_) (fun p i => ?_) (fun j _ hj => (hother hj).elim)
    fun j hj => (hother hj).elim
  · rw [hself] at hp
    cases hp
  · rw [hparent]
    by_cases hp : p = t.scopes.size
    · rw [if_neg fun hip => (h.ne_size hip).2 hp, hp, hself]
      rfl
    · rw [hold p hp]
      exact h.children p i

section addScope

variable (kind : ScopeKind) (p : ScopeId) (owner : Option SymbolId) (span : Span)

theorem scope_addScope_self :
    (t.addScope kind p owner span).2.scope t.scopes.size = t.freshScope kind p owner span := by
  rw [scope_addScope, if_pos rfl]

theorem core_addScope {i : ScopeId} (hi : i ≠ t.scopes.size) :
    ((t.addScope kind p owner span).2.scope i).core = (t.scope i).core := by
  rw [scope_addScope, if_neg hi]
  refine t.scope_modifyScope_eq (g := Scope.core) ?_ p i
  exact fun _ => rfl

theorem children_addScope {i : ScopeId} (hi : i ≠ t.scopes.size) :
    ((t.addScope kind p owner span).2.scope i).children =
      if i = p ∧ i < t.scopes.size then (t.scope i).children ++ [t.scopes.size]
      else (t.scope i).children := by
  rw [scope_addScope, if_neg hi, scope_modifyScope]
  split
  · rfl
  · rfl

/-- A scope that is added stands in its place if all scopes that have an offset of its are around
its parent. -/
theorem Nested.addScope (h : t.Nested) (hp : t.IsIn file p)
    (hspan : span.Within (t.scope p).span)
    (haround : ∀ i o, t.IsIn file i → o ∈ span.offsets → o ∈ (t.scope i).span.offsets →
      t.Around p i) : (t.addScope kind p owner span).2.Nested := by
  have hself := scope_addScope_self (t := t) kind p owner span
  have hchildren {i : ScopeId} (hi : i ≠ t.scopes.size) :=
    children_addScope (t := t) kind p owner span hi
  have hw : t.Widens (t.addScope kind p owner span).2 :=
    ⟨size_scopes_addScope t kind p owner span, fun _ => core_addScope kind p owner span⟩
  generalize (t.addScope kind p owner span).2 = t' at hself hchildren hw
  have hparent : (t'.scope t.scopes.size).parent = some p := by
    rw [hself]
    rfl
  refine h.widens hw (fun q hq => ?_) (fun q i => ?_) (fun j o hj ho ho' => ?_) fun j _ => ?_
  · obtain rfl := Option.some.inj (hparent.symm.trans hq)
    rw [hself]
    exact ⟨hp.lt, rfl, hspan⟩
  · by_cases hq : q = t.scopes.size
    · have hnone : (t'.scope i).parent ≠ some q := fun hiq => by
        by_cases hi : i = t.scopes.size
        · rw [hi, hparent] at hiq
          exact Nat.ne_of_lt hp.lt ((Option.some.inj hiq).trans hq)
        · exact (h.ne_size ((hw.parent hi).symm.trans hiq)).2 hq
      rw [if_neg hnone, hq, hself]
      rfl
    · have hcount := h.children q i
      rw [hchildren hq]
      by_cases hi : i = t.scopes.size
      · -- The new scope is listed by its parent, where it was not before.
        subst hi
        rw [if_neg fun hiq => (h.ne_size hiq).1 rfl] at hcount
        rw [hparent]
        by_cases hqp : q = p
        · subst hqp
          rw [if_pos ⟨rfl, hp.lt⟩, if_pos rfl, List.count_append, hcount, List.count_singleton_self]
        · rw [if_neg fun h => hqp h.1, if_neg fun h => hqp (Option.some.inj h).symm, hcount]
      · rw [hw.parent hi, ← hcount]
        split
        · rw [List.count_append, List.count_singleton, beq_false_of_ne (Ne.symm hi)]
          rfl
        · rfl
  · rw [hself] at hj ho
    exact .head hparent (hw.around h (haround j o (hp.file ▸ hj) ho ho'))
  · rw [hparent]
    exact nofun

end addScope

end SymbolTable

end CppRefactor
