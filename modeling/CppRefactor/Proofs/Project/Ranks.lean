import CppRefactor.Proofs.Project.Normalized

/-!
The order of paths. A map has its paths in their order, so that a file's number in a snapshot is the
number of paths before its own.
-/

namespace CppRefactor

namespace Component

theorem before_iff : before c d ↔
    c.rank < d.rank ∨ ∃ s t, c = .name s ∧ d = .name t ∧ s < t := by
  cases c <;> cases d <;> simp [before, rank]

theorem before_irrefl (c : Component) : c.before c = false := by
  refine Bool.eq_false_iff.mpr fun h => ?_
  rcases before_iff.mp h with h | ⟨s, t, rfl, ht, h⟩
  · exact Nat.lt_irrefl _ h
  · cases ht
    exact String.lt_irrefl s h

theorem before_trans (hcd : before c d) (hde : before d e) : before c e := by
  refine before_iff.mpr ?_
  rcases before_iff.mp hcd with hcd | ⟨s, t, rfl, rfl, hst⟩
  · rcases before_iff.mp hde with hde | ⟨t, u, rfl, rfl, -⟩
    · exact .inl (Nat.lt_trans hcd hde)
    · exact .inl hcd
  · rcases before_iff.mp hde with hde | ⟨t, u, ht, rfl, htu⟩
    · exact .inl hde
    · cases ht
      exact .inr ⟨s, u, rfl, rfl, String.lt_trans hst htu⟩

theorem eq_of_rank (h : rank c = rank d) : c = d ∨ ∃ s t, c = .name s ∧ d = .name t := by
  cases c <;> cases d <;> simp_all [rank]

theorem before_total (h : c ≠ d) : before c d ∨ before d c := by
  rcases Nat.lt_trichotomy c.rank d.rank with hlt | heq | hlt
  · exact .inl (before_iff.mpr (.inl hlt))
  · obtain ⟨s, t, rfl, rfl⟩ := (eq_of_rank heq).resolve_left h
    by_cases hst : s < t
    · exact .inl (before_iff.mpr (.inr ⟨s, t, rfl, rfl, hst⟩))
    · have hts : t < s := Decidable.not_not.mp fun hts =>
        h (congrArg name (String.le_antisymm (String.not_lt.mp hts) (String.not_lt.mp hst)))
      exact .inr (before_iff.mpr (.inr ⟨t, s, rfl, rfl, hts⟩))
  · exact .inr (before_iff.mpr (.inl hlt))

end Component

namespace Path

theorem before.go_irrefl (cs : List Component) : before.go cs cs = false := by
  induction cs with
  | nil => rfl
  | cons c cs ih => rw [before.go, if_pos rfl, ih]

theorem before.go_trans (hcd : before.go cs ds) (hde : before.go ds es) : before.go cs es := by
  induction cs generalizing ds es with
  | nil =>
    cases es with
    | nil => cases ds <;> simp [before.go] at hcd hde
    | cons e es => rfl
  | cons c cs ih =>
    cases ds with
    | nil => simp [before.go] at hcd
    | cons d ds =>
      cases es with
      | nil => simp [before.go] at hde
      | cons e es =>
        simp only [before.go] at hcd hde ⊢
        grind [Component.before_trans, Component.before_irrefl]

theorem before.go_total (h : cs ≠ ds) : before.go cs ds ∨ before.go ds cs := by
  induction cs generalizing ds with
  | nil =>
    cases ds with
    | nil => exact (h rfl).elim
    | cons d ds => exact .inl rfl
  | cons c cs ih =>
    cases ds with
    | nil => exact .inr rfl
    | cons d ds =>
      simp only [before.go]
      by_cases hc : c = d
      · subst hc
        rw [if_pos rfl, if_pos rfl]
        exact ih fun he => h (he ▸ rfl)
      · rw [if_neg hc, if_neg (Ne.symm hc)]
        exact Component.before_total hc

theorem before_irrefl (p : Path) : p.before p = false := before.go_irrefl p.components

theorem before_trans (hpq : before p q) (hqr : before q r) : before p r :=
  before.go_trans hpq hqr

theorem before_total (h : p ≠ q) : before p q ∨ before q p :=
  before.go_total fun he => h (congrArg mk he)

theorem not_before (h : before p q) : before q p = false := by
  refine Bool.eq_false_iff.mpr fun h' => ?_
  have hp := before_trans h h'
  rw [before_irrefl] at hp
  cases hp

end Path

namespace PathMap

/-- Every path comes before those behind it. -/
def Ordered (m : PathMap α) : Prop := m.entries.Pairwise fun a b => a.1.before b.1

/-- The number of paths before a path. -/
def rank (m : PathMap α) (p : Path) : Nat := m.paths.countP (·.before p)

theorem mem_paths {m : PathMap α} : p ∈ m.paths ↔ ∃ a, m.find? p = some a := by
  obtain ⟨entries⟩ := m
  simp only [paths, find?]
  induction entries with
  | nil => simp
  | cons entry rest ih =>
    rw [lookup_cons, List.map_cons, List.mem_cons, ih]
    by_cases hp : p = entry.1 <;> simp [hp]

theorem mem_insertInto {entries : List (Path × α)} (h : e ∈ insertInto p a entries) :
    e = (p, a) ∨ e ∈ entries := by
  induction entries with
  | nil => exact .inl (List.mem_singleton.mp h)
  | cons entry rest ih =>
    obtain ⟨q, b⟩ := entry
    simp only [insertInto] at h
    grind

theorem pairwise_insertInto {entries : List (Path × α)}
    (h : entries.Pairwise fun a b => a.1.before b.1) (p : Path) (a : α) :
    (insertInto p a entries).Pairwise fun a b => a.1.before b.1 := by
  induction entries with
  | nil => exact List.pairwise_singleton _ _
  | cons entry rest ih =>
    obtain ⟨q, b⟩ := entry
    obtain ⟨hq, hrest⟩ := List.pairwise_cons.mp h
    simp only [insertInto]
    split
    · rename_i hp
      exact List.pairwise_cons.mpr ⟨hp ▸ hq, hrest⟩
    · rename_i hp
      split
      · rename_i hb
        refine List.pairwise_cons.mpr ⟨fun e he => ?_, h⟩
        rcases List.mem_cons.mp he with rfl | he
        · exact hb
        · exact Path.before_trans hb (hq e he)
      · rename_i hb
        refine List.pairwise_cons.mpr ⟨fun e he => ?_, ih hrest⟩
        rcases mem_insertInto he with rfl | he
        · exact (Path.before_total hp).resolve_left hb
        · exact hq e he

namespace Ordered

theorem empty : Ordered (.empty : PathMap α) := .nil

theorem insert {m : PathMap α} (h : m.Ordered) (p : Path) (a : α) : (m.insert p a).Ordered :=
  pairwise_insertInto h p a

theorem erase {m : PathMap α} (h : m.Ordered) (p : Path) : (m.erase p).Ordered := h.filter _

theorem map {m : PathMap α} (h : m.Ordered) (f : α → β) :
    Ordered ⟨m.entries.map fun (p, a) => (p, f a)⟩ :=
  List.pairwise_map.mpr h

theorem paths {m : PathMap α} (h : m.Ordered) : m.paths.Pairwise (·.before ·) :=
  List.pairwise_map.mpr h

end Ordered

/-- In a list in order, the paths before one are those that stand before it. -/
theorem countP_before_getElem {paths : List Path} (h : paths.Pairwise (·.before ·))
    (hi : paths[i]? = some p) : paths.countP (·.before p) = i := by
  induction paths generalizing i with
  | nil => simp at hi
  | cons q rest ih =>
    obtain ⟨hq, hrest⟩ := List.pairwise_cons.mp h
    cases i with
    | zero =>
      obtain rfl : q = p := by simpa using hi
      have hnone : rest.countP (·.before q) = 0 :=
        List.countP_eq_zero.mpr fun r hr => by simp [Path.not_before (hq r hr)]
      rw [List.countP_cons, hnone, Path.before_irrefl]
      rfl
    | succ i =>
      have hp : rest[i]? = some p := by simpa using hi
      rw [List.countP_cons, ih hrest hp, if_pos (hq p (List.mem_of_getElem? hp))]

end PathMap

theorem Workspace.Reachable.ordered (h : Workspace.Reachable w) : w.documents.Ordered :=
  h.documents .empty (fun _ p d hm => hm.insert p.normalize d) fun _ p hm => hm.erase p.normalize

end CppRefactor
