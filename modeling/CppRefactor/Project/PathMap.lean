import CppRefactor.Project.Path

/-!
Values by path, in the order of the paths.
-/

namespace CppRefactor

structure PathMap (α : Type) where
  entries : List (Path × α)
  deriving Repr, Inhabited

namespace PathMap

def empty : PathMap α := ⟨[]⟩

def find? (m : PathMap α) (p : Path) : Option α := m.entries.lookup p

def contains (m : PathMap α) (p : Path) : Bool := (m.find? p).isSome

/-- Puts a value in its place, in the place of an older one if there is one. -/
def insertInto (p : Path) (a : α) : List (Path × α) → List (Path × α)
  | [] => [(p, a)]
  | (q, b) :: rest =>
    if p = q then (p, a) :: rest
    else if p.before q then (p, a) :: (q, b) :: rest
    else (q, b) :: insertInto p a rest

def insert (m : PathMap α) (p : Path) (a : α) : PathMap α := ⟨insertInto p a m.entries⟩

theorem lookup_cons (q r : Path) (b : α) (rest : List (Path × α)) :
    ((r, b) :: rest).lookup q = if q = r then some b else rest.lookup q := by
  by_cases hq : q = r
  · simp [hq]
  · rw [List.lookup_cons, beq_false_of_ne hq, if_neg hq]

theorem lookup_insertInto (p q : Path) (a : α) (entries : List (Path × α)) :
    (insertInto p a entries).lookup q = if q = p then some a else entries.lookup q := by
  induction entries with
  | nil => rw [insertInto, lookup_cons]
  | cons entry rest ih =>
    obtain ⟨r, b⟩ := entry
    simp only [insertInto]
    split
    · grind [lookup_cons]
    · split
      · rw [lookup_cons]
      · grind [lookup_cons]

theorem find?_insert (m : PathMap α) (p q : Path) (a : α) :
    (m.insert p a).find? q = if q = p then some a else m.find? q :=
  lookup_insertInto p q a m.entries

@[simp] theorem find?_insert_self (m : PathMap α) (p : Path) (a : α) :
    (m.insert p a).find? p = some a := by
  rw [find?_insert, if_pos rfl]

theorem find?_insert_ne (m : PathMap α) (h : q ≠ p) (a : α) :
    (m.insert p a).find? q = m.find? q := by
  rw [find?_insert, if_neg h]

def erase (m : PathMap α) (p : Path) : PathMap α := ⟨m.entries.filter (·.1 != p)⟩

theorem find?_erase (m : PathMap α) (p q : Path) :
    (m.erase p).find? q = if q = p then none else m.find? q := by
  simp only [find?, erase]
  induction m.entries with
  | nil => simp
  | cons entry rest ih =>
    obtain ⟨r, b⟩ := entry
    by_cases hr : r = p
    · rw [List.filter_cons_of_neg (by simp [hr]), ih, lookup_cons]
      grind
    · rw [List.filter_cons_of_pos (by simp [hr]), lookup_cons, lookup_cons, ih]
      grind

theorem lookup_map (entries : List (Path × α)) (f : α → β) (q : Path) :
    (entries.map fun (p, a) => (p, f a)).lookup q = (entries.lookup q).map f := by
  induction entries with
  | nil => rfl
  | cons entry rest ih =>
    obtain ⟨r, b⟩ := entry
    rw [List.map_cons, lookup_cons, lookup_cons, ih]
    split <;> rfl

def paths (m : PathMap α) : List Path := m.entries.map (·.1)

end PathMap

end CppRefactor
