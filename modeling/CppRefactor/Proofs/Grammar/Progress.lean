import CppRefactor.Grammar.Parser

/-!
Progress of parsers. `Takes k s s'` says that at least `k` words were taken on the way from `s` to
`s'`, each as a leaf of what was built, and `Ends p s post` that the parser is not cut off. A rule
of the grammar has one statement of the form `Ends rule s fun _ => Takes k s`.
-/

namespace CppRefactor.Grammar

namespace State

def atEnd (s : State) : Bool := s.ahead.isEmpty

def kindAt (s : State) (n : Nat) : Kind := ((s.ahead[n]?).map (·.kind)).getD .error

def isAtAny (s : State) (ks : List Kind) : Bool := s.ahead.head?.any fun w => ks.contains w.kind

def isAt (s : State) (k : Kind) : Bool := s.isAtAny [k]

/-- There is a next word, and it is no closing brace: declarations and statements then take it. -/
def isFree (s : State) : Bool := s.ahead.head?.any (·.kind != .rBrace)

/-- No trivia is left before the next word. -/
def isClosed (s : State) : Bool := s.settled || s.ahead.head?.all (·.gap == .none)

/-- The words ahead, counted twice, and once more for an open gap before them. -/
def room (s : State) : Nat := 2 * s.ahead.length + (!s.isClosed).toNat

/-- The inside of a node that begins. -/
def enter (s : State) : State := { s with settled := true, built := [] }

def settle (s : State) : State := { s with settled := true }

theorem length_pos_of_isAtAny {s : State} (h : s.isAtAny ks = true) : 0 < s.ahead.length := by
  cases hs : s.ahead with
  | nil => simp [isAtAny, hs] at h
  | cons => simp

theorem length_pos_of_isAt {s : State} (h : s.isAt k = true) : 0 < s.ahead.length :=
  length_pos_of_isAtAny h

theorem length_pos_of_not_atEnd {s : State} (h : s.atEnd = false) : 0 < s.ahead.length := by
  cases hs : s.ahead with
  | nil => simp [atEnd, hs] at h
  | cons => simp

theorem length_pos_of_kindAt {s : State} (h : s.kindAt n = k) (hk : k ≠ .error) :
    n < s.ahead.length := by
  apply Nat.lt_of_not_le
  intro hn
  have he : s.ahead[n]? = none := List.getElem?_eq_none hn
  simp only [kindAt, he, Option.map_none, Option.getD_none] at h
  exact hk h.symm

theorem isAtAny_eq {s : State} (h : s.atEnd = false) (ks : List Kind) :
    s.isAtAny ks = ks.contains (s.kindAt 0) := by
  cases hs : s.ahead with
  | nil => simp [atEnd, hs] at h
  | cons w ws => simp [kindAt, isAtAny, hs]

theorem isFree_of_not_isAt {s : State} (he : s.atEnd = false) (hb : s.isAt .rBrace = false) :
    s.isFree = true := by
  cases hs : s.ahead with
  | nil => simp [atEnd, hs] at he
  | cons w ws => simp_all [isFree, isAt, isAtAny]

@[simp] theorem enter_ahead (s : State) : s.enter.ahead = s.ahead := rfl

@[simp] theorem settle_ahead (s : State) : s.settle.ahead = s.ahead := rfl

end State

/-- From `s` to `s'` at least `k` words were taken, each as a leaf of a part that was added. -/
structure Takes (k : Nat) (s s' : State) : Prop where
  suffix : s'.ahead <:+ s.ahead
  length : s'.ahead.length + k ≤ s.ahead.length
  taken : s'.taken + s'.ahead.length = s.taken + s.ahead.length
  settled : s'.ahead.length = s.ahead.length → s.settled → s'.settled
  built : ∃ parts, s'.built = parts ++ s.built ∧
    Outline.wordsOf parts + s'.ahead.length = s.ahead.length

theorem Takes.refl (s : State) : Takes 0 s s :=
  ⟨List.suffix_refl _, Nat.le_refl _, rfl, fun _ h => h, [], rfl, by simp⟩

theorem Takes.trans (h : Takes j s s₁) (h' : Takes k s₁ s₂) : Takes (j + k) s s₂ := by
  obtain ⟨parts, hp, hw⟩ := h.built
  obtain ⟨parts', hp', hw'⟩ := h'.built
  have hl := h.length
  have hl' := h'.length
  refine ⟨h'.suffix.trans h.suffix, by omega, h'.taken.trans h.taken, ?_, parts' ++ parts, ?_, ?_⟩
  · intro he hs
    exact h'.settled (by omega) (h.settled (by omega) hs)
  · rw [hp', hp, List.append_assoc]
  · rw [Outline.wordsOf_append]
    omega

theorem Takes.mono (h : Takes k s s') (hj : j ≤ k) : Takes j s s' :=
  { h with length := Nat.le_trans (Nat.add_le_add_left hj _) h.length }

theorem Takes.any (h : Takes k s s') : Takes 0 s s' := h.mono (Nat.zero_le k)

theorem Takes.ahead_eq (h : Takes k s s') (hl : s.ahead.length ≤ s'.ahead.length) :
    s'.ahead = s.ahead :=
  h.suffix.eq_of_length (Nat.le_antisymm h.suffix.length_le hl)

theorem Takes.then (h : Takes 0 s s₁) (h' : Takes k s₁ s₂) : Takes k s s₂ :=
  (h.trans h').mono (by omega)

theorem Takes.andThen (h : Takes k s s₁) (h' : Takes j s₁ s₂) : Takes k s s₂ :=
  (h.trans h').mono (by omega)

/-- What takes a word of a free state takes one, whatever was taken before. -/
theorem Takes.thenFree (h : Takes 0 s s₁) (h' : Takes s₁.isFree.toNat s₁ s₂) :
    Takes s.isFree.toNat s s₂ := by
  by_cases hl : s.ahead.length ≤ s₁.ahead.length
  -- Nothing was taken up to `s₁`, so the word that makes `s` free is still ahead there.
  · have he : s₁.isFree = s.isFree := by simp only [State.isFree, h.ahead_eq hl]
    rw [← he]
    exact h.then h'
  · have hlt := h'.suffix.length_le
    refine { h.then h'.any with length := ?_ }
    cases s.isFree <;> simp only [Bool.toNat_false, Bool.toNat_true] <;> omega

theorem Takes.settle (s : State) : Takes 0 s s.settle :=
  ⟨List.suffix_refl _, Nat.le_refl _, rfl, fun _ _ => rfl, [], rfl, by simp⟩

theorem Takes.isClosed (h : Takes k s s') (ha : s'.ahead = s.ahead) (hs : s.isClosed = true) :
    s'.isClosed = true := by
  simp only [State.isClosed, ha, Bool.or_eq_true] at hs ⊢
  exact hs.imp_left (h.settled (by rw [ha]))

theorem Takes.room_le (h : Takes k s s') : s'.room ≤ s.room := by
  have hl := h.suffix.length_le
  have hb := Bool.toNat_le (!s'.isClosed)
  simp only [State.room]
  by_cases he : s.ahead.length ≤ s'.ahead.length
  · have hc := h.isClosed (h.ahead_eq he)
    cases hs : s.isClosed with
    | true => simp only [hc hs, Bool.not_true, Bool.toNat_false]; omega
    | false => simp only [Bool.not_false, Bool.toNat_true]; omega
  · omega

theorem Takes.room_lt (h : Takes k s s') (hk : 0 < k) : s'.room < s.room := by
  have hl := h.length
  have hb := Bool.toNat_le (!s'.isClosed)
  simp only [State.room]
  omega

theorem Takes.room_lt_of_ne (h : Takes k s s')
    (hp : (s'.taken, s'.isClosed) ≠ (s.taken, s.isClosed)) : s'.room < s.room := by
  have hl := h.suffix.length_le
  have ht := h.taken
  by_cases he : s.ahead.length ≤ s'.ahead.length
  · have hc := h.isClosed (h.ahead_eq he)
    have htaken : s'.taken = s.taken := by omega
    cases hs : s.isClosed with
    | true => simp [htaken, hc hs, hs] at hp
    | false =>
      have hs' : s'.isClosed = true := by simpa [htaken, hs] using hp
      simp only [State.room, hs, hs', Bool.not_true, Bool.not_false, Bool.toNat_false,
        Bool.toNat_true]
      omega
  · have hb := Bool.toNat_le (!s'.isClosed)
    simp only [State.room]
    omega

/-- A step of a repetition went from `s` to `s'`: if there is to be another one, room was used. -/
def Steps (more : Bool) (s s' : State) : Prop := Takes 0 s s' ∧ (more = true → s'.room < s.room)

theorem Takes.steps (h : Takes k s s') (hk : 0 < k) (more : Bool) : Steps more s s' :=
  ⟨h.any, fun _ => h.room_lt hk⟩

theorem Takes.toNat (h : Takes 1 s s') (b : Bool) : Takes b.toNat s s' := h.mono (Bool.toNat_le b)

theorem Takes.stops (h : Takes k s s') : Steps false s s' := ⟨h.any, nofun⟩

theorem Takes.steps_toNat (h : Takes more.toNat s s') : Steps more s s' :=
  ⟨h.any, fun hm => h.room_lt (by simp [hm])⟩

theorem Takes.thenSteps (h : Takes k s s₁) (h' : Steps more s₁ s₂) : Steps more s s₂ :=
  ⟨h.any.then h'.1, fun hm => Nat.lt_of_lt_of_le (h'.2 hm) h.room_le⟩

end CppRefactor.Grammar
