import CppRefactor.Fix.AccessorNames
import CppRefactor.Proofs.Syntax.Identifiers
import CppRefactor.Proofs.Text.LetterCase

/-!
The names of accessors. A name with a prefix is an identifier, and it is longer than the member's; a
bare name is one unless it begins with a digit or is a keyword, which nothing looks at.
-/

namespace CppRefactor

namespace Text

variable {s : String}

/-- The text with its first letter made into others. -/
def withFirst (f : Char → List Char) (s : String) : String :=
  match s.toList with
  | [] => ""
  | c :: cs => .ofList (f c ++ cs)

theorem uncapitalize_eq (s : String) : uncapitalize s = withFirst lower s := rfl

section WithFirst

variable {f : Char → List Char}

theorem length_le_withFirst (hf : ∀ c, f c ≠ []) (s : String) :
    s.length ≤ (withFirst f s).length := by
  rw [← String.length_toList]
  unfold withFirst
  cases s.toList with
  | nil => exact Nat.zero_le _
  | cons c cs =>
    have hpos := List.length_pos_iff.mpr (hf c)
    rw [String.length_ofList, List.length_append, List.length_cons]
    omega

theorem withFirst_continues
    (hf : ∀ c d, continuesIdentifier c = true → d ∈ f c → continuesIdentifier d = true)
    (h : ∀ c ∈ s.toList, continuesIdentifier c = true) :
    ∀ c ∈ (withFirst f s).toList, continuesIdentifier c = true := by
  unfold withFirst
  cases hs : s.toList with
  | nil => simp
  | cons c cs =>
    rw [hs] at h
    intro d hd
    rw [String.toList_ofList] at hd
    rcases List.mem_append.mp hd with hd | hd
    · exact hf c d (h c List.mem_cons_self) hd
    · exact h d (.tail c hd)

end WithFirst

theorem length_le_capitalize (s : String) : s.length ≤ (capitalize s).length :=
  length_le_withFirst upper_ne_nil s

theorem capitalize_continues (h : ∀ c ∈ s.toList, continuesIdentifier c = true) :
    ∀ c ∈ (capitalize s).toList, continuesIdentifier c = true :=
  withFirst_continues (fun _ _ => upper_continues) h

end Text

namespace AccessorNames

open Text (capitalize continuesIdentifier startsIdentifier)

variable {member base : String} {cs : List Char}

theorem withoutUnderscore_infix (cs : List Char) : ∃ front back,
    cs = front ++ undecorated.withoutUnderscore cs ++ back ∧ front.length + back.length ≤ 1 := by
  unfold undecorated.withoutUnderscore
  split
  · exact ⟨['_'], [], by simp, Nat.le_refl 1⟩
  · split
    · rename_i c rest hrev
      refine ⟨[], ['_'], ?_, Nat.le_refl 1⟩
      rw [List.nil_append, ← List.reverse_cons, ← hrev, List.reverse_reverse]
    · exact ⟨[], [], by simp, Nat.zero_le 1⟩

theorem undecorated_infix (cs : List Char) : ∃ front back,
    cs = front ++ undecorated cs ++ back ∧ front.length + back.length ≤ 2 := by
  have hunderscore : ∃ front back, cs = front ++ undecorated.withoutUnderscore cs ++ back ∧
      front.length + back.length ≤ 2 := by
    obtain ⟨front, back, hcs, hle⟩ := withoutUnderscore_infix cs
    exact ⟨front, back, hcs, Nat.le_succ_of_le hle⟩
  unfold undecorated
  split
  · exact ⟨[], ['_'], rfl, by decide⟩
  · exact ⟨['m', '_'], [], by simp, Nat.le_refl 2⟩
  · split
    · split
      · exact ⟨['m'], [], by simp, by decide⟩
      · exact hunderscore
    · exact hunderscore

theorem withoutUnderscore_ne_nil (h : cs ≠ []) : undecorated.withoutUnderscore cs ≠ [] := by
  unfold undecorated.withoutUnderscore
  split
  · exact List.cons_ne_nil _ _
  · split
    · exact mt List.reverse_eq_nil_iff.mp (List.cons_ne_nil _ _)
    · exact h

theorem undecorated_ne_nil (h : cs ≠ []) : undecorated cs ≠ [] := by
  unfold undecorated
  split
  · exact List.cons_ne_nil _ _
  · rename_i hne
    rintro rfl
    exact hne rfl
  · split
    · split
      · exact List.cons_ne_nil _ _
      · exact withoutUnderscore_ne_nil h
    · exact withoutUnderscore_ne_nil h

theorem plainName_continues (h : ∀ c ∈ member.toList, continuesIdentifier c = true) :
    ∀ c ∈ (plainName member).toList, continuesIdentifier c = true := by
  obtain ⟨front, back, hmember, -⟩ := undecorated_infix member.toList
  refine Text.withFirst_continues (fun _ _ => Text.lower_continues) fun c hc => h c ?_
  rw [String.toList_ofList] at hc
  rw [hmember]
  exact List.mem_append_left _ (List.mem_append_right _ hc)

theorem plainName_ne_nil (h : member.toList ≠ []) : (plainName member).toList ≠ [] := by
  have hpos := List.length_pos_iff.mpr (undecorated_ne_nil h)
  have hplain := Text.length_le_withFirst Text.lower_ne_nil (.ofList (undecorated member.toList))
  rw [String.length_ofList, ← Text.uncapitalize_eq, ← plainName] at hplain
  rw [← List.length_pos_iff, String.length_toList]
  exact Nat.lt_of_lt_of_le hpos hplain

theorem length_le_plainName (member : String) : member.length ≤ (plainName member).length + 2 := by
  obtain ⟨front, back, hmember, hle⟩ := undecorated_infix member.toList
  have hlength := congrArg List.length hmember
  have hplain := Text.length_le_withFirst Text.lower_ne_nil (.ofList (undecorated member.toList))
  rw [String.length_toList, List.length_append, List.length_append] at hlength
  rw [String.length_ofList] at hplain
  rw [plainName, Text.uncapitalize_eq]
  omega

theorem prefixed_ne_member (hthree : pre.length = 3) :
    pre ++ capitalize (plainName member) ≠ member := by
  intro h
  have hlength := congrArg String.length h
  have hplain := length_le_plainName member
  have hcapital := Text.length_le_capitalize (plainName member)
  rw [String.length_append] at hlength
  omega

theorem prefixed_ne_base (hthree : pre.length = 3) : pre ++ capitalize base ≠ base := by
  intro h
  have hlength := congrArg String.length h
  have hcapital := Text.length_le_capitalize base
  rw [String.length_append] at hlength
  omega

theorem isIdentifier_prefixed (hword : pre = "get" ∨ pre = "set")
    (hbase : ∀ c ∈ base.toList, continuesIdentifier c = true) :
    IsIdentifier (pre ++ capitalize base) := by
  have hfirst : ∃ c ∈ (pre ++ capitalize base).toList.head?, startsIdentifier c = true := by
    rw [String.toList_append]
    rcases hword with rfl | rfl
    · exact ⟨'g', rfl, rfl⟩
    · exact ⟨'s', rfl, rfl⟩
  have hpre : ∀ c ∈ pre.toList, continuesIdentifier c = true := by
    apply List.all_eq_true.mp
    rcases hword with rfl | rfl <;> decide
  have hall : ∀ c ∈ (pre ++ capitalize base).toList, continuesIdentifier c = true := by
    intro c hc
    rw [String.toList_append] at hc
    rcases List.mem_append.mp hc with hc | hc
    · exact hpre c hc
    · exact Text.capitalize_continues hbase c hc
  have hkeyword : Kind.keyword? (pre ++ capitalize base) = none := by
    rw [Option.eq_none_iff_forall_not_mem]
    intro kind hkind
    obtain ⟨-, hget, hset⟩ := Kind.keyword?_spelling hkind
    rcases hword with rfl | rfl
    · exact hget (by rw [String.toList_append]; rfl)
    · exact hset (by rw [String.toList_append]; rfl)
  exact isIdentifier_iff.mpr ⟨hfirst, hall, hkeyword⟩

/-- A getter has the bare name only if that is neither the member's nor taken. -/
theorem getter_cases (member : String) (withPrefix : Bool) (taken : String → Bool) :
    let names := ofMember member withPrefix taken
    names.getter = "get" ++ capitalize names.base ∨
      names.getter = names.base ∧ names.base ≠ member ∧ taken names.base = false := by
  dsimp only [ofMember]
  split
  · exact .inl rfl
  · rename_i h
    simp only [Bool.or_eq_true, beq_iff_eq, not_or, Bool.not_eq_true] at h
    exact .inr ⟨rfl, h.1.2, h.2⟩

theorem parameter_cases (member : String) (withPrefix : Bool) (taken : String → Bool) :
    let names := ofMember member withPrefix taken
    names.parameter ≠ member ∧
      (names.parameter = names.base ∨ names.parameter = "value" ∨
        names.parameter = "newValue") := by
  dsimp only [ofMember]
  split
  · rename_i h
    exact ⟨bne_iff_ne.mp h, .inl rfl⟩
  · split
    · rename_i h
      exact ⟨by rw [beq_iff_eq.mp h]; decide, .inr (.inr rfl)⟩
    · rename_i h
      exact ⟨fun heq => h (beq_iff_eq.mpr heq.symm), .inr (.inl rfl)⟩

/-- The names of accessors are apart from the member's and from each other, and one that is taken
has the prefix. -/
theorem ofMember_apart (member : String) (withPrefix : Bool) (taken : String → Bool) :
    let names := ofMember member withPrefix taken
    names.getter ≠ member ∧ names.setter ≠ member ∧ names.parameter ≠ member ∧
      names.getter ≠ names.setter ∧
      (taken names.getter = true → names.getter = "get" ++ capitalize names.base) := by
  intro names
  have hget : "get" ++ capitalize names.base ≠ member := prefixed_ne_member rfl
  have hset : "set" ++ capitalize names.base ≠ member := prefixed_ne_member rfl
  have hparameter : names.parameter ≠ member := (parameter_cases member withPrefix taken).1
  rcases getter_cases member withPrefix taken with hgetter | ⟨hgetter, hne, hfree⟩
  · refine ⟨hgetter ▸ hget, hset, hparameter, ?_, fun _ => hgetter⟩
    rw [hgetter]
    intro heq
    exact absurd ((String.append_left_inj _).mp heq) (by decide)
  · refine ⟨hgetter ▸ hne, hset, hparameter, ?_, fun htaken => ?_⟩
    · rw [hgetter]
      exact (prefixed_ne_base rfl).symm
    · rw [hgetter] at htaken
      exact absurd hfree (Bool.not_eq_false _ ▸ htaken)

/-- Accessors of a member that is an identifier are called by identifiers, except where one has the
bare name and that is none: it begins with a digit, or it is a keyword. -/
theorem ofMember_isIdentifier (h : IsIdentifier member) (withPrefix : Bool)
    (taken : String → Bool) :
    let names := ofMember member withPrefix taken
    IsIdentifier names.setter ∧ (names.getter = names.base ∨ IsIdentifier names.getter) ∧
      (names.parameter = names.base ∨ IsIdentifier names.parameter) ∧
      (¬ IsIdentifier names.base ↔ (∃ c ∈ names.base.toList.head?, startsIdentifier c = false) ∨
        Kind.keyword? names.base ≠ none) := by
  obtain ⟨⟨first, hfirst, -⟩, hmember, -⟩ := isIdentifier_iff.mp h
  have hall := plainName_continues hmember
  refine ⟨isIdentifier_prefixed (.inr rfl) hall, ?_, ?_, ?_⟩
  · rcases getter_cases member withPrefix taken with hgetter | ⟨hgetter, -, -⟩
    · exact .inr (hgetter ▸ isIdentifier_prefixed (.inl rfl) hall)
    · exact .inl hgetter
  · rcases (parameter_cases member withPrefix taken).2 with hbase | hvalue | hvalue
    · exact .inl hbase
    · exact .inr (by rw [hvalue]; decide)
    · exact .inr (by rw [hvalue]; decide)
  · have hne : (plainName member).toList ≠ [] := plainName_ne_nil fun hnil => by
      rw [hnil] at hfirst
      exact nomatch hfirst
    obtain ⟨c, cs, hcs⟩ := List.exists_cons_of_ne_nil hne
    have hhead : (plainName member).toList.head? = some c := by rw [hcs, List.head?_cons]
    dsimp only [ofMember]
    rw [isIdentifier_iff, hhead, and_iff_right hall]
    cases hstarts : startsIdentifier c <;> simp [hstarts]

/-- A bare name is not looked at, so that a keyword or digits may be the getter's; nor is a name
with the prefix, which may be taken too. -/
theorem getter_unusable :
    (IsIdentifier "m_class" ∧
      ofMember "m_class" false (fun _ => false) = ⟨"class", "class", "setClass", "class"⟩ ∧
      ¬ IsIdentifier "class") ∧
    (IsIdentifier "m_1" ∧ (ofMember "m_1" false fun _ => false).getter = "1" ∧
      ¬ IsIdentifier "1") ∧
    IsIdentifier "m_size" ∧
      (ofMember "m_size" false ["size", "getSize"].contains).getter = "getSize" := by
  decide +kernel

end AccessorNames

end CppRefactor
