import CppRefactor.Text.Identifier
import CppRefactor.Text.LetterCase
import Mathlib.Data.List.Lemmas

/-!
The other case of a letter of an identifier is made of characters of identifiers. Of the tables this
looks at each run of code points as a whole: it moves into one range of identifiers, or it has none
of their characters.
-/

namespace CppRefactor.Text

variable {c d : Char} {n : Nat} {ranges : List (Nat × Nat)} {run : CaseRun}

/-- The characters of identifiers outside ASCII. -/
def identifierRanges : List (Nat × Nat) := identifierStartRanges ++ identifierRestRanges

def asciiRanges : List (Nat × Nat) := [(0x30, 0x39), (0x41, 0x5A), (0x5F, 0x5F), (0x61, 0x7A)]

/-- The code points of the characters that may stand in an identifier. -/
def inIdentifier (code : Nat) : Bool := inRanges asciiRanges code || inRanges identifierRanges code

theorem inRanges_iff : inRanges ranges n = true ↔ ∃ r ∈ ranges, r.1 ≤ n ∧ n ≤ r.2 := by
  simp [inRanges]

theorem asciiRanges_lt : ∀ r ∈ asciiRanges, r.2 < 0x80 := by decide

theorem identifierRanges_valid : ∀ r ∈ identifierRanges,
    0x80 ≤ r.1 ∧ (r.2 < 0xD800 ∨ 0xDFFF < r.1 ∧ r.2 < 0x110000) := by
  decide +kernel

theorem isValidChar_of_inIdentifier (h : inIdentifier n = true) : n.isValidChar := by
  rw [inIdentifier, Bool.or_eq_true, inRanges_iff, inRanges_iff] at h
  unfold Nat.isValidChar
  rcases h with ⟨r, hr, -, hle⟩ | ⟨r, hr, hle⟩
  · have hlt := asciiRanges_lt r hr
    omega
  · have hvalid := (identifierRanges_valid r hr).2
    omega

theorem continuesIdentifier_eq (c : Char) : continuesIdentifier c = inIdentifier c.toNat := by
  by_cases hc : c.toNat < 0x80
  · have hall : ∀ n ∈ List.range 0x80,
        continuesIdentifier (Char.ofNat n) = inRanges asciiRanges n := by decide +kernel
    have hascii := hall c.toNat (List.mem_range.mpr hc)
    have hother : inRanges identifierRanges c.toNat = false := by
      rw [Bool.eq_false_iff, Ne, inRanges_iff]
      rintro ⟨r, hr, hle, -⟩
      exact absurd (identifierRanges_valid r hr).1 (by omega)
    rw [Char.ofNat_toNat] at hascii
    rw [hascii, inIdentifier, hother, Bool.or_false]
  · have hascii : inRanges asciiRanges c.toNat = false := by
      rw [Bool.eq_false_iff, Ne, inRanges_iff]
      rintro ⟨r, hr, -, hle⟩
      exact absurd (asciiRanges_lt r hr) (by omega)
    rw [continuesIdentifier, if_neg hc, inIdentifier, hascii, Bool.false_or, identifierRanges,
      inRanges, inRanges, inRanges, List.any_append]

theorem continuesIdentifier_ofNat (h : inIdentifier n = true) :
    continuesIdentifier (Char.ofNat n) = true := by
  have hn : (Char.ofNat n).toNat = n := by
    rw [Char.ofNat, dif_pos (isValidChar_of_inIdentifier h)]
    rfl
  rw [continuesIdentifier_eq, hn, h]

/-- One of the ranges has all code points from the first to the last. -/
def within (ranges : List (Nat × Nat)) (first last : Nat) : Bool :=
  ranges.any fun (low, high) => Nat.ble low first && Nat.ble last high

/-- None of the ranges has any of the code points from the first to the last. -/
def apart (ranges : List (Nat × Nat)) (first last : Nat) : Bool :=
  ranges.all fun (low, high) => Nat.blt last low || Nat.blt high first

theorem inRanges_of_within (h : within ranges first last = true) (hfirst : first ≤ n)
    (hlast : n ≤ last) : inRanges ranges n = true := by
  simp only [within, List.any_eq_true, Bool.and_eq_true, Nat.ble_eq] at h
  obtain ⟨r, hr, hlow, hhigh⟩ := h
  exact inRanges_iff.mpr ⟨r, hr, Nat.le_trans hlow hfirst, Nat.le_trans hlast hhigh⟩

theorem not_inRanges_of_apart (h : apart ranges first last = true) (hfirst : first ≤ n)
    (hlast : n ≤ last) : inRanges ranges n ≠ true := by
  simp only [apart, List.all_eq_true, Bool.or_eq_true, Nat.blt_eq] at h
  rw [Ne, inRanges_iff]
  rintro ⟨r, hr, hle⟩
  have hapart := h r hr
  omega

namespace CaseRun

/-- Where the run moves a code point. -/
def image (run : CaseRun) (code : Nat) : Nat := (code + run.shift).toNat

/-- The run moves characters of identifiers to such characters: all of it is moved into one range,
none of it is in any, or each code point goes to one. -/
def keepsIdentifier (run : CaseRun) : Bool :=
  within asciiRanges (run.image run.first) (run.image run.last) ||
    within identifierRanges (run.image run.first) (run.image run.last) ||
    apart identifierRanges run.first run.last ||
    (List.range ((run.last - run.first) / run.step + 1)).all fun k =>
      inIdentifier (run.image (run.first + k * run.step))

theorem inIdentifier_image (h : run.keepsIdentifier = true)
    (hn : inRanges identifierRanges n = true) (hfirst : run.first ≤ n) (hlast : n ≤ run.last)
    (hstep : (n - run.first) % run.step = 0) : inIdentifier (run.image n) = true := by
  have hlow : run.image run.first ≤ run.image n := by
    unfold image
    omega
  have hhigh : run.image n ≤ run.image run.last := by
    unfold image
    omega
  rw [keepsIdentifier, Bool.or_eq_true, Bool.or_eq_true, Bool.or_eq_true, List.all_eq_true] at h
  rw [inIdentifier, Bool.or_eq_true]
  rcases h with ((hascii | hother) | hapart) | heach
  · exact .inl (inRanges_of_within hascii hlow hhigh)
  · exact .inr (inRanges_of_within hother hlow hhigh)
  · exact absurd hn (not_inRanges_of_apart hapart hfirst hlast)
  · have hk := heach ((n - run.first) / run.step)
      (List.mem_range.mpr (Nat.lt_succ_of_le (Nat.div_le_div_right (by omega))))
    have hn : run.first + (n - run.first) / run.step * run.step = n := by
      rw [Nat.div_mul_cancel (Nat.dvd_of_mod_eq_zero hstep)]
      omega
    rwa [hn, inIdentifier, Bool.or_eq_true] at hk

theorem of_map? (h : run.map? n = some m) :
    run.first ≤ n ∧ n ≤ run.last ∧ (n - run.first) % run.step = 0 ∧ m = run.image n := by
  unfold map? at h
  split at h
  · rename_i hin
    simp only [Bool.and_eq_true, decide_eq_true_eq, beq_iff_eq] at hin
    exact ⟨hin.1.1, hin.1.2, hin.2, (Option.some.inj h).symm⟩
  · cases h

end CaseRun

theorem upperRuns_keepIdentifier : ∀ run ∈ upperRuns, run.keepsIdentifier = true := by
  decide +kernel

theorem lowerRuns_keepIdentifier : ∀ run ∈ lowerRuns, run.keepsIdentifier = true := by
  decide +kernel

theorem upperSequences_inIdentifier :
    ∀ entry ∈ upperSequences, entry.2 ≠ [] ∧ ∀ code ∈ entry.2, inIdentifier code = true := by
  decide +kernel

theorem lowerSequences_inIdentifier :
    ∀ entry ∈ lowerSequences, entry.2 ≠ [] ∧ ∀ code ∈ entry.2, inIdentifier code = true := by
  decide +kernel

section Recase

variable {sequences : List (Nat × List Nat)} {runs : List CaseRun}
  (hsequences : ∀ entry ∈ sequences, entry.2 ≠ [] ∧ ∀ code ∈ entry.2, inIdentifier code = true)

include hsequences

theorem recase_ne_nil (c : Char) : recase sequences runs c ≠ [] := by
  unfold recase
  split
  · rename_i codes hcodes
    obtain ⟨front, back, rfl, -⟩ := List.lookup_eq_some_iff.mp hcodes
    have hne := (hsequences _ (List.mem_append_right _ List.mem_cons_self)).1
    exact mt List.map_eq_nil_iff.mp hne
  · exact List.cons_ne_nil _ _

theorem recase_continues (hruns : ∀ run ∈ runs, run.keepsIdentifier = true) (hc : 0x80 ≤ c.toNat)
    (h : continuesIdentifier c = true) (hd : d ∈ recase sequences runs c) :
    continuesIdentifier d = true := by
  have hin : inRanges identifierRanges c.toNat = true := by
    rw [continuesIdentifier, if_neg (Nat.not_lt.mpr hc)] at h
    rwa [identifierRanges, inRanges, List.any_append]
  unfold recase at hd
  split at hd
  · rename_i codes hcodes
    obtain ⟨front, back, rfl, -⟩ := List.lookup_eq_some_iff.mp hcodes
    obtain ⟨code, hcode, rfl⟩ := List.mem_map.mp hd
    exact continuesIdentifier_ofNat
      ((hsequences _ (List.mem_append_right _ List.mem_cons_self)).2 code hcode)
  · rw [List.mem_singleton.mp hd]
    cases hrun : runs.findSome? (·.map? c.toNat) with
    | none => exact h
    | some code =>
      obtain ⟨run, hmem, hmap⟩ := List.exists_of_findSome?_eq_some hrun
      obtain ⟨hfirst, hlast, hstep, rfl⟩ := CaseRun.of_map? hmap
      exact continuesIdentifier_ofNat
        (CaseRun.inIdentifier_image (hruns run hmem) hin hfirst hlast hstep)

end Recase

theorem upper_ne_nil (c : Char) : upper c ≠ [] := by
  unfold upper
  split
  · exact List.cons_ne_nil _ _
  · exact recase_ne_nil upperSequences_inIdentifier c

theorem lower_ne_nil (c : Char) : lower c ≠ [] := by
  unfold lower
  split
  · exact List.cons_ne_nil _ _
  · exact recase_ne_nil lowerSequences_inIdentifier c

theorem ascii_continues : ∀ n ∈ List.range 0x80, continuesIdentifier (Char.ofNat n) = true →
    continuesIdentifier (Char.ofNat n).toUpper = true ∧
      continuesIdentifier (Char.ofNat n).toLower = true := by
  decide +kernel

theorem upper_continues (h : continuesIdentifier c = true) (hd : d ∈ upper c) :
    continuesIdentifier d = true := by
  unfold upper at hd
  split at hd
  · rename_i hc
    have hascii := ascii_continues c.toNat (List.mem_range.mpr hc)
    rw [Char.ofNat_toNat] at hascii
    rw [List.mem_singleton.mp hd]
    exact (hascii h).1
  · rename_i hc
    exact recase_continues upperSequences_inIdentifier upperRuns_keepIdentifier
      (Nat.not_lt.mp hc) h hd

theorem lower_continues (h : continuesIdentifier c = true) (hd : d ∈ lower c) :
    continuesIdentifier d = true := by
  unfold lower at hd
  split at hd
  · rename_i hc
    have hascii := ascii_continues c.toNat (List.mem_range.mpr hc)
    rw [Char.ofNat_toNat] at hascii
    rw [List.mem_singleton.mp hd]
    exact (hascii h).2
  · rename_i hc
    exact recase_continues lowerSequences_inIdentifier lowerRuns_keepIdentifier
      (Nat.not_lt.mp hc) h hd

end CppRefactor.Text
